import LinearAssignment.Proofs.Optimality.Table
import LinearAssignment.Proofs.Solve

set_option autoImplicit false

namespace LinearAssignment

-- The differences that values are loaded as, those that lines are lowered to and the sums that
-- costs are shifted through stay where binary64 has all whole numbers.
structure StaysExact (options : Options) (rows cols : Nat) (values : Array Float) : Prop where
  loading : options.maximize = true →
    ∀ v ∈ values, Binary64.value (Pricing.greatestFinite values) - Binary64.value v ≤ 2 ^ 53
  lowering : ∀ row col, row < rows → col < cols →
    (Board.loaded options rows cols values).worthAt row col -
        Binary64.value ((Board.loaded options rows cols values).leastOfLine
          ((Board.loaded options rows cols values).line row col)) ≤ 2 ^ 53
  shifting : ∀ start s, (Board.loaded options rows cols values).reduce = .ok start →
    Stage.Reached start s → s.Small

def StaysCounted (options : Options) (rows cols : Nat) (values : Array Float) : Prop :=
  ∀ start, (Board.loaded options rows cols values).reduce = .ok start → Stage.CountsFit start

theorem finite_accepted (options : Options) (rows cols : Nat) (values : Array Float)
    (finite : ∀ v ∈ values, v.isFinite) :
    Board.objection? options values (.ready rows cols) = none := by
  have none : values.findIdx? (!·.isFinite) = Option.none := by
    rw [Array.findIdx?_eq_none_iff]
    intro v member
    simp [finite v member]
  cases forbids : options.forbidNonFinite <;> simp [Board.objection?, forbids, none, guard]

theorem loaded_whole (options : Options) (rows cols : Nat) (values : Array Float)
    (size : values.size = rows * cols) (finite : ∀ v ∈ values, v.isFinite) (whole : Whole values)
    (loading : options.maximize = true →
      ∀ v ∈ values, Binary64.value (Pricing.greatestFinite values) - Binary64.value v ≤ 2 ^ 53)
    (row col : Nat) (insideRow : row < rows) (insideColumn : col < cols) :
    ((Board.loaded options rows cols values).costAt row col).isFinite ∧
      (∃ n : ℤ, (Board.loaded options rows cols values).worthAt row col = n) ∧
      (Board.loaded options rows cols values).worthAt row col =
        if options.maximize then
          Binary64.value (Pricing.greatestFinite values) - worthOf values rows (row, col)
        else
          worthOf values rows (row, col) := by
  have member := cell_member values rows cols row col size insideRow insideColumn
  rw [Board.worthAt, Board.loaded_cost options rows cols values size row col insideRow insideColumn]
  exact Pricing.settled_exact options values whole _ member (finite _ member) fun maximize =>
    loading maximize _ member

theorem loaded_total (options : Options) (rows cols : Nat) (values : Array Float)
    (size : values.size = rows * cols) (finite : ∀ v ∈ values, v.isFinite) (whole : Whole values)
    (loading : options.maximize = true →
      ∀ v ∈ values, Binary64.value (Pricing.greatestFinite values) - Binary64.value v ≤ 2 ^ 53)
    (cells : Finset (Nat × Nat)) (matching : Matching rows cols cells) :
    ∑ cell ∈ cells, (Board.loaded options rows cols values).worthAt cell.1 cell.2 =
      if options.maximize then
        cells.card • Binary64.value (Pricing.greatestFinite values) -
          ∑ cell ∈ cells, worthOf values rows cell
      else
        ∑ cell ∈ cells, worthOf values rows cell := by
  refine Board.outlay_total options rows cols values cells fun cell member => ?_
  obtain ⟨insideRow, insideColumn⟩ := matching.inside cell member
  exact (loaded_whole options rows cols values size finite whole loading cell.1 cell.2 insideRow
    insideColumn).2.2

theorem exact_searchable (options : Options) (rows cols : Nat) (values : Array Float)
    (size : values.size = rows * cols) (finite : ∀ v ∈ values, v.isFinite) (whole : Whole values)
    (exact : StaysExact options rows cols values) :
    (Board.loaded options rows cols values).Searchable where
  finite := fun row col insideRow insideColumn =>
    (loaded_whole options rows cols values size finite whole exact.loading row col
      insideRow insideColumn).1
  whole := fun row col insideRow insideColumn =>
    (loaded_whole options rows cols values size finite whole exact.loading row col
      insideRow insideColumn).2.1
  small := exact.lowering
  shifts := exact.shifting

theorem moderate_stays_exact (options : Options) (rows cols : Nat) (values : Array Float)
    (size : values.size = rows * cols) (finite : ∀ v ∈ values, v.isFinite) (whole : Whole values)
    (moderate : ∀ v ∈ values, |Binary64.value v| ≤ 2 ^ 51) :
    StaysExact options rows cols values := by
  have loading :
      options.maximize = true →
        ∀ v ∈ values, Binary64.value (Pricing.greatestFinite values) - Binary64.value v ≤
          2 ^ 52 := by
    intro _ v member
    obtain ⟨_, memberGreatest, _⟩ := Pricing.greatest_finite values ⟨v, member, finite v member⟩
    have low := (abs_le.mp (moderate v member)).1
    have high := (abs_le.mp (moderate _ memberGreatest)).2
    linarith
  have loadingWide :
      options.maximize = true →
        ∀ v ∈ values, Binary64.value (Pricing.greatestFinite values) - Binary64.value v ≤ 2 ^ 53 :=
    fun maximize v member => (loading maximize v member).trans (by norm_num)
  have cells := loaded_whole options rows cols values size finite whole loadingWide
  have searchable := Stage.spread_searchable (Board.loaded options rows cols values)
    (Board.loaded_unmarked options rows cols values size)
    (fun row col insideRow insideColumn => (cells row col insideRow insideColumn).1)
    (fun row col insideRow insideColumn => (cells row col insideRow insideColumn).2.1)
    (2 ^ 52) (by norm_num) ?close
  case close =>
    intro row col r c insideRow insideColumn insideR insideC
    have member := cell_member values rows cols row col size insideRow insideColumn
    have memberToo := cell_member values rows cols r c size insideR insideC
    rw [(cells row col insideRow insideColumn).2.2, (cells r c insideR insideC).2.2]
    obtain ⟨low, high⟩ := abs_le.mp (moderate _ member)
    obtain ⟨lowToo, highToo⟩ := abs_le.mp (moderate _ memberToo)
    simp only [worthOf]
    split <;> linarith
  exact ⟨loadingWide, searchable.small, searchable.shifts⟩

theorem short_side_stays_counted (options : Options) (rows cols : Nat) (values : Array Float)
    (size : values.size = rows * cols)
    (lowerable : (Board.loaded options rows cols values).Lowerable)
    (counters : min rows cols * (min rows cols + 1) / 2 < 2 ^ 32) :
    StaysCounted options rows cols values :=
  Stage.short_counts_fit _ (Board.loaded_unmarked options rows cols values size) lowerable counters

theorem narrow_stays_counted (w : Width) (narrow : w.bytes ≤ 2) (options : Options)
    (rows cols : Nat) (values : Array Float) (rowsFit : rows < w.max)
    (size : values.size = rows * cols)
    (lowerable : (Board.loaded options rows cols values).Lowerable) :
    StaysCounted options rows cols values := by
  refine short_side_stays_counted options rows cols values size lowerable ?_
  have few : rows ≤ 65535 := by
    cases w <;> simp [Width.bytes, Width.max, UInt8.size, UInt16.size] at narrow rowsFit <;> omega
  have short : min rows cols ≤ 65535 := (Nat.min_le_left rows cols).trans few
  have square : min rows cols * (min rows cols + 1) ≤ 65535 * 65536 :=
    Nat.mul_le_mul short (by omega)
  omega

theorem solved_by_stars (w : Width) (mem : Memory) (options : Options) (rows cols : Nat)
    (values : Array Float) (room : mem.Suffices w rows cols) (rowsFit : rows < w.max)
    (colsFit : cols < w.max) (size : values.size = rows * cols) (cells : ¬ (rows = 0 ∨ cols = 0))
    (accepted : Board.objection? options values (.ready rows cols) = none)
    (priced : values.any Float.isFinite) (start last : Board Float) (tally : Tally)
    (reduce : (Board.loaded options rows cols values).reduce = .ok start)
    (run : start.run = .ok (last, tally)) (sound : Stage.Sound ⟨.finished, last⟩)
    (lastRows : last.rows = rows) (lastCols : last.cols = cols) :
    ∃ report : Assignment w, optimalAssignment mem options rows cols values = .ok report ∧
      Matching rows cols last.starCells ∧ last.starCells.card = min rows cols ∧ report.pairs.Nodup ∧
      report.pairs.toFinset =
        last.starCells.filter (fun cell => (values.getD (cell.1 + rows * cell.2) 0).isFinite) ∧
      report.cost = report.pairs.foldl (Assignment.addValue values rows) 0 := by
  obtain ⟨searching, _, complete⟩ := sound
  have independent := searching.toIndependent
  obtain ⟨report, solved, pairs, cost, _⟩ := solved_by_search mem options rows cols values room
    rowsFit colsFit size cells accepted priced start last tally reduce run
    searching.sized.stars lastRows lastCols
  have matching := Stage.star_matching last independent
  rw [lastRows, lastCols] at matching
  refine ⟨report, solved, matching, ?_, pairs ▸ Board.chosen_nodup last values, ?_, pairs ▸ cost⟩
  · rw [← Board.star_count_cells last searching.sized, complete, Board.shorterSide,
      lastRows, lastCols]
  · rw [pairs, Board.chosen_cells last values independent, lastRows]

theorem solved_cheapest (w : Width) (mem : Memory) (options : Options) (rows cols : Nat)
    (values : Array Float) (room : mem.Suffices w rows cols) (rowsFit : rows < w.max)
    (colsFit : cols < w.max) (size : values.size = rows * cols) (cells : ¬ (rows = 0 ∨ cols = 0))
    (accepted : Board.objection? options values (.ready rows cols) = none)
    (priced : values.any Float.isFinite)
    (searchable : (Board.loaded options rows cols values).Searchable)
    (counted : StaysCounted options rows cols values) :
    ∃ (report : Assignment w) (stars : Finset (Nat × Nat)),
      optimalAssignment mem options rows cols values = .ok report ∧
      Matching rows cols stars ∧ stars.card = min rows cols ∧
      (∀ other, Matching rows cols other → other.card = min rows cols →
        ∑ cell ∈ stars, (Board.loaded options rows cols values).worthAt cell.1 cell.2 ≤
          ∑ cell ∈ other, (Board.loaded options rows cols values).worthAt cell.1 cell.2) ∧
      report.pairs.Nodup ∧
      report.pairs.toFinset =
        stars.filter (fun cell => (values.getD (cell.1 + rows * cell.2) 0).isFinite) ∧
      report.cost = report.pairs.foldl (Assignment.addValue values rows) 0 := by
  obtain ⟨start, last, tally, reduce, run, sound, lastRows, lastCols, cheapest⟩ :=
    Stage.search_cheapest (Board.loaded options rows cols values)
      (Board.loaded_unmarked options rows cols values size) searchable counted
  obtain ⟨report, solved, matching, full, nodup, chosen, cost⟩ :=
    solved_by_stars w mem options rows cols values room rowsFit colsFit size cells accepted priced
      start last tally reduce run sound lastRows lastCols
  exact ⟨report, last.starCells, solved, matching, full, cheapest, nodup, chosen, cost⟩

theorem cost_exact {w : Width} (rows cols : Nat) (values : Array Float)
    (size : values.size = rows * cols) (whole : Whole values) (report : Assignment w)
    (nodup : report.pairs.Nodup)
    (cells : ∀ cell ∈ report.pairs, cell.1 < rows ∧ cell.2 < cols ∧
      (values.getD (cell.1 + rows * cell.2) 0).isFinite)
    (cost : report.cost = report.pairs.foldl (Assignment.addValue values rows) 0)
    (small : ∀ k, |((report.pairs.take k).map (worthOf values rows)).sum| ≤ 2 ^ 53) :
    report.cost.isFinite ∧
      Binary64.value report.cost = ∑ cell ∈ report.pairs.toFinset, worthOf values rows cell := by
  have wholeCells (cell : Nat × Nat) (member : cell ∈ report.pairs) :
      (values.getD (cell.1 + rows * cell.2) 0).isFinite ∧
        ∃ n : ℤ, worthOf values rows cell = n := by
    obtain ⟨insideRow, insideColumn, finite⟩ := cells cell member
    have member := cell_member values rows cols cell.1 cell.2 size insideRow insideColumn
    exact ⟨finite, whole _ member finite⟩
  have total := total_exact values rows report.pairs wholeCells 0 Binary64.finite_zero 0
    Binary64.value_zero (by simpa using small)
  rw [pairs_total values rows report.pairs nodup, cost]
  simpa using total

theorem some_cell (rows cols : Nat) (values : Array Float) (size : values.size = rows * cols)
    (cells : ¬ (rows = 0 ∨ cols = 0)) : values.getD 0 0 ∈ values := by
  have inside := cell_member values rows cols 0 0 size (by omega) (by omega)
  simpa using inside

/-- With exact arithmetic a table of finite values is solved by as many pairs as its shorter side
has lines, and no other such pairs have a better total. -/
theorem optimal_assignment_best (w : Width) (mem : Memory) (options : Options) (rows cols : Nat)
    (values : Array Float) (room : mem.Suffices w rows cols) (rowsFit : rows < w.max)
    (colsFit : cols < w.max) (size : values.size = rows * cols) (finite : ∀ v ∈ values, v.isFinite)
    (whole : Whole values) (exact : StaysExact options rows cols values)
    (counted : StaysCounted options rows cols values) :
    ∃ report : Assignment w, optimalAssignment mem options rows cols values = .ok report ∧
      report.pairs.Nodup ∧ Matching rows cols report.pairs.toFinset ∧
      report.pairs.length = min rows cols ∧
      (∀ other, Matching rows cols other → other.card = min rows cols →
        if options.maximize then
          ∑ cell ∈ other, worthOf values rows cell ≤
            ∑ cell ∈ report.pairs.toFinset, worthOf values rows cell
        else
          ∑ cell ∈ report.pairs.toFinset, worthOf values rows cell ≤
            ∑ cell ∈ other, worthOf values rows cell) ∧
      ((∀ k, |((report.pairs.take k).map (worthOf values rows)).sum| ≤ 2 ^ 53) →
        report.cost.isFinite ∧
          Binary64.value report.cost =
            ∑ cell ∈ report.pairs.toFinset, worthOf values rows cell) := by
  by_cases none : rows = 0 ∨ cols = 0
  · have short : min rows cols = 0 := by
      rcases none with none | none <;> simp [none]
    have solved :=
      solved_without_cells (w := w) mem options rows cols values room rowsFit colsFit size none
    refine ⟨_, solved, ?_⟩
    rw [Assignment.idle_pairs, short]
    refine ⟨List.nodup_nil, ⟨by simp, by simp, by simp⟩, rfl, fun other _ empty => ?_, fun _ =>
      ⟨Binary64.finite_zero, Binary64.value_zero.trans (by simp)⟩⟩
    rw [Finset.card_eq_zero.mp empty]
    simp
  · have corner := some_cell rows cols values size none
    have priced : values.any Float.isFinite := by
      rw [Array.any_eq_true']
      exact ⟨_, corner, finite _ corner⟩
    obtain ⟨report, stars, solved, matching, full, cheapest, nodup, chosen, cost⟩ :=
      solved_cheapest w mem options rows cols values room rowsFit colsFit size none
        (finite_accepted options rows cols values finite) priced
        (exact_searchable options rows cols values size finite whole exact) counted
    have finiteCell (cell : Nat × Nat) (member : cell ∈ stars) :
        (values.getD (cell.1 + rows * cell.2) 0).isFinite := by
      obtain ⟨insideRow, insideColumn⟩ := matching.inside cell member
      exact finite _ (cell_member values rows cols cell.1 cell.2 size insideRow insideColumn)
    rw [Finset.filter_true_of_mem finiteCell] at chosen
    refine ⟨report, solved, nodup, chosen ▸ matching, ?_, fun other matchingOther fullOther =>
      ?_, cost_exact rows cols values size whole report nodup (fun cell member => ?_) cost⟩
    · rw [← full, ← chosen, List.toFinset_card_of_nodup nodup]
    · have least := cheapest other matchingOther fullOther
      rw [loaded_total options rows cols values size finite whole exact.loading stars matching,
        loaded_total options rows cols values size finite whole exact.loading other matchingOther,
        full, fullOther] at least
      rw [chosen]
      cases maximize : options.maximize with
      | false => simpa [maximize] using least
      | true =>
          simp only [maximize, if_true] at least ⊢
          linarith
    · have starred : cell ∈ stars := chosen ▸ List.mem_toFinset.mpr member
      exact ⟨(matching.inside cell starred).1, (matching.inside cell starred).2,
        finiteCell cell starred⟩

def wide : Array Float := #[7, 5, 1, 4, 9, 2]

theorem wide_naturals (v : Float) (member : v ∈ wide) :
    v.isFinite ∧ ∃ n : ℕ, n ≤ 9 ∧ v = Float.ofNat n := by
  have numbers : wide = ([7, 5, 1, 4, 9, 2].map Float.ofNat).toArray := rfl
  rw [numbers] at member
  obtain ⟨n, known, rfl⟩ := List.mem_map.mp (List.mem_toArray.mp member)
  have below : ∀ n ∈ [7, 5, 1, 4, 9, 2], n ≤ 9 := by decide
  have bound := below n known
  exact ⟨(Binary64.whole_exact n (by omega)).1, n, bound, rfl⟩

theorem optimal_assignment_best_wide :
    ∃ report : Assignment .bits8,
      optimalAssignment ⟨1000⟩ { maximize := true } 2 3 wide = .ok report ∧
      report.pairs.Nodup ∧ Matching 2 3 report.pairs.toFinset ∧ report.pairs.length = 2 ∧
      (∀ other, Matching 2 3 other → other.card = 2 →
        ∑ cell ∈ other, worthOf wide 2 cell ≤ ∑ cell ∈ report.pairs.toFinset, worthOf wide 2 cell) ∧
      report.cost.isFinite ∧
      Binary64.value report.cost = ∑ cell ∈ report.pairs.toFinset, worthOf wide 2 cell := by
  have finite : ∀ v ∈ wide, v.isFinite := fun v member => (wide_naturals v member).1
  obtain ⟨whole, between⟩ := naturals_whole wide 9 (by norm_num) fun v member _ =>
    (wide_naturals v member).2
  have moderate : ∀ v ∈ wide, |Binary64.value v| ≤ 9 := fun v member => by
    have bounds := between v member (finite v member)
    rw [abs_of_nonneg bounds.1]
    exact_mod_cast bounds.2
  have exact := moderate_stays_exact { maximize := true } 2 3 wide rfl finite whole fun v member =>
    (moderate v member).trans (by norm_num)
  have counted := narrow_stays_counted .bits8 (by decide) { maximize := true } 2 3 wide (by decide)
    rfl (exact_searchable { maximize := true } 2 3 wide rfl finite whole exact).toLowerable
  obtain ⟨report, solved, nodup, matching, many, best, reckoned⟩ :=
    optimal_assignment_best .bits8 ⟨1000⟩ { maximize := true } 2 3 wide
      ⟨by decide, by decide, by decide, by decide⟩ (by decide) (by decide) rfl finite
      whole exact counted
  refine ⟨report, solved, nodup, matching, many, best, reckoned fun k => ?_⟩
  have each (cell : Nat × Nat) (member : cell ∈ report.pairs) : |worthOf wide 2 cell| ≤ 9 := by
    obtain ⟨insideRow, insideColumn⟩ := matching.inside cell (List.mem_toFinset.mpr member)
    exact moderate _ (cell_member wide 2 3 cell.1 cell.2 rfl insideRow insideColumn)
  have small := sum_take_bound wide 2 report.pairs 9 each k (by norm_num)
  rw [many] at small
  refine small.trans ?_
  norm_num

end LinearAssignment
