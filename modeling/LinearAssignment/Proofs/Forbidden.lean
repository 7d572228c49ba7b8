import LinearAssignment.Proofs.Optimal
import LinearAssignment.Proofs.Optimality.Outpriced

set_option autoImplicit false

namespace LinearAssignment

def takenAs (options : Options) (values : Array Float) (v : Float) : ℚ :=
  if options.maximize then Binary64.value (Pricing.greatestFinite values) - Binary64.value v
  else Binary64.value v

def dearest (options : Options) (values : Array Float) : ℚ :=
  if options.maximize then
    Binary64.value (Pricing.greatestFinite values) - Binary64.value (Pricing.leastFinite values)
  else
    Binary64.value (Pricing.greatestFinite values)

def priceOf (n cells : ℕ) : ℕ := if 0 < n then 10 * n * cells else 10

theorem dearest_whole (options : Options) (values : Array Float) (whole : Whole values)
    (some : ∃ v ∈ values, v.isFinite)
    (signs : options.maximize = true ∨ ∀ v ∈ values, v.isFinite → 0 ≤ Binary64.value v) :
    ∃ n : ℕ, dearest options values = n ∧
      ∀ v ∈ values, v.isFinite → 0 ≤ takenAs options values v ∧ takenAs options values v ≤ n := by
  obtain ⟨finiteGreatest, memberGreatest, above⟩ := Pricing.greatest_finite values some
  obtain ⟨k, wholeGreatest⟩ := whole _ memberGreatest finiteGreatest
  cases maximize : options.maximize with
  | false =>
      have nonnegative := signs.resolve_left (by simp [maximize])
      have sign := nonnegative _ memberGreatest finiteGreatest
      rw [wholeGreatest] at sign
      obtain ⟨n, rfl⟩ := Int.eq_ofNat_of_zero_le (by exact_mod_cast sign : 0 ≤ k)
      refine ⟨n, by simpa [dearest, maximize] using wholeGreatest, fun v member finite => ?_⟩
      have high := above v member finite
      rw [wholeGreatest] at high
      simp only [takenAs, maximize, Bool.false_eq_true, if_false]
      exact ⟨nonnegative v member finite, by exact_mod_cast high⟩
  | true =>
      obtain ⟨finiteLeast, memberLeast, below⟩ := Pricing.least_finite values some
      obtain ⟨j, wholeLeast⟩ := whole _ memberLeast finiteLeast
      have order := above _ memberLeast finiteLeast
      rw [wholeGreatest, wholeLeast] at order
      obtain ⟨n, spread⟩ :=
        Int.eq_ofNat_of_zero_le (Int.sub_nonneg.mpr (by exact_mod_cast order : j ≤ k))
      have gap : (k : ℚ) - j = n := by exact_mod_cast spread
      refine ⟨n, by rw [dearest, if_pos maximize, wholeGreatest, wholeLeast, gap],
        fun v member finite => ?_⟩
      have high := above v member finite
      have low := below v member finite
      rw [wholeGreatest] at high
      rw [wholeLeast] at low
      simp only [takenAs, maximize, if_true, wholeGreatest]
      constructor <;> linarith

structure Affordable (options : Options) (rows cols : Nat) (values : Array Float) (n : ℕ) :
    Prop where
  size : values.size = rows * cols
  whole : Whole values
  some : ∃ v ∈ values, v.isFinite
  largest : dearest options values = n
  between : ∀ v ∈ values, v.isFinite → 0 ≤ takenAs options values v ∧ takenAs options values v ≤ n
  room : 20 * n * (rows * cols) ≤ 2 ^ 53

theorem affordable_exists (options : Options) (rows cols : Nat) (values : Array Float)
    (size : values.size = rows * cols) (whole : Whole values) (some : ∃ v ∈ values, v.isFinite)
    (signs : options.maximize = true ∨ ∀ v ∈ values, v.isFinite → 0 ≤ Binary64.value v)
    (room : 20 * dearest options values * (rows * cols) ≤ 2 ^ 53) :
    ∃ n, Affordable options rows cols values n := by
  obtain ⟨n, largest, between⟩ := dearest_whole options values whole some signs
  rw [largest] at room
  exact ⟨n, size, whole, some, largest, between, by exact_mod_cast room⟩

namespace Affordable

variable {options : Options} {rows cols : Nat} {values : Array Float} {n : ℕ}

theorem cells (affordable : Affordable options rows cols values n) : 0 < rows * cols := by
  obtain ⟨v, member, _⟩ := affordable.some
  exact affordable.size ▸ Array.size_pos_of_mem member

theorem small (affordable : Affordable options rows cols values n) : n ≤ 2 ^ 53 := by
  have room := affordable.room
  have once : n * 1 ≤ n * (rows * cols) := Nat.mul_le_mul_left n affordable.cells
  rw [Nat.mul_assoc] at room
  omega

theorem price_exact (affordable : Affordable options rows cols values n) :
    (Pricing.price options values).isFinite ∧
      Binary64.value (Pricing.price options values) = priceOf n (rows * cols) := by
  have largest := affordable.largest
  obtain ⟨finiteGreatest, memberGreatest, _⟩ := Pricing.greatest_finite values affordable.some
  have top :
      (if options.maximize then Pricing.greatestFinite values - Pricing.leastFinite values
          else Pricing.greatestFinite values).isFinite ∧
        Binary64.value (if options.maximize then Pricing.greatestFinite values - Pricing.leastFinite
          values else Pricing.greatestFinite values) = n := by
    cases maximize : options.maximize with
    | false => exact ⟨finiteGreatest, by simpa [dearest, maximize] using largest⟩
    | true =>
        obtain ⟨finiteLeast, _, _⟩ := Pricing.least_finite values affordable.some
        have difference := Binary64.difference_exact (Pricing.greatestFinite values)
          (Pricing.leastFinite values) n finiteGreatest finiteLeast
          (by simpa [dearest, maximize] using largest)
          (by rw [abs_of_nonneg (by positivity)]; exact_mod_cast affordable.small)
        exact ⟨difference.1, by simpa using difference.2⟩
  obtain ⟨finite, same⟩ := Pricing.forbidden_exact _ values.size n top.1 top.2
    (affordable.size ▸ affordable.cells) (affordable.size ▸ affordable.room)
  refine ⟨finite, same.trans ?_⟩
  rw [priceOf, affordable.size]

theorem loaded_cell (affordable : Affordable options rows cols values n) (cell : Nat × Nat)
    (insideRow : cell.1 < rows) (insideColumn : cell.2 < cols) :
    ((Board.loaded options rows cols values).costAt cell.1 cell.2).isFinite ∧
      (∃ z : ℤ, (Board.loaded options rows cols values).worthAt cell.1 cell.2 = z) ∧
      (Allowed values rows cell →
        (Board.loaded options rows cols values).worthAt cell.1 cell.2 =
          takenAs options values (values.getD (cell.1 + rows * cell.2) 0)) ∧
      (¬ Allowed values rows cell →
        (Board.loaded options rows cols values).worthAt cell.1 cell.2 =
          priceOf n (rows * cols)) := by
  have member := cell_member values rows cols cell.1 cell.2 affordable.size insideRow insideColumn
  rw [Board.worthAt,
    Board.loaded_cost options rows cols values affordable.size cell.1 cell.2 insideRow insideColumn]
  by_cases allowed : Allowed values rows cell
  · obtain ⟨finite, wholeHere, taken⟩ :=
        Pricing.settled_exact options values affordable.whole _ member allowed fun maximize => by
      have bound := (affordable.between _ member allowed).2
      rw [takenAs, if_pos maximize] at bound
      exact bound.trans (by exact_mod_cast affordable.small)
    exact ⟨finite, wholeHere, fun _ => taken, fun barred => absurd allowed barred⟩
  · obtain ⟨finite, same⟩ := affordable.price_exact
    rw [Pricing.settled_nonfinite options values _ member (Bool.eq_false_iff.mpr allowed)]
    exact ⟨finite, ⟨priceOf n (rows * cols), by simpa using same⟩, fun finiteValue =>
      absurd finiteValue allowed, fun _ => same⟩

theorem allowed_between (affordable : Affordable options rows cols values n) (cell : Nat × Nat)
    (insideRow : cell.1 < rows) (insideColumn : cell.2 < cols)
    (allowed : Allowed values rows cell) :
    0 ≤ (Board.loaded options rows cols values).worthAt cell.1 cell.2 ∧
      (Board.loaded options rows cols values).worthAt cell.1 cell.2 ≤ n := by
  rw [(affordable.loaded_cell cell insideRow insideColumn).2.2.1 allowed]
  exact affordable.between _
    (cell_member values rows cols cell.1 cell.2 affordable.size insideRow insideColumn) allowed

theorem price_outweighs (count cells : ℕ) (few : count ≤ cells) (some : 0 < cells) :
    count * n < priceOf n cells := by
  rw [priceOf]
  split
  · have positive : 0 < n * cells := by positivity
    have paid : count * n ≤ n * cells := by
      rw [Nat.mul_comm]
      exact Nat.mul_le_mul_left n few
    rw [Nat.mul_assoc]
    omega
  · have zero : n = 0 := by omega
    simp [zero]

theorem outpriced (affordable : Affordable options rows cols values n) :
    Outpriced rows cols (Allowed values rows) (Board.loaded options rows cols values).worthAt
      (priceOf n (rows * cols) : ℕ) := by
  refine ⟨fun cell insideRow insideColumn allowed =>
    (affordable.allowed_between cell insideRow insideColumn allowed).1,
      fun cell insideRow insideColumn => (affordable.loaded_cell cell insideRow insideColumn).2.2.2,
      fun cells matching allowed => ?_⟩
  have total :
      ∑ cell ∈ cells, (Board.loaded options rows cols values).worthAt cell.1 cell.2 ≤
        cells.card • (n : ℚ) :=
    Finset.sum_le_card_nsmul _ _ _ fun cell member =>
      (affordable.allowed_between cell (matching.inside cell member).1
        (matching.inside cell member).2 (allowed cell member)).2
  refine total.trans_lt ?_
  rw [nsmul_eq_mul]
  exact_mod_cast price_outweighs cells.card (rows * cols) matching.card_cells affordable.cells

theorem searchable (affordable : Affordable options rows cols values n) :
    (Board.loaded options rows cols values).Searchable := by
  have loaded := affordable.loaded_cell
  have room := affordable.room
  have natural : priceOf n (rows * cols) ≤ 2 ^ 52 := by
    rw [priceOf]
    split
    · rw [Nat.mul_assoc] at room ⊢
      omega
    · norm_num
  have bound : ((priceOf n (rows * cols) : ℕ) : ℚ) ≤ 2 ^ 52 := by exact_mod_cast natural
  refine Stage.spread_searchable _ (Board.loaded_unmarked options rows cols values affordable.size)
    (fun row col insideRow insideColumn => (loaded (row, col) insideRow insideColumn).1)
    (fun row col insideRow insideColumn => (loaded (row, col) insideRow insideColumn).2.1) (2 ^ 52)
    (by norm_num) fun row col r c insideRow insideColumn insideR insideC => ?_
  have high := affordable.outpriced.price_above (row, col) insideRow insideColumn
  have low := affordable.outpriced.nonnegative_all (r, c) insideR insideC
  linarith

theorem allowed_total (affordable : Affordable options rows cols values n)
    (cells : Finset (Nat × Nat)) (matching : Matching rows cols cells)
    (allowed : ∀ cell ∈ cells, Allowed values rows cell) :
    ∑ cell ∈ cells, (Board.loaded options rows cols values).worthAt cell.1 cell.2 =
      if options.maximize then
        cells.card • Binary64.value (Pricing.greatestFinite values) -
          ∑ cell ∈ cells, worthOf values rows cell
      else
        ∑ cell ∈ cells, worthOf values rows cell := by
  refine Board.outlay_total options rows cols values cells fun cell member => ?_
  obtain ⟨insideRow, insideColumn⟩ := matching.inside cell member
  exact (affordable.loaded_cell cell insideRow insideColumn).2.2.1 (allowed cell member)

theorem totals_small (affordable : Affordable options rows cols values n)
    (minimize : options.maximize = false) (cells : List (Nat × Nat))
    (few : cells.length ≤ rows * cols)
    (inside : ∀ cell ∈ cells, cell.1 < rows ∧ cell.2 < cols ∧ Allowed values rows cell) (k : Nat) :
    |((cells.take k).map (worthOf values rows)).sum| ≤ 2 ^ 53 := by
  have each (cell : Nat × Nat) (member : cell ∈ cells) : |worthOf values rows cell| ≤ n := by
    obtain ⟨insideRow, insideColumn, allowed⟩ := inside cell member
    have bound := affordable.between _
      (cell_member values rows cols cell.1 cell.2 affordable.size insideRow insideColumn) allowed
    simp only [takenAs, minimize, Bool.false_eq_true, if_false] at bound
    rw [worthOf, abs_of_nonneg bound.1]
    exact bound.2
  have small := sum_take_bound values rows cells n each k (by positivity)
  refine small.trans ?_
  have room := affordable.room
  have total : cells.length * n ≤ 2 ^ 53 := by
    have paid := Nat.mul_le_mul_right n few
    rw [Nat.mul_assoc, Nat.mul_comm n] at room
    omega
  exact_mod_cast total

end Affordable

theorem allowed_none (rows cols : Nat) (values : Array Float) (size : values.size = rows * cols)
    (unpriced : values.any Float.isFinite = false) (cells : Finset (Nat × Nat))
    (matching : Matching rows cols cells) (allowed : ∀ cell ∈ cells, Allowed values rows cell) :
    cells = ∅ := by
  refine Finset.eq_empty_of_forall_notMem fun cell member => ?_
  obtain ⟨insideRow, insideColumn⟩ := matching.inside cell member
  have finite : values.any Float.isFinite = true :=
    Array.any_eq_true'.mpr ⟨_, cell_member values rows cols cell.1 cell.2 size insideRow
      insideColumn, allowed cell member⟩
  rw [unpriced] at finite
  exact nomatch finite

/-- With room for the price of barred cells, a table is solved by as many allowed cells apart as
there can be, and no others that many have a better total. -/
theorem forbidden_assignment_best (w : Width) (mem : Memory) (options : Options) (rows cols : Nat)
    (values : Array Float) (room : mem.Suffices w rows cols) (rowsFit : rows < w.max)
    (colsFit : cols < w.max) (size : values.size = rows * cols)
    (forbids : options.forbidNonFinite = true) (whole : Whole values)
    (signs : options.maximize = true ∨ ∀ v ∈ values, v.isFinite → 0 ≤ Binary64.value v)
    (affordable : 20 * dearest options values * (rows * cols) ≤ 2 ^ 53)
    (counted : values.any Float.isFinite → StaysCounted options rows cols values) :
    ∃ report : Assignment w, optimalAssignment mem options rows cols values = .ok report ∧
      report.pairs.Nodup ∧ Matching rows cols report.pairs.toFinset ∧
      (∀ cell ∈ report.pairs, Allowed values rows cell) ∧
      (∀ other, Matching rows cols other → (∀ cell ∈ other, Allowed values rows cell) →
        other.card ≤ report.pairs.length ∧
          (other.card = report.pairs.length →
            if options.maximize then
              ∑ cell ∈ other, worthOf values rows cell ≤
                ∑ cell ∈ report.pairs.toFinset, worthOf values rows cell
            else
              ∑ cell ∈ report.pairs.toFinset, worthOf values rows cell ≤
                ∑ cell ∈ other, worthOf values rows cell)) ∧
      ((options.maximize = true →
          ∀ k, |((report.pairs.take k).map (worthOf values rows)).sum| ≤ 2 ^ 53) →
        report.cost.isFinite ∧
          Binary64.value report.cost = ∑ cell ∈ report.pairs.toFinset, worthOf values rows cell) ∧
      (values.any Float.isFinite = false → report.pairs = [] ∧ report.cost = 0) := by
  cases priced : values.any Float.isFinite with
  | false =>
      refine ⟨_, solved_without_finite mem options rows cols values room rowsFit colsFit size
        forbids priced, ?_⟩
      rw [Assignment.idle_pairs]
      refine ⟨List.nodup_nil, Matching.empty, by simp, fun other matching allowed => ?_,
        fun _ => ⟨Binary64.finite_zero, Binary64.value_zero.trans (by simp)⟩, fun _ => ⟨rfl, rfl⟩⟩
      rw [allowed_none rows cols values size priced other matching allowed]
      simp
  | true =>
      have some : ∃ v ∈ values, v.isFinite := Array.any_eq_true'.mp priced
      obtain ⟨n, outlay⟩ :=
        affordable_exists options rows cols values size whole some signs affordable
      have cells : ¬ (rows = 0 ∨ cols = 0) := by
        have positive := outlay.cells
        rintro (none | none) <;> simp [none] at positive
      have accepted : Board.objection? options values (.ready rows cols) = none := by
        simp [Board.objection?, forbids]
      obtain ⟨report, stars, solved, matching, full, cheapest, nodup, chosen, cost⟩ :=
        solved_cheapest w mem options rows cols values room rowsFit colsFit size cells accepted
          priced outlay.searchable (counted priced)
      replace chosen : report.pairs.toFinset = stars.filter (Allowed values rows) := chosen
      have kept (cell : Nat × Nat) (member : cell ∈ report.pairs) :
          cell ∈ stars ∧ Allowed values rows cell :=
        Finset.mem_filter.mp (chosen ▸ List.mem_toFinset.mpr member)
      have inside (cell : Nat × Nat) (member : cell ∈ report.pairs) :
          cell.1 < rows ∧ cell.2 < cols ∧ Allowed values rows cell :=
        ⟨(matching.inside cell (kept cell member).1).1,
          (matching.inside cell (kept cell member).1).2, (kept cell member).2⟩
      have part : Matching rows cols report.pairs.toFinset :=
        matching.part _ (chosen ▸ Finset.filter_subset _ _)
      have many : report.pairs.toFinset.card = report.pairs.length :=
        List.toFinset_card_of_nodup nodup
      refine ⟨report, solved, nodup, part, fun cell member => (kept cell member).2,
        fun other matchingOther allowed => ?_, fun small => ?_, fun unpriced =>
          Bool.noConfusion unpriced⟩
      · obtain ⟨fewer, best⟩ := outlay.outpriced.most_then_cheapest stars matching full cheapest
          other matchingOther allowed
        rw [← chosen, many] at fewer best
        refine ⟨fewer, fun same => ?_⟩
        have order := best same
        rw [outlay.allowed_total _ part fun cell member =>
          (kept cell (List.mem_toFinset.mp member)).2,
            outlay.allowed_total other matchingOther allowed, many, same] at order
        cases maximize : options.maximize with
        | false => simpa [maximize] using order
        | true =>
            simp only [maximize, if_true] at order ⊢
            linarith
      · refine cost_exact rows cols values size whole report nodup inside cost ?_
        cases maximize : options.maximize with
        | true => exact small maximize
        | false => exact outlay.totals_small maximize report.pairs (many ▸ part.card_cells) inside

def checkered : Array Float := #[1, Binary64.infinity, 2, -Binary64.infinity, 0 / 0, 4]

theorem checkered_naturals (v : Float) (member : v ∈ checkered) (finite : v.isFinite) :
    ∃ n : ℕ, n ≤ 4 ∧ v = Float.ofNat n := by
  simp only [checkered, List.mem_toArray, List.mem_cons, List.not_mem_nil, or_false] at member
  rcases member with rfl | rfl | rfl | rfl | rfl | rfl
  · exact ⟨1, by decide, rfl⟩
  · exact nomatch finite
  · exact ⟨2, by decide, rfl⟩
  · exact nomatch finite
  · exact nomatch finite
  · exact ⟨4, by decide, rfl⟩

theorem forbidden_assignment_best_checkered :
    ∃ report : Assignment .bits8,
      optimalAssignment ⟨1000⟩ { forbidNonFinite := true } 2 3 checkered = .ok report ∧
      report.pairs.Nodup ∧ Matching 2 3 report.pairs.toFinset ∧
      (∀ cell ∈ report.pairs, Allowed checkered 2 cell) ∧
      (∀ other, Matching 2 3 other → (∀ cell ∈ other, Allowed checkered 2 cell) →
        other.card ≤ report.pairs.length ∧
          (other.card = report.pairs.length →
            ∑ cell ∈ report.pairs.toFinset, worthOf checkered 2 cell ≤
              ∑ cell ∈ other, worthOf checkered 2 cell)) ∧
      report.cost.isFinite ∧
      Binary64.value report.cost = ∑ cell ∈ report.pairs.toFinset, worthOf checkered 2 cell := by
  obtain ⟨whole, between⟩ := naturals_whole checkered 4 (by norm_num) checkered_naturals
  have signs :
      ({ forbidNonFinite := true } : Options).maximize = true ∨
        ∀ v ∈ checkered, v.isFinite → 0 ≤ Binary64.value v :=
    .inr fun v member finite => (between v member finite).1
  have some : ∃ v ∈ checkered, v.isFinite := ⟨1, by simp [checkered], rfl⟩
  have cheap :
      20 * dearest { forbidNonFinite := true } checkered * ((2 : ℕ) * (3 : ℕ)) ≤ 2 ^ 53 := by
    obtain ⟨finite, member, _⟩ := Pricing.greatest_finite checkered some
    have high := (between _ member finite).2
    simp only [dearest, Bool.false_eq_true, if_false]
    norm_num at high ⊢
    linarith
  obtain ⟨n, outlay⟩ :=
    affordable_exists { forbidNonFinite := true } 2 3 checkered rfl whole some signs cheap
  have counted := narrow_stays_counted .bits8 (by decide) { forbidNonFinite := true } 2 3 checkered
    (by decide) rfl outlay.searchable.toLowerable
  obtain ⟨report, solved, nodup, matching, allowed, best, reckoned, _⟩ :=
    forbidden_assignment_best .bits8 ⟨1000⟩ { forbidNonFinite := true } 2 3 checkered
      ⟨by decide, by decide, by decide, by decide⟩ (by decide) (by decide) rfl rfl whole signs
      cheap fun _ => counted
  exact ⟨report, solved, nodup, matching, allowed, best, reckoned fun maximize => nomatch maximize⟩

end LinearAssignment
