import LinearAssignment.Proofs.Forbidden
import LinearAssignment.Proofs.Optimality.Drift
import LinearAssignment.Proofs.Overflow

/-! Forbidden pairs as a last resort, however costs are rounded: a price that lies far enough above
what allowed cells cost is not paid more often than it has to be. -/

set_option autoImplicit false

namespace LinearAssignment

namespace Pricing

open Binary64

theorem forbidden_product (greatest : Float) (cells : ℕ) (positive : 0 < greatest)
    (low : forbidden greatest cells < sixteenthOfLargest) :
    forbidden greatest cells = 10 * greatest * Float.ofNat cells := by
  rw [forbidden, if_pos positive] at low ⊢
  by_cases below : 10 * greatest * Float.ofNat cells < sixteenthOfLargest
  · simp only [below, if_true]
  · simp only [below, if_false] at low
    exact absurd low (less_irrefl _)

theorem forbidden_capped (greatest : Float) (cells : ℕ) :
    forbidden greatest cells < sixteenthOfLargest ∨
      forbidden greatest cells = sixteenthOfLargest := by
  by_cases positive : 0 < greatest
  · rw [forbidden, if_pos positive]
    by_cases below : 10 * greatest * Float.ofNat cells < sixteenthOfLargest
    · simp only [below, if_true]
      exact Or.inl trivial
    · simp only [below, if_false]
      exact Or.inr trivial
  · rw [forbidden, if_neg positive]
    exact Or.inl (by decide +kernel)

theorem factors_below (greatest : Float) (cells : ℕ) (some : 0 < cells) (positive : 0 < greatest)
    (low : 10 * greatest * Float.ofNat cells < sixteenthOfLargest) :
    greatest < sixteenthOfLargest ∧ 0 < 10 * greatest ∧ 10 * greatest < sixteenthOfLargest := by
  obtain ⟨tenPositive, tenLarge⟩ := ten_large
  obtain ⟨cellsPositive, cellsLarge⟩ := natural_large cells some
  have tens := product_positive 10 greatest tenPositive positive (Or.inl tenLarge)
  have ceilingNumber := finite_number _ ceiling_high.1
  obtain ⟨numberPrice, _, aboveTens⟩ := product_large _ _ tens cellsPositive
  obtain ⟨numberTens, aboveGreatest, _⟩ := product_large _ _ tenPositive positive
  obtain ⟨numberGreatest, _⟩ := positive_height greatest positive
  rw [less_iff _ _ numberPrice ceilingNumber] at low
  have lowTens := lt_of_le_of_lt (aboveTens cellsLarge) low
  exact ⟨(less_iff _ _ numberGreatest ceilingNumber).mpr
    (lt_of_le_of_lt (aboveGreatest tenLarge) lowTens), tens,
    (less_iff _ _ numberTens ceilingNumber).mpr lowTens⟩

theorem few_below (cells : ℕ) (few : cells ≤ 2 ^ 64) :
    (cells : ℚ) ≤ 4 * value sixteenthOfLargest := by
  have power : (2 : ℚ) ^ (11 : ℤ) ≤ 2 ^ (967 : ℤ) := zpow_le_zpow_right₀ (by norm_num) (by norm_num)
  have fewHere : (cells : ℚ) ≤ 2 ^ 64 := by exact_mod_cast few
  rw [ceiling_value]
  generalize (967 : ℤ) = e at power
  linarith

theorem forbidden_above (greatest : Float) (cells : ℕ) (some : 0 < cells) (few : cells ≤ 2 ^ 64)
    (positive : 0 < greatest) (low : forbidden greatest cells < sixteenthOfLargest) :
    greatest.isFinite ∧ greatest < sixteenthOfLargest ∧
      9 * value greatest * cells ≤ value (forbidden greatest cells) := by
  have product := forbidden_product greatest cells positive low
  rw [product] at low ⊢
  obtain ⟨lowGreatest, tens, lowTens⟩ := factors_below greatest cells some positive low
  have finite := bounded_finite greatest _ ceiling_high.1 positive lowGreatest
  have finiteTens := bounded_finite _ _ ceiling_high.1 tens lowTens
  refine ⟨finite, lowGreatest, ?_⟩
  obtain ⟨finiteCells, nearCells, wholeCells⟩ := natural_near cells (few_below cells few)
  have sign := (positive_iff greatest finite).mp positive
  have signCells := (positive_iff _ finiteCells).mp (natural_large cells some).1
  have signTens := (positive_iff _ finiteTens).mp tens
  have boundTens :=
    follows_less _ _ _ (product_follows 10 greatest ten_exact.1 finite) ceiling_high.1 lowTens
  have boundPrice :=
    follows_less _ _ _ (product_follows _ _ finiteTens finiteCells) ceiling_high.1 low
  rw [ten_exact.2] at boundTens
  have belowTens : |value 10 * value greatest| ≤ 4 * value sixteenthOfLargest := by
    rw [ten_exact.2, abs_of_nonneg (by positivity)]
    linarith [ceiling_positive]
  have belowPrice :
      |value (10 * greatest) * value (Float.ofNat cells)| ≤ 4 * value sixteenthOfLargest := by
    rw [abs_of_nonneg (by positivity)]
    linarith [mul_pos signTens signCells]
  obtain ⟨_, nearTens⟩ :=
    product_near 10 greatest ten_exact.1 finite (Or.inl ⟨10, by rw [ten_exact.2]; rfl⟩) belowTens
  obtain ⟨_, nearPrice⟩ :=
    product_near _ _ finiteTens finiteCells (Or.inr wholeCells) belowPrice
  rw [abs_of_nonneg (by positivity : 0 ≤ value (10 * greatest) * value (Float.ofNat cells))]
    at nearPrice
  rw [ten_exact.2, abs_of_nonneg (by positivity : (0 : ℚ) ≤ (10 : ℕ) * value greatest)] at nearTens
  have lowerTens : (1 - spacing) * (10 * value greatest) ≤ value (10 * greatest) := by
    have below := (abs_le.mp nearTens).1
    push_cast at below
    linarith
  have lowerCells : (1 - spacing) * cells ≤ value (Float.ofNat cells) := by
    linarith [(abs_le.mp nearCells).1]
  have lowerPrice := (abs_le.mp nearPrice).1
  have factors :=
    mul_le_mul lowerTens lowerCells (mul_nonneg (by norm_num [spacing]) (by positivity)) signTens.le
  have outlay : 0 ≤ value greatest * cells := by positivity
  calc 9 * value greatest * cells
      ≤ (1 - spacing) * ((1 - spacing) * (10 * value greatest) * ((1 - spacing) * cells)) := by
        rw [spacing]
        linarith
    _ ≤ (1 - spacing) * (value (10 * greatest) * value (Float.ofNat cells)) :=
      mul_le_mul_of_nonneg_left factors (by norm_num [spacing])
    _ ≤ value (10 * greatest * Float.ofNat cells) := by linarith

theorem forbidden_outweighs (greatest : Float) (cells : ℕ) (some : 0 < cells) (few : cells ≤ 2 ^ 64)
    (low : forbidden greatest cells < sixteenthOfLargest) (cost : ℚ)
    (small : 0 < greatest → 9 * cost ≤ 10 * value greatest) (none : ¬ 0 < greatest → cost ≤ 0) :
    8 * cost * cells ≤ value (forbidden greatest cells) := by
  have many : (0 : ℚ) < cells := by exact_mod_cast some
  by_cases positive : 0 < greatest
  · obtain ⟨finite, _, above⟩ := forbidden_above greatest cells some few positive low
    have outlay := mul_le_mul_of_nonneg_right (small positive) many.le
    have sign := mul_pos ((positive_iff greatest finite).mp positive) many
    linarith
  · have outlay := mul_le_mul_of_nonneg_right (none positive) many.le
    have price := (forbidden_finite greatest cells some).2
    linarith

theorem settled_finite (options : Options) (values : Array Float)
    (barred : ∃ u ∈ values, u.isFinite = false) (v : Float) (member : v ∈ values) :
    (settledCost options values v).isFinite := by
  obtain ⟨u, memberToo, infinite⟩ := barred
  have some : values.all Float.isFinite = false :=
    Array.all_eq_false'.mpr ⟨u, memberToo, by simp [infinite]⟩
  have either (taken : Float) :
      (if false || taken.isFinite then taken else price options values).isFinite := by
    cases finite : taken.isFinite with
    | true => exact finite
    | false => exact (price_positive options values (Array.size_pos_of_mem member)).1
  rw [settledCost, some]
  exact either _

theorem flipped_cheap (greatest least v : Float) (finiteGreatest : greatest.isFinite)
    (finiteLeast : least.isFinite) (finite : v.isFinite) (below : value least ≤ value v)
    (above : value v ≤ value greatest)
    (low : 0 < greatest - least → greatest - least < sixteenthOfLargest) :
    (greatest - v).isFinite ∧
      (0 < greatest - least → 9 * value (greatest - v) ≤ 10 * value (greatest - least)) ∧
      (¬ 0 < greatest - least → value (greatest - v) ≤ 0) := by
  have ceiling := ceiling_positive
  by_cases positive : 0 < greatest - least
  · have spread := follows_less _ _ _ (difference_follows greatest least finiteGreatest finiteLeast)
      ceiling_high.1 (low positive)
    obtain ⟨_, near⟩ := difference_near greatest least finiteGreatest finiteLeast
      (by rw [abs_of_nonneg (by linarith)]; linarith)
    obtain ⟨finiteFlipped, nearToo⟩ := difference_near greatest v finiteGreatest finite
      (by rw [abs_of_nonneg (by linarith)]; linarith)
    rw [abs_of_nonneg (by linarith : 0 ≤ value greatest - value least)] at near
    rw [abs_of_nonneg (by linarith : 0 ≤ value greatest - value v)] at nearToo
    refine ⟨finiteFlipped, fun _ => ?_, fun none => absurd positive none⟩
    have lower := (abs_le.mp near).1
    have upper := (abs_le.mp nearToo).2
    rw [spacing] at lower upper
    linarith
  · have level : value greatest ≤ value least := not_lt.mp fun less =>
      positive (difference_positive greatest least finiteGreatest finiteLeast less)
    have same : value greatest - value v = 0 := by linarith
    obtain ⟨finiteFlipped, exactly⟩ := difference_exact greatest v 0 finiteGreatest finite
      (by rw [same, Int.cast_zero]) (by norm_num)
    exact ⟨finiteFlipped, fun some => absurd some positive, fun _ => by rw [exactly, Int.cast_zero]⟩

theorem settled_cheap (options : Options) (values : Array Float) (few : values.size ≤ 2 ^ 64)
    (low : price options values < sixteenthOfLargest) (v : Float) (member : v ∈ values)
    (finite : v.isFinite) :
    8 * value (settledCost options values v) * values.size ≤ value (price options values) := by
  have some : 0 < values.size := Array.size_pos_of_mem member
  obtain ⟨finiteGreatest, _, greatest⟩ := greatest_finite values ⟨v, member, finite⟩
  have above := greatest v member finite
  cases sense : options.maximize with
  | false =>
      have same : price options values = forbidden (greatestFinite values) values.size := by
        simp [price, sense]
      rw [same] at low ⊢
      rw [settled_taken options values v finite sense]
      have positive := positive_iff (greatestFinite values) finiteGreatest
      refine forbidden_outweighs _ _ some few low _ (fun costs => ?_) (fun none => ?_)
      · have sign := positive.mp costs
        linarith
      · exact above.trans (not_lt.mp fun sign => none (positive.mpr sign))
  | true =>
      obtain ⟨finiteLeast, _, least⟩ := least_finite values ⟨v, member, finite⟩
      have same :
          price options values =
            forbidden (greatestFinite values - leastFinite values) values.size := by
        simp [price, sense]
      rw [same] at low ⊢
      obtain ⟨finiteFlipped, small, none⟩ :=
        flipped_cheap (greatestFinite values) (leastFinite values) v finiteGreatest finiteLeast
          finite (least v member finite) above fun positive =>
            (forbidden_above _ _ some few positive low).2.1
      rw [settled_flipped options values v finite sense finiteFlipped]
      exact forbidden_outweighs _ _ some few low _ small none

end Pricing

-- The price lies more than five times as far above the least cost as any allowed cells apart do
-- together, and within the range that shifts leave room for.
structure Outranks (options : Options) (rows cols : Nat) (values : Array Float) (least : ℚ) :
    Prop where
  lowest : ∀ v ∈ values, v.isFinite → least ≤ Binary64.value (Pricing.settledCost options values v)
  ceiling : Binary64.value (Pricing.price options values) - least ≤
    Binary64.value Binary64.sixteenthOfLargest
  outweighs : ∀ cells, Matching rows cols cells → (∀ cell ∈ cells, Allowed values rows cell) →
    5 * ∑ cell ∈ cells, ((Board.loaded options rows cols values).worthAt cell.1 cell.2 - least) <
      Binary64.value (Pricing.price options values) - least

namespace Outranks

variable {options : Options} {rows cols : Nat} {values : Array Float} {least : ℚ}

theorem lowest_allowed (outranks : Outranks options rows cols values least)
    (size : values.size = rows * cols) (cell : Nat × Nat) (insideRow : cell.1 < rows)
    (insideColumn : cell.2 < cols) (allowed : Allowed values rows cell) :
    0 ≤ (Board.loaded options rows cols values).worthAt cell.1 cell.2 - least := by
  have lowest :=
    outranks.lowest _ (cell_member values rows cols cell.1 cell.2 size insideRow insideColumn)
      allowed
  rw [Board.worthAt,
    Board.loaded_cost options rows cols values size cell.1 cell.2 insideRow insideColumn]
  linarith

theorem outpriced (outranks : Outranks options rows cols values least)
    (size : values.size = rows * cols) :
    Outpriced rows cols (Allowed values rows)
      (fun row col => (Board.loaded options rows cols values).worthAt row col - least)
      (Binary64.value (Pricing.price options values) - least) where
  nonnegative := outranks.lowest_allowed size
  barred := by
    intro cell insideRow insideColumn barred
    have infinite : (values.getD (cell.1 + rows * cell.2) 0).isFinite = false := by
      simpa [Allowed] using barred
    rw [Board.worthAt,
      Board.loaded_cost options rows cols values size cell.1 cell.2 insideRow insideColumn,
      Pricing.settled_nonfinite options values _
      (cell_member values rows cols cell.1 cell.2 size insideRow insideColumn) infinite]
  outweighs := by
    intro cells matching allowed
    have sign :
        0 ≤
          ∑ cell ∈ cells, ((Board.loaded options rows cols values).worthAt cell.1 cell.2 - least) :=
      Finset.sum_nonneg fun cell member => outranks.lowest_allowed size cell
        (matching.inside cell member).1 (matching.inside cell member).2 (allowed cell member)
    linarith [outranks.outweighs cells matching allowed]

theorem lowered_below (outranks : Outranks options rows cols values least)
    (size : values.size = rows * cols)
    (finite : ∀ row col, row < rows → col < cols →
      ((Board.loaded options rows cols values).costAt row col).isFinite)
    (row col : Nat) (insideRow : row < rows) (insideColumn : col < cols) :
    (Board.loaded options rows cols values).worthAt row col -
        Binary64.value ((Board.loaded options rows cols values).leastOfLine
          ((Board.loaded options rows cols values).line row col)) ≤
      Binary64.value (Pricing.price options values) - least := by
  have unmarked := Board.loaded_unmarked options rows cols values size
  obtain ⟨⟨r, c, insideR, insideC, _, attained⟩, _⟩ :=
    Board.line_least_attained _ unmarked.sized finite row col insideRow insideColumn
  have high := (outranks.outpriced size).price_above (row, col) insideRow insideColumn
  have low := (outranks.outpriced size).nonnegative_all (r, c) insideR insideC
  simp only [Board.worthAt] at high low ⊢
  rw [← attained]
  linarith

end Outranks

theorem allowed_outlay (options : Options) (rows cols : Nat) (values : Array Float)
    (size : values.size = rows * cols) (few : rows * cols ≤ 2 ^ 64) (some : 0 < values.size)
    (low : Pricing.price options values < Binary64.sixteenthOfLargest) (cells : Finset (Nat × Nat))
    (matching : Matching rows cols cells) (allowed : ∀ cell ∈ cells, Allowed values rows cell) :
    8 * ∑ cell ∈ cells, (Board.loaded options rows cols values).worthAt cell.1 cell.2 ≤
      Binary64.value (Pricing.price options values) := by
  obtain ⟨_, price⟩ := Pricing.price_positive options values some
  have count : (0 : ℚ) < (rows * cols : ℕ) := by exact_mod_cast size ▸ some
  have each (cell : Nat × Nat) (chosen : cell ∈ cells) :
      8 * (Board.loaded options rows cols values).worthAt cell.1 cell.2 * (rows * cols : ℕ) ≤
        Binary64.value (Pricing.price options values) := by
    obtain ⟨insideRow, insideColumn⟩ := matching.inside cell chosen
    rw [Board.worthAt,
      Board.loaded_cost options rows cols values size cell.1 cell.2 insideRow insideColumn, ← size]
    exact Pricing.settled_cheap options values (size ▸ few) low _
      (cell_member values rows cols cell.1 cell.2 size insideRow insideColumn) (allowed cell chosen)
  have fewer : (cells.card : ℚ) ≤ (rows * cols : ℕ) := by exact_mod_cast matching.card_cells
  have total :
      8 * (∑ cell ∈ cells, (Board.loaded options rows cols values).worthAt cell.1 cell.2) *
        (rows * cols : ℕ) ≤ cells.card * Binary64.value (Pricing.price options values) := by
    rw [Finset.mul_sum, Finset.sum_mul, ← nsmul_eq_mul]
    exact Finset.sum_le_card_nsmul _ _ _ each
  have most := total.trans (mul_le_mul_of_nonneg_right fewer price.le)
  rw [mul_comm ((rows * cols : ℕ) : ℚ)] at most
  exact le_of_mul_le_mul_right most count

theorem sheltered_outranks (options : Options) (rows cols : Nat) (values : Array Float)
    (size : values.size = rows * cols) (few : rows * cols ≤ 2 ^ 64)
    (some : ∃ v ∈ values, v.isFinite) (sheltered : Pricing.Sheltered options values)
    (low : Pricing.price options values < Binary64.sixteenthOfLargest) :
    Outranks options rows cols values 0 := by
  obtain ⟨v, member, _⟩ := some
  have positive : 0 < values.size := Array.size_pos_of_mem member
  obtain ⟨finite, price⟩ := Pricing.price_positive options values positive
  refine ⟨fun v member finite =>
    (Pricing.settled_sheltered options values ⟨v, member, finite⟩ sheltered v member).2,
      ?ceiling, ?outweighs⟩
  case ceiling =>
    rw [sub_zero]
    exact ((Binary64.less_finite_iff _ _ finite Pricing.ceiling_high.1).mp low).le
  case outweighs =>
    intro cells matching allowed
    have outlay :=
      allowed_outlay options rows cols values size few positive low cells matching allowed
    simp only [sub_zero]
    linarith

/-- However costs are rounded, a table is solved by as many allowed cells apart as there can be, if
its price lies below the ceiling and no cost is negative or the greatest total is sought; and for
any other costs that the price outranks. -/
theorem forbidden_last_resort (w : Width) (mem : Memory) (options : Options) (rows cols : Nat)
    (values : Array Float) (room : mem.Suffices w rows cols) (rowsFit : rows < w.max)
    (colsFit : cols < w.max) (size : values.size = rows * cols)
    (forbids : options.forbidNonFinite = true) (some : ∃ v ∈ values, v.isFinite)
    (barred : ∃ v ∈ values, v.isFinite = false)
    (priced : (options.maximize = true ∨ ∀ v ∈ values, v.isFinite → 0 ≤ Binary64.value v) ∧
      Pricing.price options values < Binary64.sixteenthOfLargest ∨
      ∃ least, Outranks options rows cols values least)
    (counters : min rows cols * (min rows cols + 1) / 2 < 2 ^ 32) :
    ∃ report : Assignment w, optimalAssignment mem options rows cols values = .ok report ∧
      report.pairs.Nodup ∧ Matching rows cols report.pairs.toFinset ∧
      (∀ cell ∈ report.pairs, Allowed values rows cell) ∧
      ∀ other, Matching rows cols other → (∀ cell ∈ other, Allowed values rows cell) →
        other.card ≤ report.pairs.length := by
  have few : rows * cols ≤ 2 ^ 64 := by
    have addressed := room.table.1
    rw [Memory.largestBuffer, UInt64.size] at addressed
    omega
  obtain ⟨least, outranks⟩ : ∃ least, Outranks options rows cols values least := by
    refine priced.elim
      (fun low => ⟨0, sheltered_outranks options rows cols values size few some ?_ low.2⟩) id
    cases sense : options.maximize with
    | true => simpa [Pricing.Sheltered, sense] using barred
    | false => simpa [Pricing.Sheltered, sense] using low.1
  obtain ⟨v, member, finite⟩ := some
  have cells : ¬ (rows = 0 ∨ cols = 0) := by
    have positive := Array.size_pos_of_mem member
    rw [size] at positive
    rintro (none | none) <;> simp [none] at positive
  have accepted : Board.objection? options values (.ready rows cols) = none := by
    simp [Board.objection?, forbids]
  have finiteCells (row col : Nat) (insideRow : row < rows) (insideColumn : col < cols) :
      ((Board.loaded options rows cols values).costAt row col).isFinite := by
    rw [Board.loaded_cost options rows cols values size row col insideRow insideColumn]
    exact Pricing.settled_finite options values barred _
      (cell_member values rows cols row col size insideRow insideColumn)
  have outpriced := outranks.outpriced size
  obtain ⟨start, last, tally, reduce, run, sound, lastRows, lastCols, near⟩ :=
    Stage.search_near _ outranks.ceiling outpriced.price_sign.le
      (Board.loaded options rows cols values) (Board.loaded_unmarked options rows cols values size)
      finiteCells (outranks.lowered_below size finiteCells) counters
  obtain ⟨report, solved, matching, full, nodup, chosen, _⟩ :=
    solved_by_stars w mem options rows cols values room rowsFit colsFit size cells accepted
      (Array.any_eq_true'.mpr ⟨v, member, finite⟩) start last tally reduce run
      sound lastRows lastCols
  replace chosen : report.pairs.toFinset = last.starCells.filter (Allowed values rows) := chosen
  have many : report.pairs.toFinset.card = report.pairs.length := List.toFinset_card_of_nodup nodup
  refine ⟨report, solved, nodup, matching.part _ (chosen ▸ Finset.filter_subset _ _),
    fun cell memberCell => (Finset.mem_filter.mp (chosen ▸ List.mem_toFinset.mpr memberCell)).2,
    fun other apart allowed => ?_⟩
  rw [← many, chosen]
  refine outpriced.most_if_near (4 / 5 * (Binary64.value (Pricing.price options values) - least))
    (fun set setApart setAllowed => ?_) last.starCells matching full
    (fun whole wholeApart wholeFull => ?_) other apart allowed
  · linarith [outranks.outweighs set setApart setAllowed]
  · -- Full sets are as large as each other, so that it does not matter where costs are seen from.
    have total := near whole wholeApart wholeFull
    simp only [Finset.sum_sub_distrib, Finset.sum_const, full, wholeFull]
    linarith

def uneven : Array Float := #[1e300, 0.5, Binary64.infinity, 7]

theorem uneven_nonnegative (v : Float) (member : v ∈ uneven) (finite : v.isFinite) :
    0 ≤ Binary64.value v := by
  simp only [uneven, List.mem_toArray, List.mem_cons, List.not_mem_nil, or_false] at member
  rcases member with rfl | rfl | rfl | rfl
  · exact ((Binary64.positive_iff _ finite).mp (by decide +kernel)).le
  · exact ((Binary64.positive_iff _ finite).mp (by decide +kernel)).le
  · exact nomatch finite
  · exact ((Binary64.positive_iff _ finite).mp (by decide +kernel)).le

theorem forbidden_last_resort_uneven :
    ∃ report : Assignment .bits8, optimalAssignment ⟨1000⟩ {} 2 2 uneven = .ok report ∧
      report.pairs.Nodup ∧ Matching 2 2 report.pairs.toFinset ∧
      (∀ cell ∈ report.pairs, Allowed uneven 2 cell) ∧
      ∀ other, Matching 2 2 other → (∀ cell ∈ other, Allowed uneven 2 cell) →
        other.card ≤ report.pairs.length :=
  forbidden_last_resort .bits8 ⟨1000⟩ {} 2 2 uneven ⟨by decide, by decide, by decide, by decide⟩
    (by decide) (by decide) rfl rfl ⟨7, by simp [uneven], rfl⟩
    ⟨Binary64.infinity, by simp [uneven], rfl⟩
    (Or.inl ⟨Or.inr uneven_nonnegative, by decide +kernel⟩) (by decide)

-- Where no cost is positive the price is ten, which the cost of -100 makes good: the second row is
-- left free, although the two costs of -1 are apart.
theorem negative_cost_outbids :
    (Matching 2 2 {(0, 1), (1, 0)} ∧
        ∀ cell ∈ ({(0, 1), (1, 0)} : Finset (Nat × Nat)),
          Allowed #[-100, -1, -1, Binary64.infinity] 2 cell) ∧
      ∃ report : Assignment .bits8,
        optimalAssignment ⟨1000⟩ {} 2 2 #[-100, -1, -1, Binary64.infinity] = .ok report ∧
          report.pairs.length < ({(0, 1), (1, 0)} : Finset (Nat × Nat)).card := by
  refine ⟨⟨⟨by decide, by decide, by decide⟩, by decide +kernel⟩, ?_⟩
  have solved :
      (match (optimalAssignment ⟨1000⟩ {} 2 2 #[-100, -1, -1, Binary64.infinity] :
      Except (Halt Unit) (Assignment .bits8)) with
    | .ok report => report.pairs.length
    | .error _ => 2) = 1 := by decide +kernel
  split at solved
  · exact ⟨_, by assumption, by rw [solved]; decide⟩
  · cases solved

end LinearAssignment
