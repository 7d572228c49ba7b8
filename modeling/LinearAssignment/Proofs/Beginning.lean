import LinearAssignment.Proofs.Lockstep

set_option autoImplicit false

namespace LinearAssignment

namespace Board

-- What a reduction makes of a board with finite costs. Only how far it lowers a line asks for costs
-- that are not rounded.
structure Begins (full start : Board Float) : Prop extends Fresh start where
  rows : start.rows = full.rows
  cols : start.cols = full.cols
  nonnegative : ∀ row col, row < full.rows → col < full.cols → 0 ≤ start.costAt row col
  rowZero : full.rows ≤ full.cols → ∀ row, row < full.rows → ∃ col, start.Zero row col
  columnZero : full.cols < full.rows → ∀ col, col < full.cols → ∃ row, start.Zero row col
  rowLowered : full.rows ≤ full.cols → full.LowersExactly → ∀ row, row < full.rows →
    ∃ amount, ∀ col, col < full.cols →
      (start.costAt row col).isFinite ∧ full.worthAt row col - start.worthAt row col = amount
  columnLowered : full.cols < full.rows → full.LowersExactly → ∀ col, col < full.cols →
    ∃ amount, ∀ row, row < full.rows →
      (start.costAt row col).isFinite ∧ full.worthAt row col - start.worthAt row col = amount
  maximal : ∀ row col, start.Zero row col → (∃ c, start.Starred row c) ∨ ∃ r, start.Starred r col
  columnCover : ∀ col, start.ColumnCovered col ↔ ∃ row, start.Starred row col

theorem first_stars_maximal (b : Board Float) (first : b.FirstStars) (row col : Nat)
    (zero : b.Zero row col) : (∃ c, b.Starred row c) ∨ ∃ r, b.Starred r col := by
  by_cases wide : b.isWide
  · rw [FirstStars, if_pos wide] at first
    exact first_fit_maximal first row col zero.1 zero
  · rw [FirstStars, if_neg wide] at first
    exact (first_fit_maximal first col row zero.2.1 zero).symm

section

variable (full start : Board Float) (unmarked : full.Unmarked) (reduce : full.reduce = .ok start)
  (finite : ∀ row col, row < full.rows → col < full.cols → (full.costAt row col).isFinite)

include unmarked reduce

theorem begun_cost (row col : Nat) (insideRow : row < full.rows) (insideColumn : col < full.cols) :
    start.costAt row col = full.costAt row col - full.leastOfLine (full.line row col) := by
  obtain ⟨starring, _⟩ := reduced_known full start unmarked reduce
  exact (same_costs _ start starring.rows starring.costs row col).trans
    (lowered_cost full unmarked.sized row col insideRow insideColumn)

theorem begun_worth (exactly : full.LowersExactly) (row col : Nat) (insideRow : row < full.rows)
    (insideColumn : col < full.cols) :
    (start.costAt row col).isFinite ∧
      start.worthAt row col =
        full.worthAt row col - Binary64.value (full.leastOfLine (full.line row col)) := by
  rw [worthAt, begun_cost full start unmarked reduce row col insideRow insideColumn]
  exact exactly row col insideRow insideColumn

include finite

theorem begun_nonnegative (row col : Nat) (insideRow : row < full.rows)
    (insideColumn : col < full.cols) : 0 ≤ start.costAt row col := by
  obtain ⟨_, finiteLeast, below⟩ :=
    line_least_attained full unmarked.sized finite row col insideRow insideColumn
  have finiteHere := finite row col insideRow insideColumn
  have order :
      Binary64.height (full.leastOfLine (full.line row col)) ≤
        Binary64.height (full.costAt row col) := by
    rw [Binary64.height_finite _ finiteLeast, Binary64.height_finite _ finiteHere]
    exact_mod_cast below row col insideRow insideColumn rfl
  have sign :=
    Binary64.lowered_nonnegative _ _ (Binary64.finite_number _ finiteHere) finiteLeast order
  rw [begun_cost full start unmarked reduce row col insideRow insideColumn,
    Binary64.at_most_iff 0 _ (Binary64.finite_number 0 Binary64.finite_zero) sign.1]
  exact sign.2

theorem begun_zero (row col : Nat) (insideRow : row < full.rows) (insideColumn : col < full.cols) :
    ∃ r c, full.line r c = full.line row col ∧ start.Zero r c := by
  obtain ⟨starring, fresh⟩ := reduced_known full start unmarked reduce
  obtain ⟨⟨r, c, insideR, insideC, belongs, same⟩, finiteLeast, _⟩ :=
    line_least_attained full unmarked.sized finite row col insideRow insideColumn
  refine ⟨r, c, belongs, (zero_cost start r c fresh.sized).mpr ⟨starring.rows.symm ▸ insideR,
    starring.cols.symm ▸ insideC, ?_⟩⟩
  rw [begun_cost full start unmarked reduce r c insideR insideC, belongs, same]
  exact Binary64.self_difference_zero _ finiteLeast

theorem reduction_begins (some : 0 < full.rows ∧ 0 < full.cols) : Begins full start := by
  obtain ⟨starring, fresh⟩ := reduced_known full start unmarked reduce
  have rows : start.rows = full.rows := starring.rows
  have cols : start.cols = full.cols := starring.cols
  have line (row col : Nat) : full.line row col = if full.rows ≤ full.cols then row else col := by
    by_cases order : full.rows ≤ full.cols <;> simp [Board.line, isWide, order]
  refine { fresh with
    rows, cols
    nonnegative := begun_nonnegative full start unmarked reduce finite
    rowZero := fun wide row inside => ?rowZero
    columnZero := fun tall col inside => ?columnZero
    rowLowered := fun wide exactly row inside => ?rowLowered
    columnLowered := fun tall exactly col inside => ?columnLowered
    maximal := first_stars_maximal start (reduced_first full start unmarked reduce)
    columnCover := starring.columnCover }
  case rowZero =>
    obtain ⟨r, c, belongs, zero⟩ := begun_zero full start unmarked reduce finite row 0 inside some.2
    rw [line, line, if_pos wide, if_pos wide] at belongs
    exact ⟨c, belongs ▸ zero⟩
  case columnZero =>
    obtain ⟨r, c, belongs, zero⟩ := begun_zero full start unmarked reduce finite 0 col some.1 inside
    rw [line, line, if_neg tall.not_ge, if_neg tall.not_ge] at belongs
    exact ⟨r, belongs ▸ zero⟩
  case rowLowered =>
    refine ⟨Binary64.value (full.leastOfLine row), fun col insideColumn => ?_⟩
    obtain ⟨finiteCost, worth⟩ :=
      begun_worth full start unmarked reduce exactly row col inside insideColumn
    rw [line, if_pos wide] at worth
    exact ⟨finiteCost, by rw [worth, sub_sub_cancel]⟩
  case columnLowered =>
    refine ⟨Binary64.value (full.leastOfLine col), fun row insideRow => ?_⟩
    obtain ⟨finiteCost, worth⟩ :=
      begun_worth full start unmarked reduce exactly row col insideRow inside
    rw [line, if_neg tall.not_ge] at worth
    exact ⟨finiteCost, by rw [worth, sub_sub_cancel]⟩

end

end Board

/-- Reducing finite costs never fails and leaves costs that are not negative, a zero on every line
of the shorter side, and stars on independent zeros to which no other zero can be added. Exactly the
columns with a star are covered. Unless a cost is rounded, all costs of a line are lowered by one
amount. -/
theorem search_begins (mem : Memory) (rows cols : Nat) (old empty : Board Float)
    (costs : Array Float) (reset : Board.reset mem rows cols old = .ok empty)
    (some : 0 < rows ∧ 0 < cols) (size : costs.size = rows * cols)
    (finite : ∀ cost ∈ costs, cost.isFinite) :
    ∃ start, Board.reduce { empty with costs } = .ok start ∧ start.rows = rows ∧ start.cols = cols ∧
      Board.Begins { empty with costs } start := by
  have emptyIs := Board.reset_inverted mem rows cols old empty reset
  subst emptyIs
  have unmarked := Board.ready_unmarked rows cols costs size
  obtain ⟨start, reduce, starring, _⟩ := Board.reduced _ unmarked
  have finiteCells (row col : Nat) (insideRow : row < rows) (insideColumn : col < cols) :
      (Board.costAt { (Board.ready rows cols : Board Float) with costs } row col).isFinite :=
    finite _
      (Array.mem_of_getElem? (Board.cost_read _ row col unmarked.sized insideRow insideColumn))
  exact ⟨start, reduce, starring.rows, starring.cols,
    Board.reduction_begins _ start unmarked reduce finiteCells some⟩

theorem search_begins_tall :
    ∃ (empty start : Board Float) (costs : Array Float), costs = #[4, 1, 3, 2, 0, 5] ∧
      Board.reset ⟨100⟩ 3 2 Board.blank = .ok empty ∧
      Board.reduce { empty with costs } = .ok start ∧ start.rows = 3 ∧ start.cols = 2 ∧
      Board.Begins { empty with costs } start ∧ Board.LowersExactly { empty with costs } := by
  have known := known_naturals [4, 1, 3, 2, 0, 5] (by decide)
  obtain ⟨finite, unrounded⟩ := known_unrounded {} 3 2 #[4, 1, 3, 2, 0, 5] _ rfl known (by decide)
  have reset := Board.reset_ok ⟨100⟩ 3 2 (Board.blank : Board Float) (by decide) (by decide)
    (by decide) (by decide) (by decide) (by decide)
  obtain ⟨start, reduce, rows, cols, begins⟩ :=
    search_begins ⟨100⟩ 3 2 Board.blank _ #[4, 1, 3, 2, 0, 5] reset
      ⟨by decide, by decide⟩ rfl finite
  have taken :
      Pricing.settled {} #[4, 1, 3, 2, 0, 5] #[4, 1, 3, 2, 0, 5] = #[4, 1, 3, 2, 0, 5] := by
    rw [Pricing.settled_map]
    exact (Array.map_congr_left fun v member =>
      Pricing.settled_taken {} _ v (finite v member) rfl).trans (Array.map_id' _)
  have exactly := unrounded.lowering
  rw [Board.loaded, taken] at exactly
  exact ⟨_, start, _, rfl, reset, reduce, rows, cols, begins, exactly⟩

end LinearAssignment
