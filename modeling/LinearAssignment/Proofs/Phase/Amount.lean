import LinearAssignment.Proofs.Phase.Run

set_option autoImplicit false

namespace LinearAssignment

namespace Binary64

def HasMultiples (unit limit : ℚ) : Prop :=
  ∀ n : ℤ, 0 ≤ n * unit → n * unit ≤ limit → Representable (n * unit)

theorem has_whole (limit : ℚ) (small : limit ≤ 2 ^ 53) : HasMultiples 1 limit := by
  intro n above below
  rw [mul_one] at above below ⊢
  have few : (n : ℚ) ≤ 2 ^ 53 := below.trans small
  have sign : 0 ≤ n := by exact_mod_cast above
  refine representable_whole n (abs_le.mpr ⟨?_, by exact_mod_cast few⟩)
  omega

end Binary64

namespace Board

def worthAt (b : Board Float) (row col : Nat) : ℚ := Binary64.value (b.costAt row col)

theorem same_costs (b after : Board Float) (rows : after.rows = b.rows)
    (costs : after.costs = b.costs) (row col : Nat) : after.costAt row col = b.costAt row col := by
  rw [costAt, costAt, offset, offset, rows, costs]

structure Plain (b : Board Float) : Prop where
  finite : ∀ row col, row < b.rows → col < b.cols → (b.costAt row col).isFinite
  nonnegative : ∀ row col, row < b.rows → col < b.cols → 0 ≤ b.worthAt row col

theorem plain_priced (b : Board Float) (plain : b.Plain) : b.Priced where
  nonnegative := fun row col insideRow insideColumn =>
    (Binary64.nonnegative_finite _ (plain.finite row col insideRow insideColumn)).mpr
      (plain.nonnegative row col insideRow insideColumn)
  freeFinite := fun row col insideRow insideColumn _ _ =>
    plain.finite row col insideRow insideColumn

theorem priced_plain (b : Board Float) (sized : b.Sized) (priced : b.Priced)
    (finite : ∀ cost ∈ b.costs, cost.isFinite) : b.Plain := by
  have finiteCells (row col : Nat) (insideRow : row < b.rows) (insideColumn : col < b.cols) :
      (b.costAt row col).isFinite :=
    finite _ (Array.mem_of_getElem? (cost_read b row col sized insideRow insideColumn))
  exact ⟨finiteCells, fun row col insideRow insideColumn =>
    (Binary64.nonnegative_finite _ (finiteCells row col insideRow insideColumn)).mp
      (priced.nonnegative row col insideRow insideColumn)⟩

theorem plain_kept (b after : Board Float) (rows : after.rows = b.rows) (cols : after.cols = b.cols)
    (costs : after.costs = b.costs) (plain : b.Plain) : after.Plain := by
  have same := same_costs b after rows costs
  constructor
  all_goals simp only [worthAt, same, rows, cols]
  · exact plain.finite
  · exact plain.nonnegative

theorem open_worth (b : Board Float) (plain : b.Plain) (least : Float) (lowest : b.Least least)
    (finite : least.isFinite) (row col : Nat) (uncovered : b.Open row col) :
    Binary64.value least ≤ b.worthAt row col := by
  have finiteCost := plain.finite row col uncovered.1 uncovered.2.1
  have below := least_below b least lowest finite row col uncovered
    ((plain_priced b plain).nonnegative row col uncovered.1 uncovered.2.1)
  rw [Binary64.height_finite _ finite, Binary64.height_finite _ finiteCost] at below
  exact_mod_cast below

def rowShare (b : Board Float) (amount : ℚ) (row : Nat) : ℚ :=
  if b.RowCovered row then amount else 0

def columnShare (b : Board Float) (amount : ℚ) (col : Nat) : ℚ :=
  if b.ColumnCovered col then 0 else amount

structure Shifts (b after : Board Float) (amount : ℚ) : Prop where
  sign : 0 < amount
  below : ∀ row col, b.Open row col → amount ≤ b.worthAt row col
  costs : ∀ row col, row < b.rows → col < b.cols →
    after.worthAt row col = b.worthAt row col + b.rowShare amount row - b.columnShare amount col

theorem shifts_nonnegative (b after : Board Float) (amount : ℚ) (shifts : b.Shifts after amount)
    (row col : Nat) (insideRow : row < b.rows) (insideColumn : col < b.cols)
    (before : 0 ≤ b.worthAt row col) : 0 ≤ after.worthAt row col := by
  have sign := shifts.sign
  rw [shifts.costs row col insideRow insideColumn]
  by_cases rowCovered : b.RowCovered row <;> by_cases columnCovered : b.ColumnCovered col <;>
    simp only [rowShare, columnShare, rowCovered, columnCovered, if_true, if_false]
  · linarith
  · linarith
  · linarith
  · linarith [shifts.below row col ⟨insideRow, insideColumn, rowCovered, columnCovered⟩]

-- A cost on its way through a shift, when rows have been raised and columns not yet lowered.
def raisedAt (b : Board Float) (amount : Float) (row col : Nat) : Float :=
  if b.RowCovered row then b.costAt row col + amount else b.costAt row col

structure ShiftsExactly (limit : ℚ) (b : Board Float) (amount : Float) : Prop where
  raises : ∀ row col, row < b.rows → col < b.cols → b.RowCovered row →
    b.worthAt row col + Binary64.value amount ≤ limit →
    (b.costAt row col + amount).isFinite ∧
      Binary64.value (b.costAt row col + amount) = b.worthAt row col + Binary64.value amount
  lowers : ∀ row col, row < b.rows → col < b.cols → ¬ b.ColumnCovered col →
    b.worthAt row col + b.rowShare (Binary64.value amount) row ≤ limit →
    (b.raisedAt amount row col - amount).isFinite ∧
      Binary64.value (b.raisedAt amount row col - amount) =
        b.worthAt row col + b.rowShare (Binary64.value amount) row - Binary64.value amount

theorem raised_exactly (limit : ℚ) (b : Board Float) (amount : Float)
    (exactly : b.ShiftsExactly limit amount) (row col : Nat) (insideRow : row < b.rows)
    (insideColumn : col < b.cols) (finite : (b.costAt row col).isFinite)
    (small : b.worthAt row col + b.rowShare (Binary64.value amount) row ≤ limit) :
    (b.raisedAt amount row col).isFinite ∧
      Binary64.value (b.raisedAt amount row col) =
        b.worthAt row col + b.rowShare (Binary64.value amount) row := by
  by_cases covered : b.RowCovered row
  · simp only [raisedAt, rowShare, covered, if_true] at small ⊢
    exact exactly.raises row col insideRow insideColumn covered small
  · simp only [raisedAt, rowShare, covered, if_false, add_zero]
    exact ⟨finite, rfl⟩

theorem shifted_exactly (limit : ℚ) (b : Board Float) (amount : Float)
    (exactly : b.ShiftsExactly limit amount) (row col : Nat) (insideRow : row < b.rows)
    (insideColumn : col < b.cols) (finite : (b.costAt row col).isFinite)
    (small : b.worthAt row col + b.rowShare (Binary64.value amount) row ≤ limit) :
    (b.shiftedAt amount row col).isFinite ∧
      Binary64.value (b.shiftedAt amount row col) =
        b.worthAt row col + b.rowShare (Binary64.value amount) row - b.columnShare
          (Binary64.value amount) col := by
  have opened :
      b.shiftedAt amount row col =
        if b.ColumnCovered col then
          b.raisedAt amount row col
        else
          b.raisedAt amount row col - amount :=
    rfl
  rw [opened]
  by_cases covered : b.ColumnCovered col
  · simp only [columnShare, covered, if_true, sub_zero]
    exact raised_exactly limit b amount exactly row col insideRow insideColumn finite small
  · simp only [columnShare, covered, if_false]
    exact exactly.lowers row col insideRow insideColumn covered small

theorem exact_shifts (limit : ℚ) (b after : Board Float) (plain : b.Plain) (least : Float)
    (exactly : b.ShiftsExactly limit least) (lowest : b.Least least) (finite : least.isFinite)
    (positive : 0 < least) (shifted : b.Shifted after least)
    (small : ∀ row col, row < b.rows → col < b.cols →
      b.worthAt row col + b.rowShare (Binary64.value least) row ≤ limit) :
    b.Shifts after (Binary64.value least) ∧ after.Plain := by
  have cells (row col : Nat) (insideRow : row < b.rows) (insideColumn : col < b.cols) :=
    shifted_exactly limit b least exactly row col insideRow insideColumn
      (plain.finite row col insideRow insideColumn) (small row col insideRow insideColumn)
  have shifts : b.Shifts after (Binary64.value least) := by
    refine ⟨(Binary64.positive_iff least finite).mp positive,
      open_worth b plain least lowest finite, fun row col insideRow insideColumn => ?_⟩
    rw [worthAt, shifted.costs row col insideRow insideColumn]
    exact (cells row col insideRow insideColumn).2
  obtain ⟨rows, cols⟩ := shifted_size b after least shifted
  refine ⟨shifts, fun row col insideRow insideColumn =>
    ?_, fun row col insideRow insideColumn => ?_⟩
  all_goals
    rw [rows] at insideRow
    rw [cols] at insideColumn
  · rw [shifted.costs row col insideRow insideColumn]
    exact (cells row col insideRow insideColumn).1
  · exact shifts_nonnegative b after _ shifts row col insideRow insideColumn
      (plain.nonnegative row col insideRow insideColumn)

def OnUnit (unit : ℚ) (b : Board Float) : Prop :=
  ∀ row col, row < b.rows → col < b.cols → ∃ n : ℤ, b.worthAt row col = n * unit

theorem least_on_unit (unit : ℚ) (b : Board Float) (onUnit : b.OnUnit unit) (least : Float)
    (lowest : b.Least least) (finite : least.isFinite) :
    ∃ n : ℤ, Binary64.value least = n * unit := by
  cases lowest.origin with
  | inl top =>
      rw [top] at finite
      exact absurd finite (by decide)
  | inr facts =>
      obtain ⟨row, col, uncovered, same⟩ := facts
      rw [← same]
      exact onUnit row col uncovered.1 uncovered.2.1

theorem shifts_on_unit (unit : ℚ) (b after : Board Float) (onUnit : b.OnUnit unit) (amount : ℚ)
    (whole : ∃ n : ℤ, amount = n * unit) (shifts : b.Shifts after amount)
    (rows : after.rows = b.rows) (cols : after.cols = b.cols) : after.OnUnit unit := by
  intro row col insideRow insideColumn
  rw [rows] at insideRow
  rw [cols] at insideColumn
  obtain ⟨n, cost⟩ := onUnit row col insideRow insideColumn
  obtain ⟨k, rfl⟩ := whole
  rw [shifts.costs row col insideRow insideColumn, cost]
  by_cases rowCovered : b.RowCovered row <;> by_cases columnCovered : b.ColumnCovered col <;>
    simp only [rowShare, columnShare, rowCovered, columnCovered, if_true, if_false]
  · exact ⟨n + k, by push_cast; ring⟩
  · exact ⟨n, by ring⟩
  · exact ⟨n, by ring⟩
  · exact ⟨n - k, by push_cast; ring⟩

theorem on_unit_exact (unit limit : ℚ) (grid : Binary64.HasMultiples unit limit) (b : Board Float)
    (plain : b.Plain) (onUnit : b.OnUnit unit) (least : Float) (lowest : b.Least least)
    (finite : least.isFinite) (positive : 0 < least) : b.ShiftsExactly limit least := by
  have sign := (Binary64.positive_iff least finite).mp positive
  obtain ⟨k, amountIs⟩ := least_on_unit unit b onUnit least lowest finite
  have raises (row col : Nat) (insideRow : row < b.rows) (insideColumn : col < b.cols)
      (small : b.worthAt row col + Binary64.value least ≤ limit) :
      (b.costAt row col + least).isFinite ∧
        Binary64.value (b.costAt row col + least) = b.worthAt row col + Binary64.value least := by
    obtain ⟨n, cost⟩ := onUnit row col insideRow insideColumn
    have before := plain.nonnegative row col insideRow insideColumn
    have multiple : b.worthAt row col + Binary64.value least = ((n + k : ℤ) : ℚ) * unit := by
      rw [cost, amountIs]
      push_cast
      ring
    have sum := Binary64.sum_follows (b.costAt row col) least
      (plain.finite row col insideRow insideColumn) finite
    refine Binary64.follows_exact _ _ sum ?_
    rw [multiple]
    refine grid (n + k) ?_ ?_
    · rw [← multiple]
      linarith
    · rw [← multiple]
      exact small
  refine ⟨fun row col insideRow insideColumn _ small => raises row col insideRow insideColumn small,
    fun row col insideRow insideColumn columnOpen small => ?_⟩
  obtain ⟨n, cost⟩ := onUnit row col insideRow insideColumn
  have before := plain.nonnegative row col insideRow insideColumn
  by_cases covered : b.RowCovered row
  · simp only [rowShare, covered, if_true] at small
    obtain ⟨finiteSum, sum⟩ := raises row col insideRow insideColumn small
    simp only [raisedAt, rowShare, covered, if_true]
    have difference := Binary64.difference_follows (b.costAt row col + least) least finiteSum finite
    rw [sum] at difference
    refine Binary64.follows_exact _ _ difference ?_
    rw [add_sub_cancel_right, cost]
    refine grid n ?_ ?_
    · rw [← cost]
      exact before
    · rw [← cost]
      linarith
  · simp only [rowShare, covered, if_false, add_zero] at small ⊢
    simp only [raisedAt, covered, if_false]
    have enough :=
      open_worth b plain least lowest finite row col ⟨insideRow, insideColumn, covered, columnOpen⟩
    have multiple : b.worthAt row col - Binary64.value least = ((n - k : ℤ) : ℚ) * unit := by
      rw [cost, amountIs]
      push_cast
      ring
    have difference := Binary64.difference_follows (b.costAt row col) least
      (plain.finite row col insideRow insideColumn) finite
    refine Binary64.follows_exact _ _ difference ?_
    rw [multiple]
    refine grid (n - k) ?_ ?_
    · rw [← multiple]
      linarith
    · rw [← multiple]
      linarith

end Board

end LinearAssignment
