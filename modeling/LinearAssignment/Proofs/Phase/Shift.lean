import LinearAssignment.Phase
import LinearAssignment.Proofs.Binary64.Arithmetic
import LinearAssignment.Proofs.Phase.Cover

set_option autoImplicit false

namespace LinearAssignment.Board

variable {α : Type}

def Open (b : Board α) (row col : Nat) : Prop :=
  row < b.rows ∧ col < b.cols ∧ ¬ b.RowCovered row ∧ ¬ b.ColumnCovered col

theorem cell_covered (b : Board α) (row col : Nat) (sized : b.Sized) (insideRow : row < b.rows)
    (insideColumn : col < b.cols) :
    b.isCellCovered row col = .ok (decide (b.ColumnCovered col ∨ b.RowCovered row)) := by
  have rowRead := fetch_flag b.rowCover row (by rw [sized.rowCover]; exact insideRow)
  have columnRead := fetch_flag b.columnCover col (by rw [sized.columnCover]; exact insideColumn)
  by_cases covered : b.ColumnCovered col
  · have set : b.columnCover[col]? = some true := covered
    simp [isCellCovered, columnRead, set, covered]
  · have unset : b.columnCover[col]? ≠ some true := covered
    simp [isCellCovered, columnRead, rowRead, unset, covered, RowCovered]

theorem lower_to_uncovered [Cost α] (b : Board α) (sized : b.Sized) (least : α) (row col : Nat)
    (insideRow : row < b.rows) (insideColumn : col < b.cols) :
    b.lowerToUncovered least (b.offset row col) =
      .ok (if b.ColumnCovered col ∨ b.RowCovered row then least else Cost.lower least
        (b.costAt row col)) := by
  have cell : b.cellAt (b.offset row col) = (row, col) := by
    rw [cellAt, offset, cell_row _ _ _ insideRow, cell_column _ _ _ insideRow]
  have read : fetch b.costs (b.offset row col) = .ok (b.costAt row col) := by
    rw [fetch, cost_read b row col sized insideRow insideColumn]
  by_cases covered : b.ColumnCovered col ∨ b.RowCovered row
  · simp [lowerToUncovered, cell, cell_covered b row col sized insideRow insideColumn, covered]
  · simp [lowerToUncovered, cell, cell_covered b row col sized insideRow insideColumn,
      covered, read]

def shiftedAt [Cost α] (b : Board α) (amount : α) (row col : Nat) : α :=
  let raised := if b.RowCovered row then Cost.add (b.costAt row col) amount else b.costAt row col
  if b.ColumnCovered col then raised else Cost.sub raised amount

theorem shifted_cost [Cost α] (b : Board α) (sized : b.Sized) (amount : α) (row col : Nat)
    (insideRow : row < b.rows) (insideColumn : col < b.cols) :
    b.shiftedCost amount (b.offset row col) = .ok (b.shiftedAt amount row col) := by
  have cell : b.cellAt (b.offset row col) = (row, col) := by
    rw [cellAt, offset, cell_row _ _ _ insideRow, cell_column _ _ _ insideRow]
  have read : fetch b.costs (b.offset row col) = .ok (b.costAt row col) := by
    rw [fetch, cost_read b row col sized insideRow insideColumn]
  have rowRead := fetch_flag b.rowCover row (by rw [sized.rowCover]; exact insideRow)
  have columnRead := fetch_flag b.columnCover col (by rw [sized.columnCover]; exact insideColumn)
  by_cases rowSet : b.rowCover[row]? = some true <;> by_cases columnSet : b.columnCover[col]? =
    some true <;> simp [shiftedCost, cell, read, rowRead, columnRead, rowSet, columnSet, shiftedAt,
    RowCovered, ColumnCovered]

structure Shifted [Cost α] (b after : Board α) (amount : α) : Prop where
  frame : after = { b with costs := after.costs }
  sized : after.Sized
  costs : ∀ row col, row < b.rows → col < b.cols → after.costAt row col = b.shiftedAt amount row col

theorem shifted_size [Cost α] (b after : Board α) (amount : α) (shifted : b.Shifted after amount) :
    after.rows = b.rows ∧ after.cols = b.cols := by
  rw [shifted.frame]
  exact ⟨rfl, rfl⟩

theorem shifted_marks [Cost α] (b after : Board α) (amount : α) (shifted : b.Shifted after amount)
    (row col : Nat) :
    (after.Starred row col ↔ b.Starred row col) ∧ (after.Primed row col ↔ b.Primed row col) := by
  rw [shifted.frame]
  exact ⟨Iff.rfl, Iff.rfl⟩

theorem shift_costs [Cost α] (b : Board α) (sized : b.Sized) (amount : α) :
    ∃ costs, b.shiftCosts amount = .ok costs ∧ b.Shifted { b with costs } amount := by
  have folds := fold_from_keeps
    (fun (costs : Array α) i => return costs.push (← b.shiftedCost amount i))
    (fun i costs => costs.size = i ∧ ∀ row col, row < b.rows → col < b.cols → b.offset row col < i →
      costs[b.offset row col]? = some (b.shiftedAt amount row col))
    0 b.costs.size #[] ⟨rfl, fun row col _ _ before => absurd before (Nat.not_lt_zero _)⟩ ?next
  case next =>
    rintro i costs - before ⟨size, cells⟩
    rw [sized.costs, Nat.zero_add] at before
    obtain ⟨insideRow, insideColumn, back⟩ := cell_of_position b.rows b.cols i before
    have stepped := shifted_cost b sized amount (i % b.rows) (i / b.rows) insideRow insideColumn
    rw [offset, back] at stepped
    refine ⟨costs.push (b.shiftedAt amount (i % b.rows) (i / b.rows)), ?_, by simpa using size,
      fun row col rowInside columnInside below => ?_⟩
    · simp [stepped]
    · rw [Array.getElem?_push, size]
      by_cases here : b.offset row col = i
      · rw [if_pos here, ← here, offset, cell_row _ _ _ rowInside, cell_column _ _ _ rowInside]
      · rw [if_neg here]
        exact cells row col rowInside columnInside (by omega)
  obtain ⟨costs, folded, size, cells⟩ := folds
  have sameSize : costs.size = b.rows * b.cols := by rw [size, Nat.zero_add, sized.costs]
  refine ⟨costs, folded, rfl,
    ⟨sameSize, sized.stars, sized.primes, sized.rowCover, sized.columnCover⟩,
    fun row col insideRow insideColumn => ?_⟩
  have inside : b.offset row col < 0 + b.costs.size := by
    rw [Nat.zero_add, sized.costs]
    exact cell_below b.rows b.cols row col insideRow insideColumn
  have read := cells row col insideRow insideColumn inside
  change costs.getD (b.offset row col) Cost.top = _
  simp [Array.getD_eq_getD_getElem?, read]

structure Least (b : Board Float) (least : Float) : Prop where
  origin : least = Binary64.infinity ∨ ∃ row col, b.Open row col ∧ b.costAt row col = least
  lowest : ∀ row col, b.Open row col → ¬ b.costAt row col < least

theorem least_uncovered (b : Board Float) (sized : b.Sized) :
    ∃ least, b.leastUncovered = .ok least ∧ b.Least least := by
  have folds := fold_from_keeps b.lowerToUncovered
    (fun i least =>
      (least = Binary64.infinity ∨ ∃ row col, b.Open row col ∧ b.costAt row col = least) ∧
        ∀ row col, b.Open row col → b.offset row col < i → ¬ b.costAt row col < least)
    0 b.costs.size Cost.top
    ⟨Or.inl rfl, fun row col _ before => absurd before (Nat.not_lt_zero _)⟩ ?next
  case next =>
    rintro i least - before ⟨origin, lowest⟩
    rw [sized.costs, Nat.zero_add] at before
    obtain ⟨insideRow, insideColumn, back⟩ := cell_of_position b.rows b.cols i before
    have stepped :=
      lower_to_uncovered b sized least (i % b.rows) (i / b.rows) insideRow insideColumn
    rw [offset, back] at stepped
    refine ⟨_, stepped, ?_⟩
    have cellHere (row col : Nat) (inside : row < b.rows) (here : b.offset row col = i) :
        row = i % b.rows ∧ col = i / b.rows := by
      rw [← here, offset, cell_row _ _ _ inside, cell_column _ _ _ inside]
      exact ⟨rfl, rfl⟩
    by_cases covered : b.ColumnCovered (i / b.rows) ∨ b.RowCovered (i % b.rows)
    · rw [if_pos covered]
      refine ⟨origin, fun row col uncovered below => ?_⟩
      by_cases here : b.offset row col = i
      · obtain ⟨rfl, rfl⟩ := cellHere row col uncovered.1 here
        exact absurd covered (not_or.mpr ⟨uncovered.2.2.2, uncovered.2.2.1⟩)
      · exact lowest row col uncovered (by omega)
    · rw [if_neg covered]
      obtain ⟨columnOpen, rowOpen⟩ := not_or.mp covered
      obtain ⟨last, earlier⟩ :=
        Binary64.not_below_lower least (b.costAt (i % b.rows) (i / b.rows))
      refine ⟨?_, fun row col uncovered below => ?_⟩
      · cases Binary64.lower_cases least (b.costAt (i % b.rows) (i / b.rows)) with
        | inl facts =>
            obtain ⟨same, _⟩ := facts
            rw [same]
            exact origin
        | inr facts =>
            obtain ⟨same, _⟩ := facts
            exact Or.inr ⟨_, _, ⟨insideRow, insideColumn, rowOpen, columnOpen⟩, same.symm⟩
      · by_cases here : b.offset row col = i
        · obtain ⟨rfl, rfl⟩ := cellHere row col uncovered.1 here
          exact last
        · exact earlier _ (lowest row col uncovered (by omega))
  obtain ⟨least, folded, origin, lowest⟩ := folds
  refine ⟨least, folded, origin, fun row col uncovered => lowest row col uncovered ?_⟩
  rw [Nat.zero_add, sized.costs]
  exact cell_below b.rows b.cols row col uncovered.1 uncovered.2.1

theorem shift_ok (b : Board Float) (sized : b.Sized) (least : Float)
    (found : b.leastUncovered = .ok least) (some : b.rows ≠ 0) (finite : least.isFinite)
    (positive : 0 < least) : ∃ after, b.shift = .ok after ∧ b.Shifted after least := by
  obtain ⟨costs, written, shifted⟩ := shift_costs b sized least
  have isFinite : Cost.isFinite least = true := finite
  have isPositive : Cost.less Cost.zero least = true := decide_eq_true positive
  refine ⟨_, ?_, shifted⟩
  simp [shift, demand, require, found, written, some, isFinite, isPositive]

theorem shift_inverted (b after : Board Float) (sized : b.Sized) (result : b.shift = .ok after) :
    ∃ least, b.leastUncovered = .ok least ∧ b.Least least ∧ least.isFinite ∧ 0 < least ∧
      b.Shifted after least := by
  obtain ⟨least, found, lowest⟩ := least_uncovered b sized
  by_cases some : b.rows = 0
  · simp [shift, demand, some] at result
  · by_cases finite : least.isFinite
    · by_cases positive : 0 < least
      · obtain ⟨made, shift, shifted⟩ := shift_ok b sized least found some finite positive
        rw [shift] at result
        exact ⟨least, found, lowest, finite, positive, Except.ok.inj result ▸ shifted⟩
      · have notPositive : Cost.less Cost.zero least = false := decide_eq_false positive
        have isFinite : Cost.isFinite least = true := finite
        simp [shift, demand, require, found, some, isFinite, notPositive] at result
    · have notFinite : Cost.isFinite least = false := (Bool.not_eq_true _).mp finite
      simp [shift, demand, require, refuse, found, some, notFinite] at result

theorem shifted_zero (b after : Board Float) (amount : Float) (shifted : b.Shifted after amount)
    (sized : b.Sized) (finite : amount.isFinite) (row col : Nat) (zero : b.Zero row col)
    (once : b.ColumnCovered col ↔ ¬ b.RowCovered row) : after.Zero row col := by
  obtain ⟨insideRow, insideColumn, isZero⟩ := (zero_cost b row col sized).mp zero
  obtain ⟨rowsAgree, colsAgree⟩ := shifted_size b after amount shifted
  refine (zero_cost after row col shifted.sized).mpr ⟨rowsAgree ▸ insideRow,
    colsAgree ▸ insideColumn, ?_⟩
  rw [shifted.costs row col insideRow insideColumn, shiftedAt]
  by_cases rowCovered : b.RowCovered row
  · have columnOpen : ¬ b.ColumnCovered col := fun covered => once.mp covered rowCovered
    simp only [rowCovered, columnOpen, if_true, if_false]
    exact Binary64.zero_raised_lowered _ _ isZero finite
  · have columnCovered : b.ColumnCovered col := once.mpr rowCovered
    simp only [rowCovered, columnCovered, if_true, if_false]
    exact isZero

theorem shifted_searching (b after : Board Float) (amount : Float)
    (shifted : b.Shifted after amount) (finite : amount.isFinite) (searching : b.Searching) :
    after.Searching := by
  have zeros := shifted_zero b after amount shifted searching.sized finite
  have sized := shifted.sized
  rw [shifted.frame] at sized zeros ⊢
  refine ⟨⟨⟨⟨searching.rowOnce, searching.columnOnce⟩, sized, fun row col starred => ?_⟩,
    searching.rowCover, searching.columnCover, searching.primeOnce, fun row col primed =>
      ?_, searching.primeOpen, searching.ranked⟩, searching.primeCovered⟩
  · exact zeros row col (searching.starZero row col starred)
      (star_covered_once b searching.toDisciplined row col starred)
  · have rowCovered := searching.primeCovered row col primed
    have columnOpen := searching.primeOpen row col primed
    exact zeros row col (searching.primeZero row col primed) ⟨fun covered =>
      absurd covered columnOpen, fun uncovered => absurd rowCovered uncovered⟩

end LinearAssignment.Board
