import LinearAssignment.Reduction
import LinearAssignment.Proofs.Binary64.Arithmetic
import LinearAssignment.Proofs.Board.FirstFit
import LinearAssignment.Proofs.Board.Place
import LinearAssignment.Proofs.Phase.Cover

set_option autoImplicit false

namespace LinearAssignment.Board

variable {α : Type}

def line (b : Board α) (row col : Nat) : Nat := if b.isWide then row else col

theorem line_at (b : Board α) (row col : Nat) (inside : row < b.rows) :
    b.lineAt (b.offset row col) = b.line row col := by
  rw [lineAt, line, offset, cell_row _ _ _ inside, cell_column _ _ _ inside]

theorem line_counted (b : Board α) (sized : b.Sized) (row col : Nat) (insideRow : row < b.rows)
    (insideColumn : col < b.cols) : b.line row col < b.lineCount := by
  by_cases wide : b.isWide
  · have below := cell_below b.rows b.cols row col insideRow insideColumn
    simp only [line, lineCount, wide, if_true, sized.costs]
    exact lt_min insideRow (by omega)
  · have whole : b.cols ≤ (b.rows * b.cols + b.rows - 1) / b.rows := by
      rw [Nat.le_div_iff_mul_le (by omega), Nat.mul_comm]
      omega
    simp only [line, lineCount, wide, if_false, sized.costs, Bool.false_eq_true]
    omega

variable [Cost α]

theorem lowered_cost (b : Board α) (sized : b.Sized) (row col : Nat) (insideRow : row < b.rows)
    (insideColumn : col < b.cols) :
    b.lowerLines.costAt row col = Cost.sub (b.costAt row col) (b.leastOfLine (b.line row col)) := by
  have read := cost_read b row col sized insideRow insideColumn
  have counted := line_counted b sized row col insideRow insideColumn
  change (b.costs.mapIdx _).getD (b.offset row col) Cost.top = _
  rw [Array.getD_eq_getD_getElem?, Array.getElem?_mapIdx, read, Option.map_some, Option.getD_some,
    line_at b row col insideRow]
  congr 1
  simp [Array.getD, counted]

theorem lowered_sized (b : Board α) (sized : b.Sized) : b.lowerLines.Sized where
  costs := by simpa [lowerLines] using sized.costs
  stars := sized.stars
  primes := sized.primes
  rowCover := sized.rowCover
  columnCover := sized.columnCover

theorem place_matched (b : Board α) (row col : Nat) (matched : b.Matched) (zero : b.Zero row col)
    (rowFree : ∀ c, ¬ b.Starred row c) (columnFree : ∀ r, ¬ b.Starred r col) :
    (b.place row col true).Matched := by
  have placed := place_first b row col matched.sized zero.1 zero.2.1 columnFree
  refine ⟨placed_independent b _ row col placed matched.toIndependent rowFree,
    place_sized b row col true matched.sized, fun r c starred => ?_⟩
  by_cases here : c = col
  · subst here
    rw [placed_column b _ row c r placed] at starred
    exact starred ▸ zero
  · exact matched.starZero r c ((placed_elsewhere b _ row col r c placed here).mp starred)

theorem free_zero (b : Board α) (row col : Nat) (sized : b.Sized) (insideRow : row < b.rows)
    (insideColumn : col < b.cols) (covers : Array Bool) (i : Nat) (inside : i < covers.size) :
    (do if ← b.isZero row col then return !(← fetch covers i) else return false :
        Except Fault Bool) =
      Except.ok (decide (b.Zero row col ∧ covers[i]? ≠ some true)) := by
  have read := fetch_flag covers i inside
  cases zero_cases b row col sized insideRow insideColumn with
  | inl facts =>
      obtain ⟨seen, zero⟩ := facts
      simp [seen, read, zero]
  | inr facts =>
      obtain ⟨seen, other⟩ := facts
      simp [seen, other]

theorem star_in_row_cases (b : Board α) (row : Nat) (sized : b.Sized) (inside : row < b.rows) :
    (b.starInRow row = .ok b ∧ ∀ col, ¬ (b.Zero row col ∧ ¬ b.ColumnCovered col)) ∨
      ∃ col, (b.Zero row col ∧ ¬ b.ColumnCovered col) ∧
        (∀ other, other < col → ¬ (b.Zero row other ∧ ¬ b.ColumnCovered other)) ∧
        b.starInRow row =
          .ok { b.place row col true
            with columnCover := b.columnCover.setIfInBounds col true } := by
  have sought := seek_cases
    (fun col => do
      if ← b.isZero row col then return !(← fetch b.columnCover col) else return false)
    (fun col => b.Zero row col ∧ b.columnCover[col]? ≠ some true) b.cols
    (fun col before => free_zero b row col sized inside before b.columnCover col
      (by rw [sized.columnCover]; exact before))
  rcases sought with ⟨sought, absent⟩ | ⟨col, sought, before, free, first⟩
  · left
    refine ⟨?_, fun col free => absent col free.1.2.1 free⟩
    simp only [starInRow, sought]
    rfl
  · right
    have starred := set_star_ok b row col true sized inside before
    have stored := store_ok b.columnCover col true (by rw [sized.columnCover]; exact before)
    have coverHere : (b.place row col true).columnCover = b.columnCover := rfl
    refine ⟨col, free, first, ?_⟩
    simp only [starInRow, sought]
    simp [starred, coverColumn, coverHere, stored]

theorem star_in_column_cases (b : Board α) (col : Nat) (sized : b.Sized) (inside : col < b.cols) :
    (b.starInColumn col = .ok b ∧ ∀ row, ¬ (b.Zero row col ∧ ¬ b.RowCovered row)) ∨
      ∃ row, (b.Zero row col ∧ ¬ b.RowCovered row) ∧
        (∀ other, other < row → ¬ (b.Zero other col ∧ ¬ b.RowCovered other)) ∧
        b.starInColumn col =
          .ok { b.place row col true
            with
              columnCover := b.columnCover.setIfInBounds col true,
              rowCover := b.rowCover.setIfInBounds row true } := by
  have sought := seek_cases
    (fun row => do if ← b.isZero row col then return !(← fetch b.rowCover row) else return false)
    (fun row => b.Zero row col ∧ b.rowCover[row]? ≠ some true) b.rows
    (fun row before => free_zero b row col sized before inside b.rowCover row
      (by rw [sized.rowCover]; exact before))
  rcases sought with ⟨sought, absent⟩ | ⟨row, sought, before, free, first⟩
  · left
    refine ⟨?_, fun row free => absent row free.1.1 free⟩
    simp only [starInColumn, sought]
    rfl
  · right
    have starred := set_star_ok b row col true sized before inside
    have columnStored := store_ok b.columnCover col true (by rw [sized.columnCover]; exact inside)
    have rowStored := store_ok b.rowCover row true (by rw [sized.rowCover]; exact before)
    have columnCoverHere : (b.place row col true).columnCover = b.columnCover := rfl
    have rowCoverHere : (b.place row col true).rowCover = b.rowCover := rfl
    refine ⟨row, free, first, ?_⟩
    simp only [starInColumn, sought]
    simp [starred, coverColumn, coverRow, columnCoverHere, rowCoverHere, columnStored, rowStored]

structure Starring (b after : Board α) : Prop extends Matched after where
  rows : after.rows = b.rows
  cols : after.cols = b.cols
  costs : after.costs = b.costs
  primes : after.primes = b.primes
  columnCover : ∀ col, after.ColumnCovered col ↔ ∃ row, after.Starred row col

theorem starring_zero (b after : Board α) (starring : b.Starring after) (row col : Nat) :
    after.Zero row col ↔ b.Zero row col := by
  rw [Zero, Zero, offset, offset, starring.rows, starring.cols, starring.costs]

theorem starring_placed (b before : Board α) (starring : b.Starring before) (row col : Nat)
    (covers : Array Bool) (covered : ∀ c, covers[c]? = some true ↔ c = col ∨ before.ColumnCovered c)
    (size : covers.size = before.cols) (rowCovers : Array Bool)
    (rowSize : rowCovers.size = before.rows) (zero : before.Zero row col)
    (rowFree : ∀ c, ¬ before.Starred row c) (columnFree : ∀ r, ¬ before.Starred r col) :
    b.Starring { before.place row col true with columnCover := covers, rowCover := rowCovers } := by
  have matched := place_matched before row col starring.toMatched zero rowFree columnFree
  have placed := place_first before row col starring.sized zero.1 zero.2.1 columnFree
  refine ⟨⟨⟨matched.rowOnce, matched.columnOnce⟩,
    ⟨matched.sized.costs, matched.sized.stars, matched.sized.primes, rowSize, size⟩,
    matched.starZero⟩, starring.rows, starring.cols, starring.costs, starring.primes, fun c => ?_⟩
  refine (covered c).trans ⟨?_, ?_⟩
  · rintro (rfl | before)
    · exact ⟨row, (placed_column _ _ row c row placed).mpr rfl⟩
    · exact placed_columns _ _ row col placed c ((starring.columnCover c).mp before)
  · rintro ⟨r, starred⟩
    by_cases here : c = col
    · exact Or.inl here
    · exact Or.inr
        ((starring.columnCover c).mpr
        ⟨r, (placed_elsewhere _ _ row col r c placed here).mp starred⟩)

structure Unmarked (b : Board α) : Prop where
  sized : b.Sized
  unstarred : ∀ row col, ¬ b.Starred row col
  unprimed : ∀ row col, ¬ b.Primed row col
  rowsOpen : ∀ row, ¬ b.RowCovered row
  columnsOpen : ∀ col, ¬ b.ColumnCovered col

theorem starring_start (b : Board α) (unmarked : b.Unmarked) : b.Starring b where
  rowOnce := fun row col _ starred => absurd starred (unmarked.unstarred row col)
  columnOnce := fun row _ col starred => absurd starred (unmarked.unstarred row col)
  sized := unmarked.sized
  starZero := fun row col starred => absurd starred (unmarked.unstarred row col)
  rows := rfl
  cols := rfl
  costs := rfl
  primes := rfl
  columnCover := fun col => ⟨fun covered => absurd covered (unmarked.columnsOpen col),
    fun ⟨row, starred⟩ => absurd starred (unmarked.unstarred row col)⟩

theorem cover_added (covers : Array Bool) (i : Nat) (inside : i < covers.size) (j : Nat) :
    (covers.setIfInBounds i true)[j]? = some true ↔ j = i ∨ covers[j]? = some true := by
  rw [flag_set covers i true inside j]
  by_cases here : j = i <;> simp [here]

-- Rows before the current one have been gone through, the columns of their stars are covered, and
-- no row is.
theorem star_rows (b : Board α) (unmarked : b.Unmarked) :
    ∃ after, foldFrom starInRow 0 b.rows b = .ok after ∧ b.Starring after ∧
      after.rowCover = b.rowCover ∧ FirstFit b.Zero after.Starred b.rows := by
  have folds := fold_from_keeps (starInRow (α := α))
    (fun i state => b.Starring state ∧ FirstFit b.Zero state.Starred i ∧
      state.rowCover = b.rowCover)
    0 b.rows b ⟨starring_start b unmarked, first_fit_start unmarked.unstarred, rfl⟩ ?next
  case next =>
    rintro i state - before ⟨starring, fit, rowCover⟩
    have inside : i < state.rows := by
      rw [starring.rows]
      omega
    have free (col : Nat) :
        state.Zero i col ∧ ¬ state.ColumnCovered col ↔ FreeZero b.Zero state.Starred i col := by
      rw [starring_zero b state starring i col, starring.columnCover col, not_exists]
      exact and_congr_right fun _ => ⟨fun unstarred row _ => unstarred row,
        fun unstarred row starred => unstarred row (first_fit_before fit row col starred) starred⟩
    cases star_in_row_cases state i starring.sized inside with
    | inl facts =>
        obtain ⟨same, absent⟩ := facts
        exact ⟨state, same, starring, first_fit_passed fit fun col =>
          (free col).not.mp (absent col), rowCover⟩
    | inr facts =>
        obtain ⟨col, ⟨zero, uncovered⟩, first, result⟩ := facts
        have rowFree : ∀ c, ¬ state.Starred i c :=
          fun c starred => lt_irrefl i (first_fit_before fit i c starred)
        have columnFree : ∀ r, ¬ state.Starred r col :=
          fun r starred => uncovered ((starring.columnCover col).mpr ⟨r, starred⟩)
        have insideColumn : col < state.columnCover.size := by
          rw [starring.sized.columnCover]
          exact zero.2.1
        have placed := place_first state i col starring.sized zero.1 zero.2.1 columnFree
        refine ⟨_, result, starring_placed b state starring i col _
          (cover_added state.columnCover col insideColumn)
          (by simpa using starring.sized.columnCover) _ starring.sized.rowCover zero rowFree
          columnFree, ?_, rowCover⟩
        exact first_fit_placed fit col ((free col).mp ⟨zero, uncovered⟩)
          (fun other order => (free other).not.mp (first other order))
          (placed_added state _ i col placed columnFree)
  obtain ⟨after, folded, starring, fit, rowCover⟩ := folds
  rw [Nat.zero_add] at fit
  exact ⟨after, folded, starring, rowCover, fit⟩

-- Columns before the current one have been gone through, and exactly the rows of their stars are
-- covered.
theorem star_columns (b : Board α) (unmarked : b.Unmarked) :
    ∃ after, foldFrom starInColumn 0 b.cols b = .ok after ∧ b.Starring after ∧
      FirstFit (fun col row => b.Zero row col) (fun col row => after.Starred row col) b.cols := by
  have folds := fold_from_keeps (starInColumn (α := α))
    (fun i state => b.Starring state ∧
      FirstFit (fun col row => b.Zero row col) (fun col row => state.Starred row col) i ∧
      ∀ row, state.RowCovered row ↔ ∃ col, state.Starred row col)
    0 b.cols b
    ⟨starring_start b unmarked, first_fit_start fun col row => unmarked.unstarred row col,
      fun row => ⟨fun covered => absurd covered (unmarked.rowsOpen row),
        fun ⟨col, starred⟩ => absurd starred (unmarked.unstarred row col)⟩⟩ ?next
  case next =>
    rintro i state - before ⟨starring, fit, rowCover⟩
    have inside : i < state.cols := by
      rw [starring.cols]
      omega
    have free (row : Nat) :
        state.Zero row i ∧ ¬ state.RowCovered row ↔
          FreeZero (fun col row => b.Zero row col) (fun col row => state.Starred row col) i
            row := by
      rw [starring_zero b state starring row i, rowCover row, not_exists]
      exact and_congr_right fun _ => ⟨fun unstarred col _ => unstarred col,
        fun unstarred col starred => unstarred col (first_fit_before fit col row starred) starred⟩
    cases star_in_column_cases state i starring.sized inside with
    | inl facts =>
        obtain ⟨same, absent⟩ := facts
        exact ⟨state, same, starring, first_fit_passed fit fun row =>
          (free row).not.mp (absent row), rowCover⟩
    | inr facts =>
        obtain ⟨row, ⟨zero, uncovered⟩, first, result⟩ := facts
        have rowFree : ∀ c, ¬ state.Starred row c :=
          fun c starred => uncovered ((rowCover row).mpr ⟨c, starred⟩)
        have columnFree : ∀ r, ¬ state.Starred r i :=
          fun r starred => lt_irrefl i (first_fit_before fit i r starred)
        have insideColumn : i < state.columnCover.size := by
          rw [starring.sized.columnCover]
          exact inside
        have insideRow : row < state.rowCover.size := by
          rw [starring.sized.rowCover]
          exact zero.1
        have placed := place_first state row i starring.sized zero.1 zero.2.1 columnFree
        refine ⟨_, result, starring_placed b state starring row i _
          (cover_added state.columnCover i insideColumn)
          (by simpa using starring.sized.columnCover) _ (by simpa using starring.sized.rowCover)
          zero rowFree columnFree, ?_, fun r => ?_⟩
        · exact first_fit_placed fit row ((free row).mp ⟨zero, uncovered⟩)
            (fun other order => (free other).not.mp (first other order)) fun c r =>
              (placed_added state _ row i placed columnFree r c).trans (or_congr_left and_comm)
        · refine (cover_added state.rowCover row insideRow r).trans ?_
          refine Iff.trans ?_ (placed_rows state _ row i r placed).symm
          refine or_congr_right
            ((rowCover r).trans ⟨fun ⟨c, starred⟩ =>
              ⟨c, fun same => columnFree r (same ▸ starred), starred⟩, ?_⟩)
          exact fun ⟨c, _, starred⟩ => ⟨c, starred⟩
  obtain ⟨after, folded, starring, fit, _⟩ := folds
  rw [Nat.zero_add] at fit
  exact ⟨after, folded, starring, fit⟩

def FirstStars (b : Board α) : Prop :=
  if b.isWide then FirstFit b.Zero b.Starred b.rows
  else FirstFit (fun col row => b.Zero row col) (fun col row => b.Starred row col) b.cols

theorem star_lines (b : Board α) (unmarked : b.Unmarked) :
    ∃ after, b.starLines = .ok after ∧ b.Starring after ∧ after.Fresh ∧ after.FirstStars := by
  have zeros (after : Board α) (starring : b.Starring after) : b.Zero = after.Zero :=
    funext₂ fun row col => propext (starring_zero b after starring row col).symm
  by_cases wide : b.isWide
  · obtain ⟨after, folded, starring, rowCover, fit⟩ := star_rows b unmarked
    refine ⟨after, ?result, starring,
      ⟨starring.toMatched, fun row col primed => ?_, fun row covered => ?_⟩, ?first⟩
    case result => simp [starLines, wide, folded]
    case first =>
      have wideToo : after.isWide := by rwa [isWide, starring.rows, starring.cols]
      rw [FirstStars, if_pos wideToo, ← zeros after starring, starring.rows]
      exact fit
    · rw [Primed, starring.rows, starring.cols, starring.primes] at primed
      exact unmarked.unprimed row col primed
    · rw [RowCovered, rowCover] at covered
      exact unmarked.rowsOpen row covered
  · obtain ⟨after, folded, starring, fit⟩ := star_columns b unmarked
    have sized : after.uncoverRows.Sized :=
      ⟨starring.sized.costs, starring.sized.stars,
        starring.sized.primes, by
        simpa [uncoverRows] using starring.sized.rowCover, starring.sized.columnCover⟩
    have matched : after.uncoverRows.Matched :=
      ⟨⟨starring.rowOnce, starring.columnOnce⟩, sized, starring.starZero⟩
    have uncovered : b.Starring after.uncoverRows :=
      ⟨matched, starring.rows, starring.cols, starring.costs, starring.primes, starring.columnCover⟩
    refine ⟨after.uncoverRows, ?result, uncovered,
      ⟨matched, fun row col primed => ?_, fun row => flag_cleared after.rowCover row⟩, ?first⟩
    case result => simp [starLines, wide, folded]
    case first =>
      have tall : ¬ after.uncoverRows.isWide := by rwa [isWide, uncovered.rows, uncovered.cols]
      rw [FirstStars, if_neg tall, ← zeros _ uncovered, uncovered.cols]
      exact fit
    · change Marked after.rows after.cols after.primes row col at primed
      rw [starring.rows, starring.cols, starring.primes] at primed
      exact unmarked.unprimed row col primed

theorem lowered_unmarked (b : Board α) (unmarked : b.Unmarked) : b.lowerLines.Unmarked :=
  ⟨lowered_sized b unmarked.sized, unmarked.unstarred, unmarked.unprimed, unmarked.rowsOpen,
    unmarked.columnsOpen⟩

theorem reduced (b : Board α) (unmarked : b.Unmarked) :
    ∃ after, b.reduce = .ok after ∧ b.lowerLines.Starring after ∧ after.Fresh := by
  obtain ⟨after, result, starring, fresh, _⟩ :=
    star_lines b.lowerLines (lowered_unmarked b unmarked)
  exact ⟨after, result, starring, fresh⟩

theorem reduced_known (b start : Board α) (unmarked : b.Unmarked) (reduce : b.reduce = .ok start) :
    b.lowerLines.Starring start ∧ start.Fresh := by
  obtain ⟨after, result, starring, fresh⟩ := reduced b unmarked
  rw [reduce] at result
  cases result
  exact ⟨starring, fresh⟩

theorem reduced_first (b start : Board α) (unmarked : b.Unmarked) (reduce : b.reduce = .ok start) :
    start.FirstStars := by
  obtain ⟨after, result, _, _, first⟩ := star_lines b.lowerLines (lowered_unmarked b unmarked)
  cases reduce.symm.trans result
  exact first

structure LineLeast (b : Board Float) (line : Nat) (least : Float) : Prop where
  origin : least = Binary64.infinity ∨ ∃ row col, row < b.rows ∧ col < b.cols ∧
    b.line row col = line ∧ b.costAt row col = least
  lowest : ∀ row col, row < b.rows → col < b.cols → b.line row col = line →
    ¬ b.costAt row col < least

theorem fold_lower (belongs : Nat → Prop) [DecidablePred belongs] (cells : List (Float × Nat))
    (start : Float) :
    ((cells.foldl (fun least cell => if belongs cell.2 then Cost.lower least cell.1 else least)
          start = start) ∨
        ∃ cell ∈ cells, belongs cell.2 ∧
          cells.foldl (fun least cell => if belongs cell.2 then Cost.lower least cell.1 else least)
            start = cell.1) ∧
      (∀ x, ¬ x < start →
        ¬ x <
          cells.foldl (fun least cell => if belongs cell.2 then Cost.lower least cell.1 else least)
            start) ∧
      ∀ cell ∈ cells, belongs cell.2 →
        ¬ cell.1 <
          cells.foldl (fun least cell => if belongs cell.2 then Cost.lower least cell.1 else least)
            start := by
  induction cells generalizing start with
  | nil =>
      exact ⟨Or.inl rfl, fun x above => above, fun cell member => absurd member (List.not_mem_nil)⟩
  | cons cell rest ih =>
      rw [List.foldl_cons]
      by_cases counts : belongs cell.2
      · rw [if_pos counts]
        obtain ⟨origin, above, lowest⟩ := ih (Cost.lower start cell.1)
        obtain ⟨notBelow, earlier⟩ := Binary64.not_below_lower start cell.1
        refine ⟨?_, fun x bound => above x (earlier x bound), fun other member counted => ?_⟩
        · cases origin with
          | inl same =>
              cases Binary64.lower_cases start cell.1 with
              | inl facts =>
                  obtain ⟨kept, _⟩ := facts
                  exact Or.inl (same.trans kept)
              | inr facts =>
                  obtain ⟨taken, _⟩ := facts
                  exact Or.inr ⟨cell, List.mem_cons_self, counts, same.trans taken⟩
          | inr facts =>
              obtain ⟨other, member, counted, same⟩ := facts
              exact Or.inr ⟨other, List.mem_cons_of_mem _ member, counted, same⟩
        · cases List.mem_cons.mp member with
          | inl same =>
              subst same
              exact above _ notBelow
          | inr later => exact lowest other later counted
      · rw [if_neg counts]
        obtain ⟨origin, above, lowest⟩ := ih start
        refine ⟨?_, above, fun other member counted => ?_⟩
        · cases origin with
          | inl same => exact Or.inl same
          | inr facts =>
              obtain ⟨other, member, counted, same⟩ := facts
              exact Or.inr ⟨other, List.mem_cons_of_mem _ member, counted, same⟩
        · cases List.mem_cons.mp member with
          | inl same =>
              subst same
              exact absurd counted counts
          | inr later => exact lowest other later counted

theorem least_of_line (b : Board Float) (sized : b.Sized) (line : Nat) :
    b.LineLeast line (b.leastOfLine line) := by
  have opened :
      b.leastOfLine line =
        b.costs.zipIdx.toList.foldl
          (fun least cell => if b.lineAt cell.2 = line then Cost.lower least cell.1 else least)
          Binary64.infinity := by
    rw [leastOfLine, Array.foldl_toList]
    rfl
  obtain ⟨origin, _, lowest⟩ :=
    fold_lower (b.lineAt · = line) b.costs.zipIdx.toList Binary64.infinity
  rw [opened]
  refine ⟨?_, fun row col insideRow insideColumn belongs => ?_⟩
  · cases origin with
    | inl top => exact Or.inl top
    | inr facts =>
        obtain ⟨⟨cost, i⟩, member, belongs, same⟩ := facts
        have read : b.costs[i]? = some cost :=
          Array.mk_mem_zipIdx_iff_getElem?.mp (Array.mem_toList_iff.mp member)
        have below : i < b.rows * b.cols := by
          obtain ⟨inside, _⟩ := Array.getElem?_eq_some_iff.mp read
          exact sized.costs ▸ inside
        obtain ⟨insideRow, insideColumn, back⟩ := cell_of_position b.rows b.cols i below
        have place : b.offset (i % b.rows) (i / b.rows) = i := back
        have belongsHere : b.line (i % b.rows) (i / b.rows) = line := by
          rw [← line_at b _ _ insideRow, place]
          exact belongs
        have costHere := cost_read b _ _ sized insideRow insideColumn
        rw [place, read] at costHere
        exact Or.inr ⟨_, _, insideRow, insideColumn, belongsHere,
          (Option.some.inj costHere).symm.trans same.symm⟩
  · have member : (b.costAt row col, b.offset row col) ∈ b.costs.zipIdx.toList :=
      Array.mem_toList_iff.mpr (Array.mk_mem_zipIdx_iff_getElem?.mpr
        (cost_read b row col sized insideRow insideColumn))
    have belongsHere : b.lineAt (b.offset row col) = line :=
      (line_at b row col insideRow).trans belongs
    have notBelow := lowest (b.costAt row col, b.offset row col) member belongsHere
    exact notBelow

end LinearAssignment.Board
