import LinearAssignment.Proofs.Optimality.Table
import LinearAssignment.Proofs.Solve

/-! Reports that can be relied on whatever the values are: that they are pairs rests on the stars
alone. -/

set_option autoImplicit false

namespace LinearAssignment

variable {w : Width}

namespace Assignment

structure Valid (a : Assignment w) (rows cols : Nat) (values : Array Float) : Prop where
  size : a.columns.size = rows
  inside : ∀ cell ∈ a.pairs, cell.1 < rows ∧ cell.2 < cols
  finite : ∀ cell ∈ a.pairs, ∃ v, values[cell.1 + rows * cell.2]? = some v ∧ v.isFinite
  columnsApart : (a.pairs.map Prod.snd).Nodup
  unassigned : a.unassigned = (Finset.range rows \ (a.pairs.map Prod.fst).toFinset).card
  assigned : a.assignedCount = .ok a.pairs.length
  complete : (∀ v ∈ values, v.isFinite) → a.pairs.length = min rows cols

theorem pairs_rows_apart (a : Assignment w) : (a.pairs.map Prod.fst).Nodup := by
  rw [pairs, List.map_filterMap]
  apply List.nodup_range.filterMap
  intro row other first member memberToo
  have same (i : Nat) (found : first ∈ ((a.columnOf? i).map (i, ·)).map Prod.fst) : first = i := by
    cases chosen : a.columnOf? i <;> simp_all
  exact (same row member).symm.trans (same other memberToo)

theorem unassigned_rows (a : Assignment w) (rows : Nat) (inside : ∀ cell ∈ a.pairs, cell.1 < rows)
    (counted : a.unassigned + a.pairs.length = rows) :
    a.unassigned = (Finset.range rows \ (a.pairs.map Prod.fst).toFinset).card := by
  have part : (a.pairs.map Prod.fst).toFinset ⊆ Finset.range rows := by
    intro row member
    obtain ⟨cell, paired, rfl⟩ := List.mem_map.mp (List.mem_toFinset.mp member)
    exact Finset.mem_range.mpr (inside cell paired)
  have many : (a.pairs.map Prod.fst).toFinset.card = a.pairs.length := by
    rw [List.toFinset_card_of_nodup (pairs_rows_apart a), List.length_map]
  rw [Finset.card_sdiff_of_subset part, Finset.card_range, many]
  omega

theorem idle_valid (rows cols : Nat) (oneBased : Bool) (values : Array Float)
    (rowsFit : rows < w.max) (size : values.size = rows * cols)
    (nothing : rows = 0 ∨ cols = 0 ∨ values.any Float.isFinite = false) :
    (idle w rows oneBased).Valid rows cols values := by
  have pairs : (idle w rows oneBased).pairs = [] := idle_pairs rows oneBased
  have columns : (idle w rows oneBased).columns.size = rows := (holds_free _ rows oneBased).size
  have unassigned : (idle w rows oneBased).unassigned = rows := by
    simp [idle, free, w.fit_some rows rowsFit.le]
  have counted :
      (idle w rows oneBased).unassigned + (idle w rows oneBased).pairs.length = rows := by
    simp [pairs, unassigned]
  constructor
  case size => exact columns
  case inside => simp [pairs]
  case finite => simp [pairs]
  case columnsApart => simp [pairs]
  case unassigned => exact unassigned_rows _ rows (by simp [pairs]) counted
  case assigned => exact assigned_pairs _ (counted.trans columns.symm)
  case complete =>
    intro finite
    rw [pairs, List.length_nil]
    rcases nothing with none | none | unpriced
    · simp [none]
    · simp [none]
    · by_contra some
      have corner := cell_member values rows cols 0 0 size (by omega) (by omega)
      have priced : values.any Float.isFinite = true :=
        Array.any_eq_true'.mpr ⟨_, corner, finite _ corner⟩
      rw [unpriced] at priced
      cases priced

end Assignment

namespace Board

theorem chosen_columns_apart (b : Board Float) (values : Array Float)
    (independent : b.Independent) : ((b.chosenPairs values).map Prod.snd).Nodup := by
  apply (chosen_nodup b values).map_on
  rintro ⟨row, col⟩ member ⟨other, same⟩ memberToo rfl
  have starred := ((chosen_pair b values independent row col).mp member).1
  have starredToo := ((chosen_pair b values independent other col).mp memberToo).1
  rw [independent.columnOnce row other col starred starredToo]

theorem chosen_complete (b : Board Float) (values : Array Float) (sized : b.Sized)
    (independent : b.Independent) (size : values.size = b.rows * b.cols)
    (finite : ∀ v ∈ values, v.isFinite) : (b.chosenPairs values).length = b.starCount := by
  have all : ∀ cell ∈ b.starCells, (values.getD (cell.1 + b.rows * cell.2) 0).isFinite := by
    rintro ⟨row, col⟩ member
    obtain ⟨insideRow, insideColumn, _⟩ := (star_cell b row col).mp member
    exact finite _ (cell_member values b.rows b.cols row col size insideRow insideColumn)
  rw [star_count_cells b sized, ← List.toFinset_card_of_nodup (chosen_nodup b values),
    chosen_cells b values independent, Finset.filter_true_of_mem all]

theorem board_valid (b : Board Float) (values : Array Float) (a : Assignment w) (sized : b.Sized)
    (independent : b.Independent) (full : b.starCount = b.shorterSide)
    (size : values.size = b.rows * b.cols) (columns : a.columns.size = b.rows)
    (pairs : a.pairs = b.chosenPairs values) (counted : a.unassigned + a.pairs.length = b.rows) :
    a.Valid b.rows b.cols values := by
  have chosen (cell : Nat × Nat) (member : cell ∈ a.pairs) :=
    (chosen_pair b values independent cell.1 cell.2).mp (pairs ▸ member)
  constructor
  case size => exact columns
  case inside => exact fun cell member => ⟨(chosen cell member).1.1, (chosen cell member).1.2.1⟩
  case finite =>
    intro cell member
    obtain ⟨⟨insideRow, insideColumn, _⟩, finite⟩ := chosen cell member
    exact ⟨_, cell_value values b.rows b.cols cell.1 cell.2 size insideRow insideColumn, finite⟩
  case columnsApart =>
    rw [pairs]
    exact chosen_columns_apart b values independent
  case unassigned =>
    exact a.unassigned_rows b.rows (fun cell member => (chosen cell member).1.1) counted
  case assigned => exact a.assigned_pairs (counted.trans columns.symm)
  case complete =>
    intro finite
    rw [pairs, chosen_complete b values sized independent size finite, full, shorterSide]

end Board

namespace Workspace

theorem readied_inverted (options : Options) (rows cols : Nat) (values : Array Float)
    (after : Workspace w) (result : Assignment w)
    (solves : readiedSolve options rows cols values = .ok (after, result)) :
    after.solved = true ∧
      ((result = .idle w rows options.oneBased ∧
          (rows = 0 ∨ cols = 0 ∨ values.any Float.isFinite = false)) ∨
        ∃ start last tally recorded, (Board.loaded options rows cols values).reduce = .ok start ∧
          start.run = .ok (last, tally) ∧
          (Assignment.idle w rows options.oneBased).record last = .ok recorded ∧
          recorded.settle values rows = .ok result) := by
  by_cases none : rows = 0 ∨ cols = 0
  · rw [readiedSolve, if_pos none] at solves
    cases solves
    exact ⟨rfl, Or.inl ⟨rfl, none.elim Or.inl fun none => Or.inr (Or.inl none)⟩⟩
  · rw [readiedSolve, if_neg none] at solves
    obtain ⟨⟨board, priced⟩, loads, solves⟩ := bind_ok _ _ _ solves
    replace loads := map_error_ok _ _ _ loads
    have answer := Board.load_answer options values _ board priced loads
    cases priced with
    | false =>
        cases solves
        exact ⟨rfl, Or.inl ⟨rfl, Or.inr (Or.inr answer.symm)⟩⟩
    | true =>
        obtain ⟨_, _, _, same⟩ := Board.ready_loaded options rows cols values board loads
        subst same
        obtain ⟨⟨last, tally⟩, searched, solves⟩ := bind_ok _ _ _ solves
        obtain ⟨start, reduced, run⟩ := bind_ok _ _ _ (map_error_ok _ _ _ searched)
        obtain ⟨recorded, records, solves⟩ := bind_ok _ _ _ solves
        obtain ⟨settled, settles, solves⟩ := bind_ok _ _ _ solves
        cases solves
        exact ⟨rfl, Or.inr ⟨start, last, tally, recorded, map_error_ok _ _ _ reduced, run,
          map_error_ok _ _ _ records, map_error_ok _ _ _ settles⟩⟩

end Workspace

/-- Whatever the values, a solved table comes with a report whose pairs have finite values and
columns of their own, and which counts the rows without a pair. When all values are finite the pairs
are as many as the shorter side has lines. -/
theorem solve_valid (mem : Memory) (options : Options) (ws after : Workspace w)
    (report result : Assignment w) (rowsFit : ws.problem.rows < w.max)
    (colsFit : ws.problem.cols < w.max)
    (solves : ws.solve mem options report = .ok (after, result)) :
    result.Valid ws.problem.rows ws.problem.cols ws.problem.values ∧ after.solved = true := by
  obtain ⟨prepared, prepares, solves⟩ := bind_ok _ _ _ solves
  obtain ⟨size, ready⟩ := Workspace.prepare_inverted mem options ws report prepared prepares
  subst ready
  generalize ws.problem.rows = rows, ws.problem.cols = cols, ws.problem.values = values at *
  obtain ⟨found, ⟨rfl, nothing⟩ | ⟨start, last, tally, recorded, reduced, run, records, settles⟩⟩ :=
    Workspace.readied_inverted options rows cols values after result solves
  · exact ⟨Assignment.idle_valid rows cols options.oneBased values rowsFit size nothing, found⟩
  · obtain ⟨starring, fresh⟩ :=
      Board.reduced_known _ start (Board.loaded_unmarked options rows cols values size) reduced
    have leads := Stage.run_leads start.phaseBound ⟨.cover, start⟩ {} tally last run
    obtain ⟨searching, _, full⟩ := Stage.leads_sound ⟨.cover, start⟩ ⟨.finished, last⟩ fresh leads
    obtain ⟨rowsKept, colsKept⟩ := Stage.leads_size ⟨.cover, start⟩ ⟨.finished, last⟩ fresh leads
    have lastRows : last.rows = rows := rowsKept.trans starring.rows
    have lastCols : last.cols = cols := colsKept.trans starring.cols
    subst lastRows lastCols
    obtain ⟨known, reported, recordsToo, settlesToo, _, columns, pairs, _, counted⟩ :=
      Assignment.board_reported last values (.idle w last.rows options.oneBased)
        searching.sized.stars size rowsFit colsFit (Assignment.holds_free _ _ _)
    cases records.symm.trans recordsToo
    cases settles.symm.trans settlesToo
    exact ⟨Board.board_valid last values result searching.sized searching.toIndependent full size
      columns pairs counted, found⟩

-- Two rows and three columns, of which the first and the last cell can be paired. The report given
-- is longer and numbered from 1.
def barred : Workspace .bits8 :=
  ⟨⟨2, 3, #[1, Binary64.infinity, 0 / 0, -Binary64.infinity, 0 / 0, 4]⟩, .blank, {}, false⟩

theorem solve_valid_barred : ∃ (after : Workspace .bits8) (result : Assignment .bits8),
    barred.solve ⟨1000⟩ { oneBased := false } ⟨#[3, 1, 2], 0, 0, true⟩ = .ok (after, result) ∧
      result.Valid 2 3 barred.problem.values ∧ after.solved = true := by
  have solved :
      (barred.solve ⟨1000⟩ { oneBased := false } ⟨#[3, 1, 2], 0, 0, true⟩).toOption.isSome =
        true := by
    decide +kernel
  cases solves : barred.solve ⟨1000⟩ { oneBased := false } ⟨#[3, 1, 2], 0, 0, true⟩ with
  | error why =>
      rw [solves] at solved
      cases solved
  | ok out =>
      obtain ⟨after, result⟩ := out
      exact ⟨after, result, rfl, solve_valid ⟨1000⟩ { oneBased := false } barred after _ result
        (by decide) (by decide) solves⟩

end LinearAssignment
