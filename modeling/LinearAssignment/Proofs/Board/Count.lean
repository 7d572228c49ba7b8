import LinearAssignment.Proofs.Board.View

set_option autoImplicit false

namespace LinearAssignment.Board

variable {α : Type}

def starCells (b : Board α) : Finset (Nat × Nat) :=
  (Finset.range b.rows ×ˢ Finset.range b.cols).filter fun cell => b.Starred cell.1 cell.2

def starredRows (b : Board α) : Finset Nat := b.starCells.image Prod.fst

def starredColumns (b : Board α) : Finset Nat := b.starCells.image Prod.snd

def coveredRows (b : Board α) : Finset Nat := (Finset.range b.rows).filter b.RowCovered

structure Independent (b : Board α) : Prop where
  rowOnce : ∀ row col other, b.Starred row col → b.Starred row other → col = other
  columnOnce : ∀ row other col, b.Starred row col → b.Starred other col → row = other

theorem star_cell (b : Board α) (row col : Nat) : (row, col) ∈ b.starCells ↔ b.Starred row col := by
  simp only [starCells, Finset.mem_filter, Finset.mem_product, Finset.mem_range]
  exact ⟨fun member => member.2, fun starred => ⟨⟨starred.1, starred.2.1⟩, starred⟩⟩

theorem starred_row (b : Board α) (row : Nat) : row ∈ b.starredRows ↔ ∃ col, b.Starred row col := by
  simp only [starredRows, Finset.mem_image, Prod.exists, star_cell]
  exact ⟨fun ⟨_, col, starred, same⟩ => ⟨col, same ▸ starred⟩, fun ⟨col, starred⟩ =>
    ⟨row, col, starred, rfl⟩⟩

theorem starred_column (b : Board α) (col : Nat) :
    col ∈ b.starredColumns ↔ ∃ row, b.Starred row col := by
  simp only [starredColumns, Finset.mem_image, Prod.exists, star_cell]
  exact ⟨fun ⟨row, _, starred, same⟩ => ⟨row, same ▸ starred⟩, fun ⟨row, starred⟩ =>
    ⟨row, col, starred, rfl⟩⟩

theorem covered_row (b : Board α) (row : Nat) (sized : b.Sized) :
    row ∈ b.coveredRows ↔ b.RowCovered row := by
  simp only [coveredRows, Finset.mem_filter, Finset.mem_range, and_iff_right_iff_imp]
  intro covered
  obtain ⟨inside, _⟩ := Array.getElem?_eq_some_iff.mp covered
  exact sized.rowCover ▸ inside

theorem star_count_cells (b : Board α) (sized : b.Sized) : b.starCount = b.starCells.card := by
  rw [starCount, flag_count, sized.stars]
  refine Finset.card_bij (fun i _ => b.cellAt i) ?_ ?_ ?_
  · intro i member
    obtain ⟨inside, set⟩ := Finset.mem_filter.mp member
    obtain ⟨row, col, back⟩ := cell_of_position b.rows b.cols i (Finset.mem_range.mp inside)
    rw [cellAt, star_cell]
    exact ⟨row, col, back.symm ▸ set⟩
  · intro i member j memberToo same
    obtain ⟨_, _, back⟩ :=
      cell_of_position b.rows b.cols i (Finset.mem_range.mp (Finset.mem_filter.mp member).1)
    obtain ⟨_, _, backToo⟩ :=
      cell_of_position b.rows b.cols j (Finset.mem_range.mp (Finset.mem_filter.mp memberToo).1)
    obtain ⟨sameRow, sameColumn⟩ := Prod.mk.injEq .. ▸ same
    rw [← back, ← backToo, sameRow, sameColumn]
  · rintro ⟨row, col⟩ member
    obtain ⟨insideRow, insideColumn, set⟩ := (b.star_cell row col).mp member
    have inside := cell_below b.rows b.cols row col insideRow insideColumn
    refine ⟨row + b.rows * col, Finset.mem_filter.mpr ⟨Finset.mem_range.mpr inside, set⟩, ?_⟩
    rw [cellAt, cell_row _ _ _ insideRow, cell_column _ _ _ insideRow]

theorem star_rows_apart (b : Board α) (independent : b.Independent) :
    Set.InjOn Prod.fst (b.starCells : Set (Nat × Nat)) := by
  rintro ⟨row, col⟩ member ⟨other, otherCol⟩ memberToo same
  cases same
  exact congrArg _ (independent.rowOnce row col otherCol ((b.star_cell _ _).mp member)
    ((b.star_cell _ _).mp memberToo))

theorem star_columns_apart (b : Board α) (independent : b.Independent) :
    Set.InjOn Prod.snd (b.starCells : Set (Nat × Nat)) := by
  rintro ⟨row, col⟩ member ⟨other, otherCol⟩ memberToo same
  cases same
  exact congrArg (·, col) (independent.columnOnce row other col ((b.star_cell _ _).mp member)
    ((b.star_cell _ _).mp memberToo))

theorem star_count_rows (b : Board α) (sized : b.Sized) (independent : b.Independent) :
    b.starCount = b.starredRows.card := by
  rw [star_count_cells b sized, starredRows,
    Finset.card_image_of_injOn (star_rows_apart b independent)]

theorem star_count_columns (b : Board α) (sized : b.Sized) (independent : b.Independent) :
    b.starCount = b.starredColumns.card := by
  rw [star_count_cells b sized, starredColumns,
    Finset.card_image_of_injOn (star_columns_apart b independent)]

theorem star_count_bound (b : Board α) (sized : b.Sized) (independent : b.Independent) :
    b.starCount ≤ b.shorterSide := by
  have rowsFit : b.starredRows ⊆ Finset.range b.rows := by
    intro row member
    obtain ⟨col, starred⟩ := (b.starred_row row).mp member
    exact Finset.mem_range.mpr starred.1
  have columnsFit : b.starredColumns ⊆ Finset.range b.cols := by
    intro col member
    obtain ⟨row, starred⟩ := (b.starred_column col).mp member
    exact Finset.mem_range.mpr starred.2.1
  refine le_min ?_ ?_
  · rw [star_count_rows b sized independent]
    simpa using Finset.card_le_card rowsFit
  · rw [star_count_columns b sized independent]
    simpa using Finset.card_le_card columnsFit

theorem covered_column_count (b : Board α) (sized : b.Sized) :
    b.coveredColumnCount = ((Finset.range b.cols).filter b.ColumnCovered).card := by
  rw [coveredColumnCount, flag_count, sized.columnCover]
  rfl

theorem covered_row_count (b : Board α) (sized : b.Sized) :
    b.rowCover.count true = b.coveredRows.card := by
  rw [flag_count, sized.rowCover]
  rfl

theorem free_row (b : Board α) (sized : b.Sized) (independent : b.Independent)
    (missing : b.starCount < b.shorterSide) : ∃ row, row < b.rows ∧ ∀ col, ¬ b.Starred row col := by
  have fewer : b.starredRows.card < (Finset.range b.rows).card := by
    rw [← star_count_rows b sized independent, Finset.card_range]
    exact lt_of_lt_of_le missing (Nat.min_le_left _ _)
  obtain ⟨row, inside, absent⟩ := Finset.exists_mem_notMem_of_card_lt_card fewer
  exact ⟨row, Finset.mem_range.mp inside, fun col starred =>
    absent ((b.starred_row row).mpr ⟨col, starred⟩)⟩

theorem free_column (b : Board α) (sized : b.Sized) (independent : b.Independent)
    (missing : b.starCount < b.shorterSide) : ∃ col, col < b.cols ∧ ∀ row, ¬ b.Starred row col := by
  have fewer : b.starredColumns.card < (Finset.range b.cols).card := by
    rw [← star_count_columns b sized independent, Finset.card_range]
    exact lt_of_lt_of_le missing (Nat.min_le_right _ _)
  obtain ⟨col, inside, absent⟩ := Finset.exists_mem_notMem_of_card_lt_card fewer
  exact ⟨col, Finset.mem_range.mp inside, fun row starred =>
    absent ((b.starred_column col).mpr ⟨row, starred⟩)⟩

end LinearAssignment.Board
