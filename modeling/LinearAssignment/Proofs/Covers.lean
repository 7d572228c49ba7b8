import LinearAssignment.Proofs.Stars

set_option autoImplicit false

namespace LinearAssignment

namespace Board

variable {α : Type} [Cost α]

-- The star in the column of a prime is in a row that was covered before the row of the prime.
theorem prime_unstarred (b : Board α) (disciplined : b.Disciplined) (row col : Nat)
    (primed : b.Primed row col) : ¬ b.Starred row col := by
  intro starred
  obtain ⟨rank, _, falls⟩ := disciplined.ranked
  exact lt_irrefl _ (falls row col row primed starred)

theorem covered_rows_of_stars (b : Board α) (disciplined : b.Disciplined) :
    (b.starCells.filter fun cell => b.RowCovered cell.1).image Prod.fst = b.coveredRows := by
  ext row
  simp only [Finset.mem_image, Finset.mem_filter, Prod.exists, star_cell]
  rw [covered_row b row disciplined.sized]
  constructor
  · rintro ⟨_, col, ⟨_, covered⟩, rfl⟩
    exact covered
  · intro covered
    obtain ⟨⟨col, starred⟩, _⟩ := (disciplined.rowCover row).mp covered
    exact ⟨row, col, ⟨starred, covered⟩, rfl⟩

theorem covered_columns_of_stars (b : Board α) (disciplined : b.Disciplined) :
    (b.starCells.filter fun cell => ¬ b.RowCovered cell.1).image Prod.snd =
      (Finset.range b.cols).filter b.ColumnCovered := by
  ext col
  simp only [Finset.mem_image, Finset.mem_filter, Finset.mem_range, Prod.exists, star_cell]
  rw [disciplined.columnCover col]
  constructor
  · rintro ⟨row, _, ⟨starred, uncovered⟩, rfl⟩
    exact ⟨starred.2.1, row, starred, uncovered⟩
  · rintro ⟨_, row, starred, uncovered⟩
    exact ⟨row, col, ⟨starred, uncovered⟩, rfl⟩

theorem covers_count (b : Board α) (disciplined : b.Disciplined) :
    b.rowCover.count true + b.coveredColumnCount = b.starCount := by
  have rowsApart := (star_rows_apart b disciplined.toIndependent).mono
    (Finset.coe_subset.mpr (Finset.filter_subset (fun cell => b.RowCovered cell.1) b.starCells))
  have columnsApart := (star_columns_apart b disciplined.toIndependent).mono
    (Finset.coe_subset.mpr (Finset.filter_subset (fun cell => ¬ b.RowCovered cell.1) b.starCells))
  calc b.rowCover.count true + b.coveredColumnCount
      = (b.starCells.filter fun cell => b.RowCovered cell.1).card + (b.starCells.filter fun cell =>
          ¬ b.RowCovered cell.1).card := by
        rw [covered_row_count b disciplined.sized, covered_column_count b disciplined.sized,
          ← covered_rows_of_stars b disciplined, ← covered_columns_of_stars b disciplined,
          Finset.card_image_of_injOn rowsApart, Finset.card_image_of_injOn columnsApart]
    _ = b.starCells.card := Finset.card_filter_add_card_filter_not _
    _ = b.starCount := (star_count_cells b disciplined.sized).symm

theorem some_open (b : Board Float) (disciplined : b.Disciplined)
    (missing : b.starCount < b.shorterSide) : ∃ row col, b.Open row col := by
  obtain ⟨row, insideRow, rowFree⟩ := free_row b disciplined.sized disciplined.toIndependent missing
  obtain ⟨col, insideColumn, columnFree⟩ :=
    free_column b disciplined.sized disciplined.toIndependent missing
  exact ⟨row, col, free_open b disciplined row col insideRow insideColumn rowFree columnFree⟩

theorem open_nonzero (b : Board Float) (sized : b.Sized) (absent : ∀ row col, ¬ b.Bare row col)
    (row col : Nat) (uncovered : b.Open row col) : (b.costAt row col == 0) = false := by
  obtain ⟨insideRow, insideColumn, rowOpen, columnOpen⟩ := uncovered
  by_contra zero
  have isZero := (Bool.not_eq_false _).mp zero
  exact absent row col ⟨(zero_cost b row col sized).mpr ⟨insideRow, insideColumn, isZero⟩,
    rowOpen, columnOpen⟩

end Board

/-- Once the columns of stars are covered, a row is covered if it has a star and a prime, and a
column if it has a star whose row is not covered; there are as many covers as stars. A shift is
asked for only when costs are uncovered but none of them is zero. -/
theorem covers_invariant (options : Options) (rows cols : Nat) (values : Array Float)
    (start : Board Float) (prepared : Board.Prepared options rows cols values start) (s : Stage)
    (reached : Stage.Reached start s) (covered : s.phase ≠ .cover) :
    (∀ row, s.board.RowCovered row ↔
        (∃ col, s.board.Starred row col) ∧ ∃ col, s.board.Primed row col) ∧
      (∀ col, s.board.ColumnCovered col ↔
        ∃ row, s.board.Starred row col ∧ ¬ s.board.RowCovered row) ∧
      (∀ row col other, s.board.Primed row col → s.board.Primed row other → col = other) ∧
      (∀ row col, s.board.Primed row col →
        ¬ s.board.Starred row col ∧ (s.board.costAt row col == 0) = true ∧
          ¬ s.board.ColumnCovered col) ∧
      s.board.rowCover.count true + s.board.coveredColumnCount = s.board.starCount ∧
      (s.phase = .check →
        s.board.coveredColumnCount = s.board.starCount ∧ ∃ next, s.board.check = .ok next) ∧
      (s.phase = .shift →
        (∀ row col, s.board.Open row col → (s.board.costAt row col == 0) = false) ∧
          ∃ row col, s.board.Open row col) := by
  obtain ⟨sound, _, _⟩ := Stage.reached_side options rows cols values start prepared s reached
  have disciplined := Stage.sound_disciplined s sound covered
  have counted := Board.covers_count s.board disciplined
  refine ⟨disciplined.rowCover, disciplined.columnCover, disciplined.primeOnce,
    fun row col primed => ?primes, counted, fun pending => ?check, fun pending => ?shift⟩
  case primes =>
    have zero :=
      (Board.zero_cost s.board row col disciplined.sized).mp (disciplined.primeZero row col primed)
    exact ⟨Board.prime_unstarred s.board disciplined row col primed, zero.2.2,
      disciplined.primeOpen row col primed⟩
  case check =>
    obtain ⟨phase, b⟩ := s
    cases pending
    obtain ⟨searching, fresh⟩ := sound
    have none : b.rowCover.count true = 0 := by
      rw [Board.covered_row_count b fresh.sized, Finset.card_eq_zero, Board.coveredRows,
        Finset.filter_eq_empty_iff]
      exact fun row _ => fresh.uncovered row
    simp only [none, Nat.zero_add] at counted
    exact ⟨counted, _, Board.check_fresh b searching fresh⟩
  case shift =>
    obtain ⟨phase, b⟩ := s
    cases pending
    obtain ⟨searching, missing, absent⟩ := sound
    exact ⟨Board.open_nonzero b searching.sized absent,
      Board.some_open b searching.toDisciplined missing⟩

theorem covers_invariant_before_flip :
    ∃ start b, Board.Prepared {} 2 2 #[1, 2, 2, 4] start ∧ Stage.Reached start ⟨.flip 1 0, b⟩ ∧
      (∀ row, b.RowCovered row ↔ (∃ col, b.Starred row col) ∧ ∃ col, b.Primed row col) ∧
      (∀ col, b.ColumnCovered col ↔ ∃ row, b.Starred row col ∧ ¬ b.RowCovered row) ∧
      (∀ row col other, b.Primed row col → b.Primed row other → col = other) ∧
      (∀ row col, b.Primed row col →
        ¬ b.Starred row col ∧ (b.costAt row col == 0) = true ∧ ¬ b.ColumnCovered col) ∧
      b.rowCover.count true + b.coveredColumnCount = b.starCount := by
  obtain ⟨start, prepared, _⟩ := Board.square_prepared
  obtain ⟨b, reached⟩ := Stage.prepared_visit {} 2 2 #[1, 2, 2, 4] start prepared 4 (.flip 1 0)
    (by decide +kernel)
  obtain ⟨rowCover, columnCover, primeOnce, primes, counted, _⟩ :=
    covers_invariant {} 2 2 #[1, 2, 2, 4] start prepared ⟨.flip 1 0, b⟩ reached (by simp)
  exact ⟨start, b, prepared, reached, rowCover, columnCover, primeOnce, primes, counted⟩

end LinearAssignment
