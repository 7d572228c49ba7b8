import LinearAssignment.Proofs.Covers
import LinearAssignment.Proofs.Optimality.Search

set_option autoImplicit false

namespace LinearAssignment

namespace Board

structure ZerosApart (b : Board Float) (cells : Finset (Nat × Nat)) :
    Prop extends Matching b.rows b.cols cells where
  zero : ∀ cell ∈ cells, (b.costAt cell.1 cell.2 == 0) = true

structure Maximal (b : Board Float) : Prop where
  stars : b.ZerosApart b.starCells
  most : ∀ cells, b.ZerosApart cells → cells.card ≤ b.starCells.card

theorem stars_zeros_apart (b : Board Float) (matched : b.Matched) : b.ZerosApart b.starCells where
  toMatching := Stage.star_matching b matched.toIndependent
  zero := by
    rintro ⟨row, col⟩ member
    have starred := (b.star_cell row col).mp member
    exact ((zero_cost b row col matched.sized).mp (matched.starZero row col starred)).2.2

theorem zeros_apart_kept (b other : Board Float) (rows : other.rows = b.rows)
    (cols : other.cols = b.cols) (costs : other.costs = b.costs) (cells : Finset (Nat × Nat))
    (zeros : b.ZerosApart cells) : other.ZerosApart cells where
  toMatching := by
    rw [rows, cols]
    exact zeros.toMatching
  zero := by
    intro cell member
    rw [same_costs b other rows costs]
    exact zeros.zero cell member

theorem agrees_maximal (b other : Board Float) (agrees : b.Agrees other) :
    other.Maximal ↔ b.Maximal := by
  have sameCells : other.starCells = b.starCells := by
    ext ⟨row, col⟩
    rw [star_cell, star_cell, agrees_starred b other agrees]
  have sameZeros (cells : Finset (Nat × Nat)) : other.ZerosApart cells ↔ b.ZerosApart cells :=
    ⟨zeros_apart_kept other b agrees.rows.symm agrees.cols.symm agrees.costs.symm cells,
      zeros_apart_kept b other agrees.rows agrees.cols agrees.costs cells⟩
  constructor
  · rintro ⟨stars, most⟩
    simp only [sameCells, sameZeros] at stars most
    exact ⟨stars, most⟩
  · rintro ⟨stars, most⟩
    simp only [← sameCells, ← sameZeros] at stars most
    exact ⟨stars, most⟩

theorem covered_bound (b : Board Float) (sized : b.Sized) (cells : Finset (Nat × Nat))
    (matching : Matching b.rows b.cols cells)
    (covered : ∀ cell ∈ cells, b.RowCovered cell.1 ∨ b.ColumnCovered cell.2) :
    cells.card ≤ b.rowCover.count true + b.coveredColumnCount := by
  have rowsUnder : (cells.filter fun cell => b.RowCovered cell.1).card ≤ b.rowCover.count true := by
    rw [covered_row_count b sized, ← (matching.part _ (Finset.filter_subset _ _)).card_rows]
    refine Finset.card_le_card fun row member => ?_
    obtain ⟨cell, chosen, rfl⟩ := Finset.mem_image.mp member
    exact (covered_row b cell.1 sized).mpr (Finset.mem_filter.mp chosen).2
  have columnsUnder :
      (cells.filter fun cell => ¬ b.RowCovered cell.1).card ≤ b.coveredColumnCount := by
    rw [covered_column_count b sized, ← (matching.part _ (Finset.filter_subset _ _)).card_columns]
    refine Finset.card_le_card fun col member => ?_
    obtain ⟨cell, chosen, rfl⟩ := Finset.mem_image.mp member
    obtain ⟨inside, uncovered⟩ := Finset.mem_filter.mp chosen
    exact Finset.mem_filter.mpr ⟨Finset.mem_range.mpr (matching.inside cell inside).2,
      (covered cell inside).resolve_left uncovered⟩
  calc cells.card = (cells.filter fun cell => b.RowCovered cell.1).card + (cells.filter fun cell =>
    ¬ b.RowCovered cell.1).card :=
        (Finset.card_filter_add_card_filter_not _).symm
    _ ≤ b.rowCover.count true + b.coveredColumnCount := Nat.add_le_add rowsUnder columnsUnder

theorem zero_covered (b : Board Float) (absent : ∀ row col, ¬ b.Bare row col) (row col : Nat)
    (zero : b.Zero row col) : b.RowCovered row ∨ b.ColumnCovered col := by
  by_contra uncovered
  obtain ⟨rowOpen, columnOpen⟩ := not_or.mp uncovered
  exact absent row col ⟨zero, rowOpen, columnOpen⟩

theorem covered_maximal (b : Board Float) (disciplined : b.Disciplined)
    (absent : ∀ row col, ¬ b.Bare row col) : b.Maximal := by
  refine ⟨stars_zeros_apart b disciplined.toMatched, fun cells zeros => ?_⟩
  rw [← star_count_cells b disciplined.sized, ← covers_count b disciplined]
  refine covered_bound b disciplined.sized cells zeros.toMatching fun cell member => ?_
  obtain ⟨insideRow, insideColumn⟩ := zeros.inside cell member
  exact zero_covered b absent cell.1 cell.2
    ((zero_cost b _ _ disciplined.sized).mpr ⟨insideRow, insideColumn, zeros.zero cell member⟩)

theorem loose_not_maximal (b : Board Float) (row col : Nat) (searching : b.Searching)
    (loose : b.Loose row col) : ¬ b.Maximal := by
  intro maximal
  have primed :=
    (prime_primed b row col searching.sized loose.bare.1.1 loose.bare.1.2.1 row col).mpr
      (Or.inl ⟨rfl, rfl⟩)
  have disciplined := prime_disciplined b row col searching loose.bare loose.starless
  obtain ⟨after, _, fresh, flipped, rows, cols, costs⟩ :=
    flip_outcome (b.prime row col) row col disciplined primed loose.starless
  have more :=
    flipped_count (b.prime row col) after row disciplined.toMatched flipped loose.starless
  have few :=
    maximal.most after.starCells
      (zeros_apart_kept after b rows.symm cols.symm costs.symm _
      (stars_zeros_apart after fresh.toMatched))
  rw [← star_count_cells after fresh.sized, ← star_count_cells b searching.sized, more] at few
  exact absurd few (Nat.not_succ_le_self _)

end Board

/-- A search for zeros asks for a shift exactly when no zeros apart are more than the stars, and
otherwise for a path to be flipped, from a primed zero in an uncovered row without a star. -/
theorem search_decides_maximum (options : Options) (rows cols : Nat) (values : Array Float)
    (start : Board Float) (prepared : Board.Prepared options rows cols values start) (s : Stage)
    (reached : Stage.Reached start s) (pending : s.phase = .search) :
    ∃ found next, s.board.search = .ok (found, next) ∧ s.board.Agrees found ∧
      (next = .shift ↔ s.board.Maximal) ∧
      (next = .shift →
        (∀ row col, row < rows → col < cols → (found.costAt row col == 0) = true →
            found.RowCovered row ∨ found.ColumnCovered col) ∧
          found.rowCover.count true + found.coveredColumnCount = found.starCount) ∧
      (next ≠ .shift →
        ∃ row col, next = .flip row col ∧ found.Primed row col ∧
          (found.costAt row col == 0) = true ∧ ¬ found.RowCovered row ∧
          (∀ c, ¬ found.Starred row c) ∧ ¬ found.ColumnCovered col) := by
  obtain ⟨sound, sameRows, sameCols⟩ :=
    Stage.reached_side options rows cols values start prepared s reached
  obtain ⟨phase, b⟩ := s
  cases pending
  simp only at sameRows sameCols
  obtain ⟨found, agrees, searching, _, ⟨result, absent⟩ | ⟨row, col, loose, result⟩⟩ :=
    Board.search_outcome b sound.1
  · have maximal := Board.covered_maximal found searching.toDisciplined absent
    refine ⟨found, .shift, result, agrees,
      iff_of_true rfl ((Board.agrees_maximal b found agrees).mp maximal), fun _ => ⟨?_, ?_⟩,
      fun other => absurd rfl other⟩
    · intro row col insideRow insideColumn zero
      refine Board.zero_covered found absent row col
        ((Board.zero_cost found row col searching.sized).mpr ⟨?_, ?_, zero⟩)
      · rwa [agrees.rows, sameRows]
      · rwa [agrees.cols, sameCols]
    · exact Board.covers_count found searching.toDisciplined
  · have missing := Board.loose_not_maximal found row col searching loose
    rw [Board.agrees_maximal b found agrees] at missing
    have inside := loose.bare.1
    have turns : Phase.flip row col ≠ .shift := by simp
    refine ⟨found.prime row col, .flip row col, result,
      ⟨agrees.rows, agrees.cols, agrees.costs, agrees.stars⟩, iff_of_false turns missing,
      fun shift => absurd shift turns, fun _ =>
        ⟨row, col, rfl, ?_, ?_, loose.bare.2.1, loose.starless, loose.bare.2.2⟩⟩
    · exact (Board.prime_primed found row col searching.sized inside.1 inside.2.1 row col).mpr
        (Or.inl ⟨rfl, rfl⟩)
    · exact ((Board.zero_cost found row col searching.sized).mp inside).2.2

theorem search_decides_maximum_after_shift :
    ∃ start b, Board.Prepared {} 2 2 #[1, 2, 2, 4] start ∧ Stage.Reached start ⟨.search, b⟩ ∧
      ∃ found next, b.search = .ok (found, next) ∧ b.Agrees found ∧
        (next = .shift ↔ b.Maximal) := by
  obtain ⟨start, prepared, _⟩ := Board.square_prepared
  obtain ⟨b, reached⟩ :=
    Stage.prepared_visit {} 2 2 #[1, 2, 2, 4] start prepared 3 .search (by decide +kernel)
  obtain ⟨found, after, result, agrees, decided, _⟩ :=
    search_decides_maximum {} 2 2 #[1, 2, 2, 4] start prepared ⟨.search, b⟩ reached rfl
  exact ⟨start, b, prepared, reached, found, after, result, agrees, decided⟩

end LinearAssignment
