import LinearAssignment.Proofs.Phase.Run

set_option autoImplicit false

namespace LinearAssignment

namespace Stage

theorem reached_side (options : Options) (rows cols : Nat) (values : Array Float)
    (start : Board Float) (prepared : Board.Prepared options rows cols values start) (s : Stage)
    (reached : Reached start s) : s.Sound ∧ s.board.rows = rows ∧ s.board.cols = cols := by
  obtain ⟨starring, fresh⟩ := Board.prepared_fresh options rows cols values start prepared
  obtain ⟨rowsKept, colsKept⟩ := leads_size ⟨.cover, start⟩ s fresh reached
  exact ⟨leads_sound ⟨.cover, start⟩ s fresh reached, rowsKept.trans starring.rows,
    colsKept.trans starring.cols⟩

theorem sound_short (s : Stage) (sound : s.Sound)
    (pending : s.phase = .search ∨ s.phase = .shift ∨ ∃ row col, s.phase = .flip row col) :
    s.board.starCount < s.board.shorterSide := by
  obtain ⟨phase, b⟩ := s
  rcases pending with same | same | ⟨row, col, same⟩
  · cases same
    exact sound.2
  · cases same
    exact sound.2.1
  · cases same
    exact sound.2.2.2

end Stage

/-- At every stage stars are independent zeros, and a line with a star has one at every later stage.
The search finishes exactly when they are as many as the shorter side has lines. -/
theorem stars_invariant (options : Options) (rows cols : Nat) (values : Array Float)
    (start : Board Float) (prepared : Board.Prepared options rows cols values start) (s : Stage)
    (reached : Stage.Reached start s) :
    (∀ row col other, s.board.Starred row col → s.board.Starred row other → col = other) ∧
      (∀ row other col, s.board.Starred row col → s.board.Starred other col → row = other) ∧
      (∀ row col, s.board.Starred row col → (s.board.costAt row col == 0) = true) ∧
      (∀ t, s.Leads t →
        (∀ row, (∃ col, s.board.Starred row col) → ∃ col, t.board.Starred row col) ∧
          ∀ col, (∃ row, s.board.Starred row col) → ∃ row, t.board.Starred row col) ∧
      (∀ t, s.Next t →
        (∀ row col, s.phase = .flip row col → t.board.starCount = s.board.starCount + 1) ∧
          ((∀ row col, s.phase ≠ .flip row col) → t.board.stars = s.board.stars)) ∧
      (s.phase = .check →
        s.board.step .check =
          .ok (s.board, if s.board.starCount = min rows cols then .finished else .search)) ∧
      (∀ t, s.Next t →
        (t.phase = .finished ↔
          (s.phase = .check ∨ s.phase = .finished) ∧ s.board.starCount = min rows cols)) ∧
      (s.phase = .search ∨ s.phase = .shift ∨ (∃ row col, s.phase = .flip row col) →
        s.board.starCount < min rows cols) := by
  obtain ⟨sound, sameRows, sameCols⟩ :=
    Stage.reached_side options rows cols values start prepared s reached
  have matched := Stage.sound_matched s sound
  have side : s.board.shorterSide = min rows cols := by rw [Board.shorterSide, sameRows, sameCols]
  rw [← side]
  refine ⟨matched.rowOnce, matched.columnOnce, fun row col starred => ?_,
    fun t leads => Stage.leads_keeps_lines s t sound leads, fun t next => ?_, fun pending =>
      ?_, fun t next => Stage.next_finished s t sound next, Stage.sound_short s sound⟩
  · exact
      ((Board.zero_cost s.board row col matched.sized).mp (matched.starZero row col starred)).2.2
  · obtain ⟨_, advances⟩ := Stage.next_sound s t sound next
    exact ⟨advances.flips, advances.others⟩
  · obtain ⟨phase, b⟩ := s
    simp only at pending
    subst pending
    exact Stage.check_step b sound.1 sound.2

theorem stars_invariant_when_finished :
    ∃ start last, Board.Prepared {} 2 2 #[1, 2, 2, 4] start ∧
      Stage.Reached start ⟨.finished, last⟩ ∧
      (∀ row col other, last.Starred row col → last.Starred row other → col = other) ∧
      (∀ row other col, last.Starred row col → last.Starred other col → row = other) ∧
      ∀ row col, last.Starred row col → (last.costAt row col == 0) = true := by
  obtain ⟨start, prepared, _, finite⟩ := Board.square_prepared
  obtain ⟨last, _, _, reached, _⟩ :=
    Stage.prepared_finishes {} 2 2 #[1, 2, 2, 4] start prepared finite (by decide)
  obtain ⟨rowOnce, columnOnce, zeros, _⟩ :=
    stars_invariant {} 2 2 #[1, 2, 2, 4] start prepared ⟨.finished, last⟩ reached
  exact ⟨start, last, prepared, reached, rowOnce, columnOnce, zeros⟩

end LinearAssignment
