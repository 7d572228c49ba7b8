import LinearAssignment.Proofs.Covers

set_option autoImplicit false

namespace LinearAssignment

namespace Board

variable {α : Type} [Cost α]

-- No prime on the path has a star before the flip, so that on the path primes and stars change
-- places.
theorem swapped_cells (b after : Board α) (row col : Nat) (route : Route)
    (disciplined : b.Disciplined) (alternating : b.Alternating row col route)
    (swapped : b.Swapped after route) :
    after.starCells = symmDiff b.starCells (route.primes ++ route.stars).toFinset := by
  ext ⟨r, c⟩
  have turned : (r, c) ∈ route.primes → ¬ b.Starred r c := fun member =>
    prime_unstarred b disciplined r c (alternating.primed (r, c) member)
  have lifted : (r, c) ∈ route.stars → b.Starred r c :=
    fun member => alternating.starred (r, c) member
  rw [star_cell, swapped r c, Finset.mem_symmDiff, star_cell, List.mem_toFinset, List.mem_append]
  tauto

end Board

/-- A flip comes to an end, having visited one alternating path from the prime asked for to a column
without a star. The stars after it are the symmetric difference of the stars before and the path,
independent zeros again and one more than before. -/
theorem flip_turns_path (options : Options) (rows cols : Nat) (values : Array Float)
    (start : Board Float) (prepared : Board.Prepared options rows cols values start) (s : Stage)
    (reached : Stage.Reached start s) (row col : Nat) (pending : s.phase = .flip row col) :
    ∃ route after, s.board.route row col = .ok (route, after) ∧ s.board.flip row col = .ok after ∧
      s.Next ⟨.cover, after⟩ ∧ s.board.Alternating row col route ∧
      after.starCells = symmDiff s.board.starCells (route.primes ++ route.stars).toFinset ∧
      (∀ r c other, after.Starred r c → after.Starred r other → c = other) ∧
      (∀ r other c, after.Starred r c → after.Starred other c → r = other) ∧
      (∀ r c, after.Starred r c → (after.costAt r c == 0) = true) ∧
      after.starCount = s.board.starCount + 1 ∧ (∀ c, ¬ s.board.Starred row c) ∧
      (∀ r, (∃ c, after.Starred r c) ↔ r = row ∨ ∃ c, s.board.Starred r c) ∧
      (∃ last, (∀ r, ¬ s.board.Starred r last) ∧
        ∀ c, (∃ r, after.Starred r c) ↔ c = last ∨ ∃ r, s.board.Starred r c) ∧
      (∀ r c, ¬ after.Primed r c) ∧ (∀ r, ¬ after.RowCovered r) ∧ after.rows = s.board.rows ∧
      after.cols = s.board.cols ∧ after.costs = s.board.costs := by
  obtain ⟨sound, _⟩ := Stage.reached_side options rows cols values start prepared s reached
  obtain ⟨phase, b⟩ := s
  cases pending
  obtain ⟨disciplined, primed, starless, _⟩ := sound
  obtain ⟨route, after, routed, alternating, swapped, fresh, sameRows, sameCols, sameCosts⟩ :=
    Board.route_outcome b row col disciplined primed starless
  have changed :=
    Board.swapped_flipped b after row col route alternating swapped fresh.toIndependent fresh.sized
  have flipped : b.flip row col = .ok after := by
    rw [Board.route_flips, routed]
    rfl
  have stepped : b.step (.flip row col) = .ok (after, .cover) := by simp [Board.step, flipped]
  refine ⟨route, after, routed, flipped, stepped, alternating,
    Board.swapped_cells b after row col route disciplined alternating swapped, fresh.rowOnce,
    fresh.columnOnce, fun r c starred => ?zeros,
    Board.flipped_count b after row disciplined.toMatched changed starless, starless,
    changed.starredRows, Board.swapped_columns b after row col route alternating swapped,
    fresh.unprimed, fresh.uncovered, sameRows, sameCols, sameCosts⟩
  case zeros => exact ((Board.zero_cost after r c fresh.sized).mp (fresh.starZero r c starred)).2.2

theorem flip_turns_path_after_shift :
    ∃ start b, Board.Prepared {} 2 2 #[1, 2, 2, 4] start ∧ Stage.Reached start ⟨.flip 1 0, b⟩ ∧
      ∃ route after, b.route 1 0 = .ok (route, after) ∧ b.flip 1 0 = .ok after ∧
        b.Alternating 1 0 route ∧
        after.starCells = symmDiff b.starCells (route.primes ++ route.stars).toFinset ∧
        after.starCount = b.starCount + 1 := by
  obtain ⟨start, prepared, _⟩ := Board.square_prepared
  obtain ⟨b, reached⟩ := Stage.prepared_visit {} 2 2 #[1, 2, 2, 4] start prepared 4 (.flip 1 0)
    (by decide +kernel)
  obtain ⟨route, after, routed, flipped, _, alternating, cells, _, _, _, counted, _⟩ :=
    flip_turns_path {} 2 2 #[1, 2, 2, 4] start prepared ⟨.flip 1 0, b⟩ reached 1 0 rfl
  exact ⟨start, b, prepared, reached, route, after, routed, flipped, alternating, cells, counted⟩

end LinearAssignment
