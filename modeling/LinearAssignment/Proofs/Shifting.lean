import LinearAssignment.Proofs.Covers
import LinearAssignment.Proofs.Phase.Run

set_option autoImplicit false

namespace LinearAssignment

namespace Board

theorem priced_at_least_zero (b : Board Float) (priced : b.Priced) (row col : Nat)
    (insideRow : row < b.rows) (insideColumn : col < b.cols) : 0 ≤ b.costAt row col := by
  obtain ⟨number, sign⟩ := priced.nonnegative row col insideRow insideColumn
  rw [Binary64.at_most_iff 0 _ (Binary64.finite_number 0 Binary64.finite_zero) number]
  exact sign

theorem least_at_most (b : Board Float) (priced : b.Priced) (least : Float) (lowest : b.Least least)
    (finite : least.isFinite) (row col : Nat) (uncovered : b.Open row col) :
    least ≤ b.costAt row col := by
  have nonneg := priced.nonnegative row col uncovered.1 uncovered.2.1
  rw [Binary64.at_most_iff least _ (Binary64.finite_number least finite) nonneg.1]
  exact least_below b least lowest finite row col uncovered nonneg

theorem shifted_not_grown (b after : Board Float) (priced : b.Priced) (pricedAfter : after.Priced)
    (least : Float) (shifted : b.Shifted after least) (finite : least.isFinite)
    (positive : 0 < least) (row col : Nat) (uncovered : b.Open row col) :
    after.costAt row col ≤ b.costAt row col := by
  obtain ⟨rows, cols⟩ := shifted_size b after least shifted
  have nonneg := priced.nonnegative row col uncovered.1 uncovered.2.1
  have numberAfter :=
    (pricedAfter.nonnegative row col (rows ▸ uncovered.1) (cols ▸ uncovered.2.1)).1
  have sign := (Binary64.positive_iff least finite).mp positive
  have lowered : after.costAt row col = b.costAt row col - least := by
    rw [shifted.costs row col uncovered.1 uncovered.2.1, shiftedAt, if_neg uncovered.2.2.1,
      if_neg uncovered.2.2.2]
    rfl
  rw [Binary64.at_most_iff _ _ numberAfter nonneg.1, lowered]
  exact Binary64.lowered_at_most _ least nonneg finite sign.le

theorem shifted_marks_zero (b after : Board Float) (least : Float) (shifted : b.Shifted after least)
    (finite : least.isFinite) (searching : b.Searching) (row col : Nat)
    (marked : b.Starred row col ∨ b.Primed row col) : (after.costAt row col == 0) = true := by
  have searchingAfter := shifted_searching b after least shifted finite searching
  obtain ⟨sameStar, samePrime⟩ := shifted_marks b after least shifted row col
  have zero : after.Zero row col := by
    cases marked with
    | inl starred => exact searchingAfter.starZero row col (sameStar.mpr starred)
    | inr primed => exact searchingAfter.primeZero row col (samePrime.mpr primed)
  exact ((zero_cost after row col shifted.sized).mp zero).2.2

end Board

/-- On costs that start out finite no cost is ever negative. A shift finds a least uncovered cost
that is finite and positive, leaves zeros under stars and primes, and uncovers a zero. -/
theorem costs_invariant (options : Options) (rows cols : Nat) (values : Array Float)
    (start : Board Float) (prepared : Board.Prepared options rows cols values start)
    (finite : ∀ cost ∈ start.costs, cost.isFinite) (s : Stage) (reached : Stage.Reached start s) :
    (∀ row col, row < rows → col < cols → 0 ≤ s.board.costAt row col) ∧
      (s.phase = .shift →
        ∃ least after, s.board.leastUncovered = .ok least ∧ least.isFinite ∧ 0 < least ∧
          (∃ row col, s.board.Open row col ∧ s.board.costAt row col = least) ∧
          (∀ row col, s.board.Open row col → least ≤ s.board.costAt row col) ∧
          s.Next ⟨.search, after⟩ ∧
          (∀ row col, s.board.Starred row col ∨ s.board.Primed row col →
            (after.costAt row col == 0) = true) ∧
          (∀ row col, s.board.Open row col → after.costAt row col ≤ s.board.costAt row col) ∧
          (∃ row col, s.board.Open row col ∧ (after.costAt row col == 0) = true) ∧
          after = { s.board with costs := after.costs }) := by
  obtain ⟨_, fresh⟩ := Board.prepared_fresh options rows cols values start prepared
  obtain ⟨sound, sameRows, sameCols⟩ :=
    Stage.reached_side options rows cols values start prepared s reached
  have pricedStart := Board.prepared_priced options rows cols values start prepared finite
  have priced := Stage.leads_priced ⟨.cover, start⟩ s fresh pricedStart reached
  refine ⟨fun row col insideRow insideColumn => ?nonnegative, fun pending => ?shift⟩
  case nonnegative =>
    exact Board.priced_at_least_zero s.board priced row col (sameRows ▸ insideRow)
      (sameCols ▸ insideColumn)
  case shift =>
    obtain ⟨phase, b⟩ := s
    cases pending
    obtain ⟨searching, missing, absent⟩ := sound
    obtain ⟨after, least, result, found, lowest, shifted, finiteLeast, positive, pricedAfter, row,
      col, uncovered, same, bare⟩ := Board.shift_progress b searching priced missing absent
    have stepped : b.step .shift = .ok (after, .search) := by simp [Board.step, result]
    have zero := ((Board.zero_cost after row col shifted.sized).mp bare.1).2.2
    exact ⟨least, after, found, finiteLeast, positive, ⟨row, col, uncovered, same⟩,
      Board.least_at_most b priced least lowest finiteLeast, stepped,
      Board.shifted_marks_zero b after least shifted finiteLeast searching,
      Board.shifted_not_grown b after priced pricedAfter least shifted finiteLeast positive,
      ⟨row, col, uncovered, zero⟩, shifted.frame⟩

theorem costs_invariant_before_shift :
    ∃ start b, Board.Prepared {} 2 2 #[1, 2, 2, 4] start ∧ (∀ cost ∈ start.costs, cost.isFinite) ∧
      Stage.Reached start ⟨.shift, b⟩ ∧ (∀ row col, row < 2 → col < 2 → 0 ≤ b.costAt row col) ∧
      ∃ least after, b.leastUncovered = .ok least ∧ least.isFinite ∧ 0 < least ∧
        b.step .shift = .ok (after, .search) ∧
        (∀ row col, b.Starred row col ∨ b.Primed row col → (after.costAt row col == 0) = true) ∧
        ∃ row col, b.Open row col ∧ (after.costAt row col == 0) = true := by
  obtain ⟨start, prepared, _, finite⟩ := Board.square_prepared
  obtain ⟨b, reached⟩ :=
    Stage.prepared_visit {} 2 2 #[1, 2, 2, 4] start prepared 2 .shift (by decide +kernel)
  obtain ⟨nonnegative, progress⟩ :=
    costs_invariant {} 2 2 #[1, 2, 2, 4] start prepared finite ⟨.shift, b⟩ reached
  obtain ⟨least, after, found, finiteLeast, positive, _, _, stepped, zeros, _, uncovered, _⟩ :=
    progress rfl
  exact ⟨start, b, prepared, finite, reached, nonnegative, least, after, found, finiteLeast,
    positive, stepped, zeros, uncovered⟩

end LinearAssignment
