import LinearAssignment.Proofs.Optimality.Table

/-! Costs that are rounded without any bound: some become infinite or no numbers, but none negative,
so that a search that cannot go on is refused and never breaks off. -/

set_option autoImplicit false

namespace LinearAssignment

namespace Board

def Unsigned (b : Board Float) : Prop :=
  ∀ row col, row < b.rows → col < b.cols → (b.costAt row col).isNaN = false →
    Binary64.Nonnegative (b.costAt row col)

theorem shifted_number (b : Board Float) (amount : Float) (row col : Nat)
    (number : (b.shiftedAt amount row col).isNaN = false) : (b.costAt row col).isNaN = false := by
  rw [shiftedAt] at number
  by_cases rowCovered : b.RowCovered row
  · by_cases columnCovered : b.ColumnCovered col
    · simp only [rowCovered, columnCovered, if_true] at number
      exact Binary64.sum_number _ _ number
    · simp only [rowCovered, columnCovered, if_true, if_false] at number
      exact Binary64.sum_number _ _ (Binary64.difference_number _ _ number).1
  · by_cases columnCovered : b.ColumnCovered col
    · simp only [rowCovered, columnCovered, if_true, if_false] at number
      exact number
    · simp only [rowCovered, columnCovered, if_false] at number
      exact (Binary64.difference_number _ _ number).1

theorem shifted_unsigned (b after : Board Float) (least : Float) (shifted : b.Shifted after least)
    (lowest : b.Least least) (finite : least.isFinite) (positive : 0 < least)
    (unsigned : b.Unsigned) : after.Unsigned := by
  intro row col insideRow insideColumn number
  have sizes := shifted_size b after least shifted
  rw [sizes.1] at insideRow
  rw [sizes.2] at insideColumn
  rw [shifted.costs row col insideRow insideColumn] at number ⊢
  have before := unsigned row col insideRow insideColumn (shifted_number b least row col number)
  exact shifted_nonnegative b least lowest finite positive row col insideRow insideColumn before

theorem shift_unfaulted (b : Board Float) (searching : b.Searching) (unsigned : b.Unsigned)
    (missing : b.starCount < b.shorterSide) (absent : ∀ row col, ¬ b.Bare row col) :
    Halt.Unfaulted b.shift := by
  obtain ⟨least, found, lowest⟩ := least_uncovered b searching.sized
  have some : b.rows ≠ 0 := by
    have few : b.shorterSide ≤ b.rows := Nat.min_le_left _ _
    omega
  by_cases finite : least.isFinite
  · cases lowest.origin with
    | inl top =>
        rw [top] at finite
        cases finite
    | inr facts =>
        obtain ⟨row, col, uncovered, same⟩ := facts
        subst same
        have nonnegative :=
          unsigned row col uncovered.1 uncovered.2.1 (Binary64.finite_number _ finite)
        have sign := (Binary64.nonnegative_finite _ finite).mp nonnegative
        have positive := least_positive b searching.sized absent row col uncovered finite sign
        obtain ⟨after, result, _⟩ := shift_ok b searching.sized _ found some finite positive
        exact Halt.unfaulted_ok _ after result
  · have infinite : Cost.isFinite least = false := (Bool.not_eq_true _).mp finite
    apply Halt.unfaulted_refused _ b .nothingUncovered
    simp [shift, demand, require, refuse, found, some, infinite]

end Board

namespace Pricing

open Binary64

-- A difference to the greatest value may overflow, but only upwards.
theorem settled_upwards (options : Options) (values : Array Float) (v : Float) (member : v ∈ values)
    (some : ∃ v ∈ values, v.isFinite) :
    (settledCost options values v).isFinite ∨ Nonnegative (settledCost options values v) := by
  have finitePrice : (price options values).isFinite :=
    (forbidden_finite _ _ (Array.size_pos_of_mem member)).1
  by_cases finite : v.isFinite
  · cases sense : options.maximize with
    | false =>
        rw [settled_taken options values v finite sense]
        exact Or.inl finite
    | true =>
        obtain ⟨finiteGreatest, _, greatest⟩ := greatest_finite values some
        have below : height v ≤ height (greatestFinite values) := by
          rw [height_finite _ finite, height_finite _ finiteGreatest]
          exact_mod_cast greatest v member finite
        have taken := lowered_nonnegative (greatestFinite values) v
          (finite_number _ finiteGreatest) finite below
        simp only [settledCost, sense, finite, Bool.and_self, if_true]
        split
        · exact Or.inr taken
        · exact Or.inl finitePrice
  · rw [settled_nonfinite options values v member (by simpa using finite)]
    exact Or.inl finitePrice

end Pricing

namespace Board

-- A cost is lowered by no more than it is. Only an infinite one can be lowered by as much as
-- infinity.
theorem lowered_unsigned (b : Board Float) (sized : b.Sized)
    (upwards : ∀ row col, row < b.rows → col < b.cols → (b.costAt row col).isFinite ∨
      Binary64.Nonnegative (b.costAt row col)) : b.lowerLines.Unsigned := by
  intro row col insideRow insideColumn number
  change row < b.rows at insideRow
  change col < b.cols at insideColumn
  have numbers (r c : Nat) (insideR : r < b.rows) (insideC : c < b.cols) :
      (b.costAt r c).isNaN = false :=
    (upwards r c insideR insideC).elim (Binary64.finite_number _) (·.1)
  rw [lowered_cost b sized row col insideRow insideColumn] at number ⊢
  have least := least_of_line b sized (b.line row col)
  have lowest := least.lowest row col insideRow insideColumn rfl
  have numberHere := numbers row col insideRow insideColumn
  have top (leastTop : (b.leastOfLine (b.line row col)).toModel.unpack = .infinity .positive) :
      False := by
    have highest := Binary64.infinity_highest _ leastTop
    rw [Binary64.less_iff _ _ numberHere highest.1, highest.2, not_lt, top_le_iff] at lowest
    apply (Binary64.difference_number _ _ number).2
    refine ⟨?_, leastTop⟩
    cases upwards row col insideRow insideColumn with
    | inl finite =>
        rw [Binary64.height_finite _ finite] at lowest
        cases lowest
    | inr nonnegative =>
        cases Binary64.nonnegative_cases _ nonnegative with
        | inl infinite => exact infinite
        | inr facts =>
            rw [Binary64.height_finite _ facts.1] at lowest
            cases lowest
  have finite : (b.leastOfLine (b.line row col)).isFinite := by
    cases least.origin with
    | inl same =>
        rw [same] at top
        exact (top rfl).elim
    | inr facts =>
        obtain ⟨r, c, insideR, insideC, _, same⟩ := facts
        have upwardsThere := upwards r c insideR insideC
        rw [same] at upwardsThere
        cases upwardsThere with
        | inl finite => exact finite
        | inr nonnegative =>
            cases Binary64.nonnegative_cases _ nonnegative with
            | inl infinite => exact (top infinite).elim
            | inr facts => exact facts.1
  rw [Binary64.less_iff _ _ numberHere (Binary64.finite_number _ finite), not_lt] at lowest
  exact Binary64.lowered_nonnegative _ _ numberHere finite lowest

theorem reduced_unsigned (options : Options) (rows cols : Nat) (values : Array Float)
    (start : Board Float) (size : values.size = rows * cols) (priced : values.any Float.isFinite)
    (reduce : (loaded options rows cols values).reduce = .ok start) : start.Unsigned := by
  have unmarked := loaded_unmarked options rows cols values size
  obtain ⟨starring, _⟩ := reduced_known _ start unmarked reduce
  have lowered := lowered_unsigned _ unmarked.sized fun row col insideRow insideColumn => by
    rw [loaded_cost options rows cols values size row col insideRow insideColumn]
    exact Pricing.settled_upwards options values _
      (cell_member values rows cols row col size insideRow insideColumn)
      (Array.any_eq_true'.mp priced)
  intro row col insideRow insideColumn
  have same :
      start.costAt row col = (loaded options rows cols values).lowerLines.costAt row col := by
    rw [costAt, costAt, offset, offset, starring.costs, starring.rows]
  rw [same]
  exact lowered row col (starring.rows ▸ insideRow) (starring.cols ▸ insideColumn)

end Board

namespace Stage

theorem next_unsigned (s t : Stage) (sound : s.Sound) (next : s.Next t)
    (unsigned : s.board.Unsigned) : t.board.Unsigned := by
  by_cases shifts : s.phase = .shift
  · obtain ⟨phase, b⟩ := s
    cases shifts
    obtain ⟨_, result⟩ := shift_step b t next
    obtain ⟨least, _, lowest, finite, positive, shifted⟩ :=
      Board.shift_inverted b t.board sound.1.sized result
    exact Board.shifted_unsigned b t.board least shifted lowest finite positive unsigned
  · have advances := (next_sound s t sound next).2
    intro row col insideRow insideColumn
    rw [advances.rows] at insideRow
    rw [advances.cols] at insideColumn
    have sameCost : t.board.costAt row col = s.board.costAt row col := by
      rw [Board.costAt, Board.costAt, Board.offset, Board.offset, advances.rows,
        advances.costs shifts]
    rw [sameCost]
    exact unsigned row col insideRow insideColumn

theorem step_unfaulted (s : Stage) (sound : s.Sound) (unsigned : s.board.Unsigned) :
    Halt.Unfaulted (s.board.step s.phase) := by
  by_cases shifts : s.phase = .shift
  · obtain ⟨phase, b⟩ := s
    cases shifts
    obtain ⟨searching, missing, absent⟩ := sound
    exact Halt.bind_unfaulted _ _ (b.shift_unfaulted searching unsigned missing absent) fun _ _ =>
      Halt.unfaulted_ok _ _ rfl
  · obtain ⟨t, next⟩ := s.goes_on sound shifts
    exact Halt.unfaulted_ok _ _ next

-- A phase is counted before it is gone through, and a shift that will be refused is counted, too.
theorem count_fits (s : Stage) (shifts : Nat) (tally : Tally) (sound : s.Sound)
    (allowed : s.Allowed shifts) (fewFlips : tally.flips + s.missing < 2 ^ 32)
    (fewShifts : tally.shifts + s.budget shifts < 2 ^ 32) : (tally.count s.phase).fits = true := by
  have further :
      (tally.count s.phase).flips ≤ tally.flips + s.missing ∧
        (tally.count s.phase).shifts ≤ tally.shifts + s.budget shifts := by
    obtain ⟨phase, b⟩ := s
    cases phase with
    | flip row col =>
        have short := sound.2.2.2
        simp only [Tally.count, missing] at short ⊢
        omega
    | shift =>
        have few := Board.covered_rows_starred b sound.1.toDisciplined
        simp only [Allowed, Tally.count, budget] at allowed ⊢
        omega
    | _ => exact ⟨Nat.le_add_right _ _, Nat.le_add_right _ _⟩
  simp only [Tally.fits, UInt32.size, Bool.and_eq_true, decide_eq_true_eq]
  omega

-- The induction is on the phases that the search is allowed, which are no fewer than it may still
-- go through. What it has counted and what it may still count stay within 32 bits together.
theorem run_unfaulted (phases : Nat) (s : Stage) (shifts : Nat) (tally : Tally) (sound : s.Sound)
    (allowed : s.Allowed shifts) (unsigned : s.board.Unsigned) (enough : s.steps shifts ≤ phases)
    (fewFlips : tally.flips + s.missing < 2 ^ 32)
    (fewShifts : tally.shifts + s.budget shifts < 2 ^ 32) :
    Halt.Unfaulted (Board.runFrom phases s.phase tally s.board) := by
  induction phases generalizing s shifts tally with
  | zero => exact Halt.unfaulted_ok _ _ (run_finished 0 s tally (steps_finished s shifts enough))
  | succ n ih =>
      by_cases done : s.phase = .finished
      · exact Halt.unfaulted_ok _ _ (run_finished (n + 1) s tally done)
      · have fits := count_fits s shifts tally sound allowed fewFlips fewShifts
        have opened :
            Board.runFrom (n + 1) s.phase tally s.board =
              s.board.step s.phase >>= fun out =>
                Board.runFrom n out.2 (tally.count s.phase) out.1 := by
          rw [Board.runFrom]
          · simp only [demand, fits, if_true, lift_ok, ok_bind]
          · exact done
        rw [opened]
        apply Halt.bind_unfaulted _ _ (s.step_unfaulted sound unsigned)
        intro out stepped
        have next : s.Next ⟨out.2, out.1⟩ := stepped
        obtain ⟨left, pace⟩ := s.pace ⟨out.2, out.1⟩ shifts sound allowed next done
        have soundThen := (next_sound s _ sound next).1
        have unsignedThen := next_unsigned s _ sound next unsigned
        have fewer := pace.fewer
        have flips := pace.flips tally
        have made := pace.shifts tally
        exact ih ⟨out.2, out.1⟩ left (tally.count s.phase) soundThen pace.allowed unsignedThen
          (by omega) (by omega) (by omega)

theorem search_unfaulted (b : Board Float) (fresh : b.Fresh) (unsigned : b.Unsigned)
    (counters : b.shorterSide * (b.shorterSide + 1) / 2 < 2 ^ 32) : Halt.Unfaulted b.run := by
  have bounded := shifts_from_bound b.starCount b.shorterSide
  have many := side_bound b.shorterSide
  apply run_unfaulted b.phaseBound ⟨.cover, b⟩ 0 {} fresh trivial unsigned (phases_enough b fresh)
  · simp only [missing]
    omega
  · simp only [budget]
    omega

end Stage

end LinearAssignment
