import LinearAssignment.Proofs.Phase.Pace

set_option autoImplicit false

namespace LinearAssignment

namespace Stage

def Ready (s : Stage) (shifts : Nat) : Prop := s.Sound ∧ s.board.Priced ∧ s.Allowed shifts

structure Progress (s t : Stage) (shifts left : Nat) : Prop extends Pace s t shifts left where
  next : s.Next t
  ready : t.Ready left

theorem advances_priced (s t : Stage) (advances : s.Advances t) (still : s.phase ≠ .shift)
    (priced : s.board.Priced) : t.board.Priced := by
  have sameCost (row col : Nat) : t.board.costAt row col = s.board.costAt row col := by
    rw [Board.costAt, Board.costAt, Board.offset, Board.offset, advances.rows, advances.costs still]
  constructor
  all_goals intro row col insideRow insideColumn
  case nonnegative =>
    rw [sameCost]
    exact priced.nonnegative row col (advances.rows ▸ insideRow) (advances.cols ▸ insideColumn)
  case freeFinite =>
    intro rowFree columnFree
    rw [sameCost]
    apply priced.freeFinite row col (advances.rows ▸ insideRow) (advances.cols ▸ insideColumn)
    · intro c starred
      obtain ⟨other, starredThen⟩ := advances.starredRows row ⟨c, starred⟩
      exact rowFree other starredThen
    · intro r starred
      obtain ⟨other, starredThen⟩ := advances.starredColumns col ⟨r, starred⟩
      exact columnFree other starredThen

theorem priced_next (s : Stage) (sound : s.Sound) (priced : s.board.Priced) :
    ∃ t, s.Next t ∧ t.board.Priced := by
  by_cases shifts : s.phase = .shift
  · obtain ⟨phase, b⟩ := s
    cases shifts
    obtain ⟨searching, short, absent⟩ := sound
    obtain ⟨after, least, result, _, _, _, _, _, pricedAfter, _⟩ :=
      Board.shift_progress b searching priced short absent
    have stepped : b.step .shift = .ok (after, .search) := by simp [Board.step, result]
    exact ⟨⟨.search, after⟩, stepped, pricedAfter⟩
  · obtain ⟨t, next⟩ := goes_on s sound shifts
    exact ⟨t, next, advances_priced s t (next_sound s t sound next).2 shifts priced⟩

theorem progress (s : Stage) (shifts : Nat) (ready : s.Ready shifts)
    (unfinished : s.phase ≠ .finished) : ∃ t left, Progress s t shifts left := by
  obtain ⟨sound, priced, allowed⟩ := ready
  obtain ⟨t, next, pricedThen⟩ := priced_next s sound priced
  obtain ⟨left, pace⟩ := pace s t shifts sound allowed next unfinished
  exact ⟨t, left, pace, next, (next_sound s t sound next).1, pricedThen, pace.allowed⟩

def CountedNext (s t : Stage × Tally) : Prop :=
  s.1.phase ≠ .finished ∧ s.1.Next t.1 ∧ t.2 = s.2.count s.1.phase

def CountsFit (start : Board Float) : Prop :=
  ∀ s tally, Relation.ReflTransGen CountedNext (⟨.cover, start⟩, {}) (s, tally) → tally.fits = true

theorem leads_counted (s t : Stage) (tally : Tally) (leads : s.Leads t) :
    ∃ counted, Relation.ReflTransGen CountedNext (s, tally) (t, counted) := by
  induction leads with
  | refl => exact ⟨tally, .refl⟩
  | @tail u t before next ih =>
      obtain ⟨counted, path⟩ := ih
      by_cases done : u.phase = .finished
      · obtain ⟨phase, b⟩ := u
        obtain ⟨phaseThen, after⟩ := t
        cases done
        cases next
        exact ⟨counted, path⟩
      · exact ⟨counted.count u.phase, path.tail ⟨done, next, rfl⟩⟩

theorem next_unique (s t other : Stage) (next : s.Next t) (nextToo : s.Next other) : t = other := by
  obtain ⟨phase, board⟩ := t
  obtain ⟨otherPhase, otherBoard⟩ := other
  simp only [Next] at next nextToo
  rw [next] at nextToo
  cases nextToo
  rfl

theorem counted_bound (s : Stage) (shifts : Nat) (tally : Tally) (ready : s.Ready shifts)
    (reached : Stage × Tally) (leads : Relation.ReflTransGen CountedNext (s, tally) reached) :
    ∃ left, reached.1.Ready left ∧ reached.2.flips + reached.1.missing = tally.flips + s.missing ∧
      reached.2.shifts + reached.1.budget left ≤ tally.shifts + s.budget shifts := by
  induction leads with
  | refl => exact ⟨shifts, ready, rfl, le_rfl⟩
  | @tail t u _ next ih =>
      obtain ⟨left, readyThen, flips, shiftsMade⟩ := ih
      obtain ⟨unfinished, nextStage, counted⟩ := next
      obtain ⟨v, rest, further⟩ := progress t.1 left readyThen unfinished
      have same := next_unique t.1 v u.1 further.next nextStage
      subst same
      have flipsCounted := further.flips t.2
      have shiftsCounted := further.shifts t.2
      rw [← counted] at flipsCounted shiftsCounted
      exact ⟨rest, further.ready, flipsCounted.trans flips, shiftsCounted.trans shiftsMade⟩

theorem leads_priced (s t : Stage) (sound : s.Sound) (priced : s.board.Priced) (leads : s.Leads t) :
    t.board.Priced := by
  induction leads with
  | refl => exact priced
  | @tail t u before next ih =>
      obtain ⟨v, further, pricedThen⟩ := priced_next t (leads_sound s t sound before) ih
      rw [next_unique t u v next further]
      exact pricedThen

theorem run_at_end (phases : Nat) (s : Stage) (shifts : Nat) (tally : Tally)
    (ready : s.Ready shifts) (done : s.phase = .finished) :
    ∃ last counted, Board.runFrom phases s.phase tally s.board = .ok (last, counted) ∧
      s.Leads ⟨.finished, last⟩ ∧ counted.flips = tally.flips + s.missing ∧
      counted.shifts ≤ tally.shifts + s.budget shifts := by
  have ended := run_finished phases s tally done
  obtain ⟨phase, b⟩ := s
  cases done
  have full : b.starCount = b.shorterSide := ready.1.2.2
  exact ⟨b, tally, ended, .refl, by simp [missing, full], Nat.le_add_right _ _⟩

-- The induction is on the phases that the search is allowed, which are no fewer than it may still
-- go through.
theorem run_from (phases : Nat) (s : Stage) (shifts : Nat) (tally : Tally) (ready : s.Ready shifts)
    (enough : s.steps shifts ≤ phases)
    (fit : ∀ t counted, Relation.ReflTransGen CountedNext (s, tally) (t, counted) →
      counted.fits = true) :
    ∃ last counted, Board.runFrom phases s.phase tally s.board = .ok (last, counted) ∧
      s.Leads ⟨.finished, last⟩ ∧ counted.flips = tally.flips + s.missing ∧
      counted.shifts ≤ tally.shifts + s.budget shifts := by
  induction phases generalizing s shifts tally with
  | zero => exact run_at_end 0 s shifts tally ready (steps_finished s shifts enough)
  | succ n ih =>
      by_cases done : s.phase = .finished
      · exact run_at_end (n + 1) s shifts tally ready done
      · obtain ⟨t, left, further⟩ := progress s shifts ready done
        have stepped : s.board.step s.phase = .ok (t.board, t.phase) := further.next
        have counting : CountedNext (s, tally) (t, tally.count s.phase) := ⟨done, further.next, rfl⟩
        have fits := fit t _ (.single counting)
        have fewer := further.fewer
        obtain ⟨last, counted, result, leads, flipsLast, shiftsLast⟩ :=
          ih t left (tally.count s.phase) further.ready (by omega) fun u counted later =>
            fit u counted (.head counting later)
        have flips := further.flips tally
        have shiftsMade := further.shifts tally
        refine ⟨last, counted, ?_, .head further.next leads, by omega, by omega⟩
        have opened :
            Board.runFrom (n + 1) s.phase tally s.board =
              Board.runFrom n t.phase (tally.count s.phase) t.board := by
          rw [Board.runFrom]
          · simp [demand, fits, stepped]
          · exact done
        rw [opened]
        exact result

theorem counts_fit (b : Board Float) (fresh : b.Fresh) (priced : b.Priced)
    (counters : b.shorterSide * (b.shorterSide + 1) / 2 < 2 ^ 32) : CountsFit b := by
  intro s tally leads
  obtain ⟨left, _, flips, shifts⟩ :=
    counted_bound ⟨.cover, b⟩ 0 {} ⟨fresh, priced, trivial⟩ (s, tally) leads
  have bounded := shifts_from_bound b.starCount b.shorterSide
  have many := side_bound b.shorterSide
  simp only [missing, budget] at flips shifts
  simp only [Tally.fits, UInt32.size, Bool.and_eq_true, decide_eq_true_eq]
  omega

theorem phases_enough (b : Board Float) (fresh : b.Fresh) : steps ⟨.cover, b⟩ 0 ≤ b.phaseBound := by
  have few : b.shorterSide ≤ b.rows * b.cols := by
    rw [Board.shorterSide]
    cases Nat.eq_zero_or_pos b.cols with
    | inl none => simp [none]
    | inr some => exact (Nat.min_le_left _ _).trans (Nat.le_mul_of_pos_right _ some)
  have less :
      (b.shorterSide - b.starCount) * (2 * b.rows + 8) ≤ b.rows * b.cols * (2 * b.rows + 8) :=
    Nat.mul_le_mul_right _ (by omega)
  simp only [steps, missing, Board.phaseBound, fresh.sized.stars, fresh.sized.rowCover, Nat.add_mul]
  omega

theorem run_finishes (b : Board Float) (fresh : b.Fresh) (priced : b.Priced)
    (counts : CountsFit b) :
    ∃ last tally, b.run = .ok (last, tally) ∧ Reached b ⟨.finished, last⟩ ∧
      tally.flips = b.shorterSide - b.starCount ∧
      tally.shifts ≤ shiftsFrom b.starCount b.shorterSide := by
  obtain ⟨last, tally, result, leads, flips, shifts⟩ :=
    run_from b.phaseBound ⟨.cover, b⟩ 0 {} ⟨fresh, priced, trivial⟩ (phases_enough b fresh) counts
  refine ⟨last, tally, result, leads, ?_, ?_⟩
  · simpa [missing] using flips
  · simpa [budget] using shifts

theorem prepared_counts_fit (options : Options) (rows cols : Nat) (values : Array Float)
    (start : Board Float) (prepared : Board.Prepared options rows cols values start)
    (finite : ∀ cost ∈ start.costs, cost.isFinite)
    (counters : min rows cols * (min rows cols + 1) / 2 < 2 ^ 32) : CountsFit start := by
  obtain ⟨starring, fresh⟩ := Board.prepared_fresh options rows cols values start prepared
  refine counts_fit start fresh
    (Board.prepared_priced options rows cols values start prepared finite) ?_
  rw [Board.shorterSide, starring.rows, starring.cols]
  exact counters

theorem prepared_finishes (options : Options) (rows cols : Nat) (values : Array Float)
    (start : Board Float) (prepared : Board.Prepared options rows cols values start)
    (finite : ∀ cost ∈ start.costs, cost.isFinite)
    (counters : min rows cols * (min rows cols + 1) / 2 < 2 ^ 32) :
    ∃ last tally, start.run = .ok (last, tally) ∧ Reached start ⟨.finished, last⟩ ∧
      tally.flips = start.shorterSide - start.starCount ∧
      tally.shifts ≤ shiftsFrom start.starCount start.shorterSide := by
  obtain ⟨_, fresh⟩ := Board.prepared_fresh options rows cols values start prepared
  have priced := Board.prepared_priced options rows cols values start prepared finite
  have counts := prepared_counts_fit options rows cols values start prepared finite counters
  exact run_finishes start fresh priced counts

end Stage

/-- A search on finite costs finishes with as many stars as the shorter side has lines, one flip for
each star that was missing, and between two flips at most one shift more than stars. -/
theorem search_finishes (options : Options) (rows cols : Nat) (values : Array Float)
    (start : Board Float) (prepared : Board.Prepared options rows cols values start)
    (finite : ∀ cost ∈ start.costs, cost.isFinite)
    (counters : min rows cols * (min rows cols + 1) / 2 < 2 ^ 32) :
    ∃ last tally, start.run = .ok (last, tally) ∧ last.starCount = min rows cols ∧
      start.starCount ≤ min rows cols ∧ tally.flips = min rows cols - start.starCount ∧
      tally.shifts ≤ ∑ stars ∈ Finset.Ico start.starCount (min rows cols), (stars + 1) := by
  obtain ⟨starring, fresh⟩ := Board.prepared_fresh options rows cols values start prepared
  have side : start.shorterSide = min rows cols := by
    rw [Board.shorterSide, starring.rows, starring.cols]
    rfl
  obtain ⟨last, tally, result, reached, flips, shifts⟩ :=
    Stage.prepared_finishes options rows cols values start prepared finite counters
  rw [← side]
  obtain ⟨_, _, full⟩ := Stage.leads_sound ⟨.cover, start⟩ ⟨.finished, last⟩ fresh reached
  obtain ⟨rowsKept, colsKept⟩ := Stage.leads_size ⟨.cover, start⟩ ⟨.finished, last⟩ fresh reached
  refine ⟨last, tally, result, ?_, Board.matched_bound start fresh.toMatched, flips, shifts⟩
  rw [full, Board.shorterSide, Board.shorterSide, rowsKept, colsKept]

theorem search_finishes_after_shift_and_flip :
    ∃ start last tally, Board.Prepared {} 2 2 #[1, 2, 2, 4] start ∧ start.run = .ok (last, tally) ∧
      last.starCount = 2 ∧ start.starCount ≤ 2 ∧ tally.flips = 2 - start.starCount ∧
      tally.shifts ≤ ∑ stars ∈ Finset.Ico start.starCount 2, (stars + 1) := by
  obtain ⟨start, prepared, _, finite⟩ := Board.square_prepared
  obtain ⟨last, tally, finishes⟩ :=
    search_finishes {} 2 2 #[1, 2, 2, 4] start prepared finite (by decide)
  exact ⟨start, last, tally, prepared, finishes⟩

end LinearAssignment
