import LinearAssignment.Phase
import LinearAssignment.Proofs.Loading
import LinearAssignment.Proofs.Phase.Path
import LinearAssignment.Proofs.Phase.Search
import LinearAssignment.Proofs.Phase.Shift

set_option autoImplicit false

namespace LinearAssignment

structure Stage where
  phase : Phase
  board : Board Float

namespace Stage

def Next (s t : Stage) : Prop := s.board.step s.phase = .ok (t.board, t.phase)

def Leads : Stage → Stage → Prop := Relation.ReflTransGen Next

def Reached (start : Board Float) (s : Stage) : Prop := Leads ⟨.cover, start⟩ s

def Sound (s : Stage) : Prop :=
  match s.phase with
  | .cover => s.board.Fresh
  | .check => s.board.Searching ∧ s.board.Fresh
  | .search => s.board.Searching ∧ s.board.starCount < s.board.shorterSide
  | .flip row col => s.board.Disciplined ∧ s.board.Primed row col ∧ (∀ c, ¬ s.board.Starred row c) ∧
      s.board.starCount < s.board.shorterSide
  | .shift =>
      s.board.Searching ∧ s.board.starCount < s.board.shorterSide ∧
        ∀ row col, ¬ s.board.Bare row col
  | .finished => s.board.Searching ∧ s.board.Fresh ∧ s.board.starCount = s.board.shorterSide

-- Lines keep having stars; a flip adds one, and every other phase leaves the stars as they are.
-- Only a shift changes costs.
structure Advances (s t : Stage) : Prop where
  rows : t.board.rows = s.board.rows
  cols : t.board.cols = s.board.cols
  starredRows : ∀ row, (∃ col, s.board.Starred row col) → ∃ col, t.board.Starred row col
  starredColumns : ∀ col, (∃ row, s.board.Starred row col) → ∃ row, t.board.Starred row col
  flips : ∀ row col, s.phase = .flip row col → t.board.starCount = s.board.starCount + 1
  others : (∀ row col, s.phase ≠ .flip row col) → t.board.stars = s.board.stars
  costs : s.phase ≠ .shift → t.board.costs = s.board.costs

theorem sound_matched (s : Stage) (sound : s.Sound) : s.board.Matched := by
  obtain ⟨phase, b⟩ := s
  cases phase with
  | cover => exact Board.Fresh.toMatched sound
  | check => exact sound.1.toMatched
  | search => exact sound.1.toMatched
  | flip row col => exact sound.1.toMatched
  | shift => exact sound.1.toMatched
  | finished => exact sound.1.toMatched

theorem sound_disciplined (s : Stage) (sound : s.Sound) (covered : s.phase ≠ .cover) :
    s.board.Disciplined := by
  obtain ⟨phase, b⟩ := s
  cases phase with
  | cover => exact absurd rfl covered
  | check => exact sound.1.toDisciplined
  | search => exact sound.1.toDisciplined
  | flip row col => exact sound.1
  | shift => exact sound.1.toDisciplined
  | finished => exact sound.1.toDisciplined

theorem agrees_advances (s t : Stage) (agrees : s.board.Agrees t.board)
    (still : ∀ row col, s.phase ≠ .flip row col) : s.Advances t where
  rows := agrees.rows
  cols := agrees.cols
  starredRows := fun row ⟨col, starred⟩ =>
    ⟨col, (Board.agrees_starred _ _ agrees row col).mpr starred⟩
  starredColumns := fun col ⟨row, starred⟩ =>
    ⟨row, (Board.agrees_starred _ _ agrees row col).mpr starred⟩
  flips := fun row col flip => absurd flip (still row col)
  others := fun _ => agrees.stars
  costs := fun _ => agrees.costs

theorem shifted_advances (b after : Board Float) (least : Float) (shifted : b.Shifted after least) :
    Advances ⟨.shift, b⟩ ⟨.search, after⟩ := by
  obtain ⟨rowsAgree, colsAgree⟩ := Board.shifted_size b after least shifted
  have starsAgree : after.stars = b.stars := by rw [shifted.frame]
  have sameStars := fun row col => (Board.shifted_marks b after least shifted row col).1
  refine ⟨rowsAgree, colsAgree, ?_, ?_, by simp, fun _ => starsAgree, fun other => absurd rfl other⟩
  · rintro row ⟨col, starred⟩
    exact ⟨col, (sameStars row col).mpr starred⟩
  · rintro col ⟨row, starred⟩
    exact ⟨row, (sameStars row col).mpr starred⟩

theorem cover_step (b : Board Float) (fresh : b.Fresh) :
    ∃ covered, b.step .cover = .ok (covered, .check) ∧ b.Agrees covered ∧ covered.Searching ∧
      covered.Fresh := by
  obtain ⟨covered, result, agrees, searching, freshToo⟩ := Board.cover_fresh b fresh
  refine ⟨covered, ?_, agrees, searching, freshToo⟩
  simp [Board.step, result]

theorem check_step (b : Board Float) (searching : b.Searching) (fresh : b.Fresh) :
    b.step .check = .ok (b, if b.starCount = b.shorterSide then .finished else .search) := by
  have result := Board.check_fresh b searching fresh
  simp only [Board.step, result, lift_ok, ok_bind, pure_ok]

theorem search_step (b : Board Float) (searching : b.Searching) :
    ∃ found, b.Agrees found ∧ found.Searching ∧
      (found = b ∨ b.coveredRows.card < found.coveredRows.card) ∧
      ((b.step .search = .ok (found, .shift) ∧ ∀ row col, ¬ found.Bare row col) ∨
        ∃ row col, found.Loose row col ∧
          b.step .search = .ok (found.prime row col, .flip row col)) := by
  obtain ⟨found, agrees, kept, grown, outcome⟩ := Board.search_outcome b searching
  refine ⟨found, agrees, kept, grown, ?_⟩
  cases outcome with
  | inl facts =>
      obtain ⟨result, absent⟩ := facts
      refine Or.inl ⟨?_, absent⟩
      simp [Board.step, result]
  | inr facts =>
      obtain ⟨row, col, loose, result⟩ := facts
      refine Or.inr ⟨row, col, loose, ?_⟩
      simp [Board.step, result]

theorem flip_step (b : Board Float) (row col : Nat) (disciplined : b.Disciplined)
    (primed : b.Primed row col) (starless : ∀ c, ¬ b.Starred row c) :
    ∃ after, b.step (.flip row col) = .ok (after, .cover) ∧ after.Fresh ∧ b.Flipped after row ∧
      after.rows = b.rows ∧ after.cols = b.cols ∧ after.costs = b.costs := by
  obtain ⟨after, result, rest⟩ := Board.flip_outcome b row col disciplined primed starless
  refine ⟨after, ?_, rest⟩
  simp [Board.step, result]

theorem shift_step (b : Board Float) (t : Stage) (result : b.step .shift = .ok (t.board, t.phase)) :
    t.phase = .search ∧ b.shift = .ok t.board := by
  cases shifted : b.shift with
  | error why => simp [Board.step, shifted] at result
  | ok after =>
      simp only [Board.step, shifted, ok_bind, pure_ok, Except.ok.injEq, Prod.mk.injEq] at result
      exact ⟨result.2.symm, congrArg _ result.1⟩

theorem next_sound (s t : Stage) (sound : s.Sound) (next : s.Next t) : t.Sound ∧ s.Advances t := by
  obtain ⟨phase, b⟩ := s
  obtain ⟨pending, after⟩ := t
  simp only [Next] at next
  cases phase with
  | cover =>
      obtain ⟨covered, result, agrees, searching, fresh⟩ := cover_step b sound
      rw [result] at next
      cases next
      exact ⟨⟨searching, fresh⟩, agrees_advances _ _ agrees (by simp)⟩
  | check =>
      obtain ⟨searching, fresh⟩ := sound
      rw [check_step b searching fresh] at next
      cases next
      refine ⟨?_, agrees_advances _ _ ⟨rfl, rfl, rfl, rfl⟩ (by simp)⟩
      by_cases full : b.starCount = b.shorterSide
      · rw [if_pos full]
        exact ⟨searching, fresh, full⟩
      · rw [if_neg full]
        exact ⟨searching, lt_of_le_of_ne (Board.matched_bound b searching.toMatched) full⟩
  | search =>
      obtain ⟨searching, missing⟩ := sound
      obtain ⟨found, agrees, kept, _, outcome⟩ := search_step b searching
      obtain ⟨sameCount, sameSide⟩ := Board.agrees_star_count b found agrees
      cases outcome with
      | inl facts =>
          obtain ⟨result, absent⟩ := facts
          rw [result] at next
          cases next
          refine ⟨⟨kept, ?_, absent⟩, agrees_advances _ _ agrees (by simp)⟩
          simpa only [sameCount, sameSide] using missing
      | inr facts =>
          obtain ⟨row, col, loose, result⟩ := facts
          rw [result] at next
          cases next
          have primedHere :=
            (Board.prime_primed found row col kept.sized loose.bare.1.1 loose.bare.1.2.1 row
              col).mpr (Or.inl ⟨rfl, rfl⟩)
          refine ⟨⟨Board.prime_disciplined found row col kept loose.bare loose.starless, primedHere,
            loose.starless, ?_⟩,
            agrees_advances _ _ ⟨agrees.rows, agrees.cols, agrees.costs, agrees.stars⟩ (by simp)⟩
          change found.starCount < found.shorterSide
          simpa only [sameCount, sameSide] using missing
  | flip row col =>
      obtain ⟨disciplined, primed, starless, missing⟩ := sound
      obtain ⟨flipped, result, fresh, changed, rowsAgree, colsAgree, costsAgree⟩ :=
        flip_step b row col disciplined primed starless
      rw [result] at next
      cases next
      refine ⟨fresh, rowsAgree, colsAgree, fun r starred => (changed.starredRows r).mpr
        (Or.inr starred), changed.starredColumns,
        fun _ _ _ => Board.flipped_count b _ row disciplined.toMatched changed starless,
        fun still => absurd rfl (still row col), fun _ => costsAgree⟩
  | shift =>
      obtain ⟨searching, missing, _⟩ := sound
      obtain ⟨rfl, result⟩ := shift_step b ⟨pending, after⟩ next
      obtain ⟨least, _, _, finite, _, shifted⟩ :=
        Board.shift_inverted b after searching.sized result
      have kept := Board.shifted_searching b after least shifted finite searching
      have advances := shifted_advances b after least shifted
      have rowsAgree : after.rows = b.rows := advances.rows
      have colsAgree : after.cols = b.cols := advances.cols
      have starsAgree : after.stars = b.stars := advances.others (by simp)
      refine ⟨⟨kept, ?_⟩, advances⟩
      simp only [Board.starCount, Board.shorterSide, rowsAgree, colsAgree, starsAgree] at missing ⊢
      exact missing
  | finished =>
      cases next
      exact ⟨sound, agrees_advances _ _ ⟨rfl, rfl, rfl, rfl⟩ (by simp)⟩

theorem leads_sound (s t : Stage) (sound : s.Sound) (leads : s.Leads t) : t.Sound := by
  induction leads with
  | refl => exact sound
  | tail _ next ih => exact (next_sound _ _ ih next).1

theorem leads_size (s t : Stage) (sound : s.Sound) (leads : s.Leads t) :
    t.board.rows = s.board.rows ∧ t.board.cols = s.board.cols := by
  induction leads with
  | refl => exact ⟨rfl, rfl⟩
  | tail before next ih =>
      have advances := (next_sound _ _ (leads_sound _ _ sound before) next).2
      exact ⟨advances.rows.trans ih.1, advances.cols.trans ih.2⟩

theorem leads_keeps_lines (s t : Stage) (sound : s.Sound) (leads : s.Leads t) :
    (∀ row, (∃ col, s.board.Starred row col) → ∃ col, t.board.Starred row col) ∧
      ∀ col, (∃ row, s.board.Starred row col) → ∃ row, t.board.Starred row col := by
  induction leads with
  | refl => exact ⟨fun _ starred => starred, fun _ starred => starred⟩
  | tail before next ih =>
      have advances := (next_sound _ _ (leads_sound _ _ sound before) next).2
      exact ⟨fun row starred => advances.starredRows row (ih.1 row starred),
        fun col starred => advances.starredColumns col (ih.2 col starred)⟩

theorem trail_leads (phases : Nat) (s : Stage) (visit : Visit Float)
    (visited : visit ∈ (Board.trailFrom phases s.phase s.board).1) :
    s.Leads ⟨visit.next, visit.board⟩ := by
  induction phases generalizing s with
  | zero =>
      obtain ⟨phase, b⟩ := s
      cases phase <;> simp [Board.trailFrom] at visited
  | succ n ih =>
      by_cases done : s.phase = .finished
      · simp [done, Board.trailFrom] at visited
      · cases stepped : s.board.step s.phase with
        | error why => simp [Board.trailFrom, stepped] at visited
        | ok result =>
            have first : s.Next ⟨result.2, result.1⟩ := stepped
            simp only [Board.trailFrom, stepped, List.mem_cons] at visited
            cases visited with
            | inl same =>
                subst visit
                exact .single first
            | inr later => exact .head first (ih ⟨result.2, result.1⟩ later)

theorem prepared_visit (options : Options) (rows cols : Nat) (values : Array Float)
    (start : Board Float) (prepared : Board.Prepared options rows cols values start) (place : Nat)
    (pending : Phase)
    (shown : ((Board.loaded options rows cols values).reduce.toOption.bind fun start =>
      start.trail.1[place]?.map (·.next)) = some pending) : ∃ b, Reached start ⟨pending, b⟩ := by
  obtain ⟨_, _, reduce⟩ := Board.prepared_reduced options rows cols values start prepared
  rw [reduce] at shown
  obtain ⟨visit, visited, next⟩ := Option.map_eq_some_iff.mp shown
  have reached := trail_leads start.phaseBound ⟨.cover, start⟩ visit (List.mem_of_getElem? visited)
  rw [next] at reached
  exact ⟨visit.board, reached⟩

theorem run_finished (phases : Nat) (s : Stage) (tally : Tally) (done : s.phase = .finished) :
    Board.runFrom phases s.phase tally s.board = .ok (s.board, tally) := by
  rw [done]
  cases phases <;> rfl

-- A run that returns has come to its last stage. The induction is on the phases that it is allowed.
theorem run_leads (phases : Nat) (s : Stage) (tally counted : Tally) (last : Board Float)
    (result : Board.runFrom phases s.phase tally s.board = .ok (last, counted)) :
    s.Leads ⟨.finished, last⟩ := by
  induction phases generalizing s tally with
  | zero =>
      obtain ⟨phase, b⟩ := s
      cases phase with
      | finished =>
          cases result
          exact .refl
      | _ => cases result
  | succ n ih =>
      by_cases done : s.phase = .finished
      · obtain ⟨phase, b⟩ := s
        cases done
        cases result
        exact .refl
      · rw [Board.runFrom] at result
        · obtain ⟨_, _, result⟩ := bind_ok _ _ _ result
          obtain ⟨⟨board, phase⟩, stepped, result⟩ := bind_ok _ _ _ result
          have first : s.Next ⟨phase, board⟩ := stepped
          exact .head first (ih ⟨phase, board⟩ _ result)
        · exact done

theorem next_finished (s t : Stage) (sound : s.Sound) (next : s.Next t) :
    t.phase = .finished ↔
      (s.phase = .check ∨ s.phase = .finished) ∧ s.board.starCount = s.board.shorterSide := by
  obtain ⟨phase, b⟩ := s
  obtain ⟨pending, after⟩ := t
  simp only [Next] at next ⊢
  cases phase with
  | cover =>
      obtain ⟨covered, result, _⟩ := cover_step b sound
      rw [result] at next
      cases next
      simp
  | check =>
      rw [check_step b sound.1 sound.2] at next
      cases next
      by_cases full : b.starCount = b.shorterSide <;> simp [full]
  | search =>
      obtain ⟨found, _, _, _, ⟨result, _⟩ | ⟨row, col, _, result⟩⟩ := search_step b sound.1 <;>
      · rw [result] at next
        cases next
        simp
  | flip row col =>
      obtain ⟨flipped, result, _⟩ := flip_step b row col sound.1 sound.2.1 sound.2.2.1
      rw [result] at next
      cases next
      simp
  | shift =>
      obtain ⟨rfl, _⟩ := shift_step b ⟨pending, after⟩ next
      simp
  | finished =>
      cases next
      simpa using sound.2.2

end Stage

theorem Board.run_found (b start last : Board Float) (tally : Tally) (unmarked : b.Unmarked)
    (reduce : b.reduce = .ok start) (run : start.run = .ok (last, tally)) :
    last.Searching ∧ last.rows = b.rows ∧ last.cols = b.cols := by
  obtain ⟨starring, fresh⟩ := reduced_known b start unmarked reduce
  have leads := Stage.run_leads start.phaseBound ⟨.cover, start⟩ {} tally last run
  obtain ⟨searching, _, _⟩ := Stage.leads_sound ⟨.cover, start⟩ ⟨.finished, last⟩ fresh leads
  obtain ⟨rowsKept, colsKept⟩ := Stage.leads_size ⟨.cover, start⟩ ⟨.finished, last⟩ fresh leads
  exact ⟨searching, rowsKept.trans starring.rows, colsKept.trans starring.cols⟩

end LinearAssignment
