import LinearAssignment.Proofs.Phase.Progress

set_option autoImplicit false

namespace LinearAssignment

theorem Board.covered_rows_starred (b : Board Float) (disciplined : b.Disciplined) :
    b.coveredRows.card ≤ b.starCount := by
  rw [star_count_rows b disciplined.sized disciplined.toIndependent]
  refine Finset.card_le_card fun row member => ?_
  exact (b.starred_row row).mpr
    ((disciplined.rowCover row).mp ((covered_row b row disciplined.sized).mp member)).1

namespace Stage

def missing (s : Stage) : Nat := s.board.shorterSide - s.board.starCount

-- The shifts are those that may still be asked for before the next flip.
def Allowed (s : Stage) (shifts : Nat) : Prop :=
  match s.phase with
  | .search => s.board.starCount + 1 ≤ shifts + s.board.coveredRows.card ∨
      (∃ row col, s.board.Bare row col) ∧ s.board.starCount ≤ shifts + s.board.coveredRows.card
  | .shift => s.board.starCount + 1 ≤ shifts + s.board.coveredRows.card
  | _ => True

def steps (s : Stage) (shifts : Nat) : Nat :=
  match s.phase with
  | .cover => s.missing * (2 * s.board.rows + 8) + 2
  | .check => s.missing * (2 * s.board.rows + 8) + 1
  | .search => (s.missing - 1) * (2 * s.board.rows + 8) + 2 * shifts + 4
  | .flip _ _ => (s.missing - 1) * (2 * s.board.rows + 8) + 3
  | .shift => (s.missing - 1) * (2 * s.board.rows + 8) + 2 * shifts + 3
  | .finished => 0

theorem steps_finished (s : Stage) (shifts : Nat) (none : s.steps shifts ≤ 0) :
    s.phase = .finished := by
  obtain ⟨phase, b⟩ := s
  cases phase <;> simp [steps] at none ⊢

-- Shifts that may still be made: with so many stars, one more than there are.
def shiftsFrom (stars all : Nat) : Nat := ∑ k ∈ Finset.Ico stars all, (k + 1)

def budget (s : Stage) (shifts : Nat) : Nat :=
  match s.phase with
  | .cover => shiftsFrom s.board.starCount s.board.shorterSide
  | .check => shiftsFrom s.board.starCount s.board.shorterSide
  | .search => shifts + shiftsFrom (s.board.starCount + 1) s.board.shorterSide
  | .flip _ _ => shiftsFrom (s.board.starCount + 1) s.board.shorterSide
  | .shift => shifts + shiftsFrom (s.board.starCount + 1) s.board.shorterSide
  | .finished => 0

structure Pace (s t : Stage) (shifts left : Nat) : Prop where
  allowed : t.Allowed left
  fewer : t.steps left < s.steps shifts
  flips : ∀ tally : Tally, (tally.count s.phase).flips + t.missing = tally.flips + s.missing
  shifts : ∀ tally : Tally, (tally.count s.phase).shifts + t.budget left ≤
    tally.shifts + s.budget shifts

theorem shifts_from_next (stars all : Nat) (missing : stars < all) :
    shiftsFrom stars all = stars + 1 + shiftsFrom (stars + 1) all :=
  Finset.sum_eq_sum_Ico_succ_bot missing _

theorem shifts_from_bound (stars all : Nat) : shiftsFrom stars all ≤ all * (all + 1) / 2 := by
  have part : shiftsFrom stars all ≤ ∑ k ∈ Finset.range all, (k + 1) := by
    rw [Finset.range_eq_Ico]
    exact Finset.sum_le_sum_of_subset (Finset.Ico_subset_Ico_left (Nat.zero_le stars))
  have whole : ∑ k ∈ Finset.range all, (k + 1) = all * (all + 1) / 2 := by
    have shifted := Finset.sum_range_succ' (fun k => k) all
    rw [Finset.sum_range_id, Nat.add_sub_cancel, Nat.add_zero, Nat.mul_comm] at shifted
    exact shifted.symm
  exact whole ▸ part

theorem side_bound (all : Nat) : all ≤ all * (all + 1) / 2 := by
  rw [Nat.le_div_iff_mul_le (by norm_num)]
  cases Nat.eq_zero_or_pos all with
  | inl none => simp [none]
  | inr some => exact Nat.mul_le_mul_left _ (by omega)

theorem advances_side (s t : Stage) (advances : s.Advances t) :
    t.board.shorterSide = s.board.shorterSide := by
  rw [Board.shorterSide, Board.shorterSide, advances.rows, advances.cols]

theorem advances_count (s t : Stage) (advances : s.Advances t)
    (still : ∀ row col, s.phase ≠ .flip row col) : t.board.starCount = s.board.starCount := by
  rw [Board.starCount, Board.starCount, advances.others still]

theorem pace_cover (b : Board Float) (t : Stage) (shifts : Nat) (fresh : b.Fresh)
    (next : Next ⟨.cover, b⟩ t) : Pace ⟨.cover, b⟩ t shifts 0 := by
  obtain ⟨pending, after⟩ := t
  have advances := (next_sound ⟨.cover, b⟩ _ fresh next).2
  have sameSide := advances_side _ _ advances
  have sameCount := advances_count _ _ advances (by simp)
  have rows := advances.rows
  obtain ⟨covered, result, _⟩ := cover_step b fresh
  simp only [Next, result] at next
  cases next
  simp only at sameCount sameSide rows
  constructor
  case allowed => trivial
  case fewer => simp [steps, missing, sameCount, sameSide, rows]
  case flips => simp [missing, sameCount, sameSide, Tally.count]
  case shifts => simp [budget, sameCount, sameSide, Tally.count]

theorem pace_check (b : Board Float) (t : Stage) (shifts : Nat) (searching : b.Searching)
    (fresh : b.Fresh) (next : Next ⟨.check, b⟩ t) :
    Pace ⟨.check, b⟩ t shifts (b.starCount + 1) := by
  obtain ⟨pending, after⟩ := t
  simp only [Next, check_step b searching fresh] at next
  cases next
  by_cases full : b.starCount = b.shorterSide
  · rw [if_pos full]
    constructor
    case allowed => trivial
    case fewer => simp [steps]
    case flips => exact fun tally => rfl
    case shifts => simp [budget, Tally.count]
  · rw [if_neg full]
    have short : b.starCount < b.shorterSide :=
      lt_of_le_of_ne (Board.matched_bound b searching.toMatched) full
    have few : b.shorterSide ≤ b.rows := Nat.min_le_left _ _
    constructor
    case allowed => exact Or.inl (Nat.le_add_right _ _)
    case fewer =>
      obtain ⟨rest, split⟩ : ∃ rest, b.shorterSide - b.starCount = rest + 1 :=
        ⟨b.shorterSide - b.starCount - 1, by omega⟩
      simp only [steps, missing, split, Nat.add_sub_cancel, Nat.add_mul]
      omega
    case flips => exact fun tally => rfl
    case shifts =>
      intro tally
      simp only [budget, Tally.count]
      rw [shifts_from_next _ _ short]

-- A search that finds no path has covered a row more, unless no zero was uncovered before.
theorem pace_search (b : Board Float) (t : Stage) (shifts : Nat) (searching : b.Searching)
    (short : b.starCount < b.shorterSide) (allowed : Allowed ⟨.search, b⟩ shifts)
    (next : Next ⟨.search, b⟩ t) : Pace ⟨.search, b⟩ t shifts shifts := by
  obtain ⟨pending, after⟩ := t
  have advances := (next_sound ⟨.search, b⟩ _ ⟨searching, short⟩ next).2
  have sameSide := advances_side _ _ advances
  have sameCount := advances_count _ _ advances (by simp)
  have rows := advances.rows
  obtain ⟨found, _, kept, grown, outcome⟩ := search_step b searching
  cases outcome with
  | inl facts =>
      obtain ⟨result, absent⟩ := facts
      simp only [Next, result] at next
      cases next
      simp only at sameCount sameSide rows
      constructor
      case allowed =>
        change after.starCount + 1 ≤ shifts + after.coveredRows.card
        rw [sameCount]
        cases grown with
        | inl same =>
            subst same
            cases allowed with
            | inl enough => exact enough
            | inr facts =>
                obtain ⟨⟨row, col, bare⟩, _⟩ := facts
                exact absurd bare (absent row col)
        | inr more =>
            cases allowed with
            | inl enough =>
                simp only at enough
                omega
            | inr facts =>
                have enough := facts.2
                simp only at enough
                omega
      case fewer => simp [steps, missing, sameCount, sameSide, rows]
      case flips => simp [missing, sameCount, sameSide, Tally.count]
      case shifts => simp [budget, sameCount, sameSide, Tally.count]
  | inr facts =>
      obtain ⟨row, col, _, result⟩ := facts
      simp only [Next, result] at next
      cases next
      simp only at sameCount sameSide rows
      constructor
      case allowed => trivial
      case fewer =>
        simp only [steps, missing, sameCount, sameSide, rows]
        omega
      case flips => simp [missing, sameCount, sameSide, Tally.count]
      case shifts => simp [budget, sameCount, sameSide, Tally.count]

theorem pace_flip (b : Board Float) (row col : Nat) (t : Stage) (shifts : Nat)
    (sound : Sound ⟨.flip row col, b⟩) (next : Next ⟨.flip row col, b⟩ t) :
    Pace ⟨.flip row col, b⟩ t shifts 0 := by
  obtain ⟨pending, after⟩ := t
  have advances := (next_sound _ _ sound next).2
  have more := advances.flips row col rfl
  have sameSide := advances_side _ _ advances
  have rows := advances.rows
  obtain ⟨disciplined, primed, starless, short⟩ := sound
  obtain ⟨flipped, result, _⟩ := flip_step b row col disciplined primed starless
  simp only [Next, result] at next
  cases next
  simp only at more sameSide rows short
  constructor
  case allowed => trivial
  case fewer =>
    simp only [steps, missing, more, sameSide, rows, Nat.sub_add_eq]
    omega
  case flips =>
    intro tally
    simp only [missing, more, sameSide, Tally.count]
    omega
  case shifts => simp [budget, more, sameSide, Tally.count]

theorem pace_shift (b : Board Float) (t : Stage) (shifts : Nat) (sound : Sound ⟨.shift, b⟩)
    (allowed : Allowed ⟨.shift, b⟩ shifts) (next : Next ⟨.shift, b⟩ t) :
    Pace ⟨.shift, b⟩ t shifts (shifts - 1) := by
  obtain ⟨pending, after⟩ := t
  have advances := (next_sound _ _ sound next).2
  have sameSide := advances_side _ _ advances
  have sameCount := advances_count _ _ advances (by simp)
  have rows := advances.rows
  obtain ⟨searching, short, _⟩ := sound
  obtain ⟨rfl, result⟩ := shift_step b ⟨pending, after⟩ next
  obtain ⟨least, _, lowest, finite, _, shifted⟩ :=
    Board.shift_inverted b after searching.sized result
  have sameCovers : after.coveredRows = b.coveredRows := by
    rw [shifted.frame]
    rfl
  have few := Board.covered_rows_starred b searching.toDisciplined
  simp only [Allowed] at allowed
  simp only at sameCount sameSide rows short
  constructor
  case allowed =>
    refine Or.inr ⟨?bare, ?enough⟩
    case bare =>
      cases lowest.origin with
      | inl top =>
          rw [top] at finite
          cases finite
      | inr facts =>
          obtain ⟨row, col, uncovered, same⟩ := facts
          exact ⟨row, col, Board.shifted_bare b after least shifted finite row col uncovered same⟩
    case enough =>
      simp only [sameCount, sameCovers]
      omega
  case fewer =>
    simp only [steps, missing, rows, sameCount, sameSide]
    omega
  case flips => simp [missing, sameCount, sameSide, Tally.count]
  case shifts =>
    intro tally
    simp only [budget, sameCount, sameSide, Tally.count]
    omega

theorem pace (s t : Stage) (shifts : Nat) (sound : s.Sound) (allowed : s.Allowed shifts)
    (next : s.Next t) (unfinished : s.phase ≠ .finished) : ∃ left, Pace s t shifts left := by
  obtain ⟨phase, b⟩ := s
  cases phase with
  | cover => exact ⟨_, pace_cover b t shifts sound next⟩
  | check => exact ⟨_, pace_check b t shifts sound.1 sound.2 next⟩
  | search => exact ⟨_, pace_search b t shifts sound.1 sound.2 allowed next⟩
  | flip row col => exact ⟨_, pace_flip b row col t shifts sound next⟩
  | shift => exact ⟨_, pace_shift b t shifts sound allowed next⟩
  | finished => exact absurd rfl unfinished

theorem goes_on (s : Stage) (sound : s.Sound) (still : s.phase ≠ .shift) : ∃ t, s.Next t := by
  obtain ⟨phase, b⟩ := s
  cases phase with
  | cover =>
      obtain ⟨covered, result, _⟩ := cover_step b sound
      exact ⟨⟨_, _⟩, result⟩
  | check => exact ⟨⟨_, _⟩, check_step b sound.1 sound.2⟩
  | search =>
      obtain ⟨found, _, _, _, outcome⟩ := search_step b sound.1
      cases outcome with
      | inl dry => exact ⟨⟨_, _⟩, dry.1⟩
      | inr loose =>
          obtain ⟨row, col, _, result⟩ := loose
          exact ⟨⟨_, _⟩, result⟩
  | flip row col =>
      obtain ⟨after, result, _⟩ := flip_step b row col sound.1 sound.2.1 sound.2.2.1
      exact ⟨⟨_, _⟩, result⟩
  | shift => exact absurd rfl still
  | finished => exact ⟨⟨.finished, b⟩, rfl⟩

end Stage

end LinearAssignment
