import LinearAssignment.Proofs.Phase.Amount

/-! What a search has shifted by in all. The cell where a row and a column without stars meet was
never covered, and has paid for every shift. -/

set_option autoImplicit false

namespace LinearAssignment

namespace Board

structure Paid (top spent : ℚ) (b : Board Float) : Prop extends Plain b where
  raised : ∀ row col, row < b.rows → col < b.cols → b.worthAt row col ≤ top + spent
  left : ∀ row col, row < b.rows → col < b.cols → (∀ c, ¬ b.Starred row c) →
    (∀ r, ¬ b.Starred r col) → b.worthAt row col ≤ top - spent

-- The cell that is never covered can still pay for the next shift.
theorem paid_affords (top spent amount : ℚ) (b : Board Float) (disciplined : b.Disciplined)
    (missing : b.starCount < b.shorterSide) (paid : b.Paid top spent)
    (below : ∀ row col, b.Open row col → amount ≤ b.worthAt row col) : spent + amount ≤ top := by
  obtain ⟨row, insideRow, rowFree⟩ := free_row b disciplined.sized disciplined.toIndependent missing
  obtain ⟨col, insideColumn, columnFree⟩ :=
    free_column b disciplined.sized disciplined.toIndependent missing
  have price :=
    below row col (free_open b disciplined row col insideRow insideColumn rowFree columnFree)
  have left := paid.left row col insideRow insideColumn rowFree columnFree
  linarith

theorem paid_shifts (top spent : ℚ) (b after : Board Float) (least : Float)
    (paid : b.Paid top spent) (affords : spent + Binary64.value least ≤ top)
    (exactly : b.ShiftsExactly (2 * top) least) (lowest : b.Least least) (finite : least.isFinite)
    (positive : 0 < least) (shifted : b.Shifted after least) :
    b.Shifts after (Binary64.value least) ∧ after.Plain := by
  have sign := (Binary64.positive_iff least finite).mp positive
  apply exact_shifts (2 * top) b after paid.toPlain least exactly lowest finite positive shifted
  intro row col insideRow insideColumn
  have raised := paid.raised row col insideRow insideColumn
  rw [rowShare]
  split <;> linarith

theorem paid_shifted (top spent amount : ℚ) (b after : Board Float) (disciplined : b.Disciplined)
    (shifts : b.Shifts after amount) (plain : after.Plain) (rows : after.rows = b.rows)
    (cols : after.cols = b.cols) (sameStars : ∀ row col, after.Starred row col ↔ b.Starred row col)
    (paid : b.Paid top spent) : after.Paid top (spent + amount) := by
  have sign := shifts.sign
  refine ⟨plain, ?raised, ?left⟩
  all_goals simp only [rows, cols, sameStars]
  case raised =>
    intro row col insideRow insideColumn
    have before := paid.raised row col insideRow insideColumn
    rw [shifts.costs row col insideRow insideColumn, rowShare, columnShare]
    split <;> split <;> linarith
  case left =>
    intro row col insideRow insideColumn rowFree columnFree
    have uncovered := free_open b disciplined row col insideRow insideColumn rowFree columnFree
    have before := paid.left row col insideRow insideColumn rowFree columnFree
    rw [shifts.costs row col insideRow insideColumn, rowShare, columnShare, if_neg uncovered.2.2.1,
      if_neg uncovered.2.2.2]
    linarith

theorem paid_kept (top spent : ℚ) (b after : Board Float) (rows : after.rows = b.rows)
    (cols : after.cols = b.cols) (costs : after.costs = b.costs)
    (starredRows : ∀ row, (∃ col, b.Starred row col) → ∃ col, after.Starred row col)
    (starredColumns : ∀ col, (∃ row, b.Starred row col) → ∃ row, after.Starred row col)
    (paid : b.Paid top spent) : after.Paid top spent := by
  have sameCost := same_costs b after rows costs
  refine ⟨plain_kept b after rows cols costs paid.toPlain, ?raised, ?left⟩
  all_goals simp only [worthAt, sameCost, rows, cols]
  case raised => exact paid.raised
  case left =>
    intro row col insideRow insideColumn rowFree columnFree
    apply paid.left row col insideRow insideColumn
    · intro c starred
      obtain ⟨c', starredThen⟩ := starredRows row ⟨c, starred⟩
      exact rowFree c' starredThen
    · intro r starred
      obtain ⟨r', starredThen⟩ := starredColumns col ⟨r, starred⟩
      exact columnFree r' starredThen

end Board

namespace Stage

def amount (s : Stage) : ℚ :=
  match s.phase, s.board.leastUncovered with
  | .shift, .ok least => Binary64.value least
  | _, _ => 0

def SpendingNext (s t : Stage × ℚ) : Prop := s.1.Next t.1 ∧ t.2 = s.2 + s.1.amount

def Exactly (limit : ℚ) (s : Stage) : Prop :=
  s.phase = .shift → ∀ least, s.board.leastUncovered = .ok least → s.board.ShiftsExactly limit least

structure Solvent (top spent : ℚ) (s : Stage) : Prop extends Board.Paid top spent s.board where
  spentSome : 0 ≤ spent
  spentEnough : spent ≤ top

theorem amount_elsewhere (s : Stage) (other : s.phase ≠ .shift) : s.amount = 0 := by
  obtain ⟨phase, b⟩ := s
  cases phase <;> first | rfl | exact absurd rfl other

structure Asked (s : Stage) (least : Float) : Prop where
  found : s.board.leastUncovered = .ok least
  lowest : s.board.Least least
  finite : least.isFinite
  positive : 0 < least
  amount : s.amount = Binary64.value least

theorem shift_asked (s : Stage) (sound : s.Sound) (plain : s.board.Plain)
    (shift : s.phase = .shift) : ∃ least, s.Asked least := by
  obtain ⟨phase, b⟩ := s
  cases shift
  obtain ⟨searching, missing, absent⟩ := sound
  obtain ⟨least, found, lowest⟩ := Board.least_uncovered b searching.sized
  obtain ⟨finite, positive, _⟩ :=
    Board.least_usable b searching (Board.plain_priced b plain) missing absent least lowest
  exact ⟨least, found, lowest, finite, positive, by simp [Stage.amount, found]⟩

theorem solvent_affords (top spent : ℚ) (s : Stage) (sound : s.Sound)
    (solvent : s.Solvent top spent) : spent + s.amount ≤ top := by
  by_cases shift : s.phase = .shift
  · obtain ⟨least, asked⟩ := shift_asked s sound solvent.toPlain shift
    obtain ⟨phase, b⟩ := s
    cases shift
    rw [asked.amount]
    exact Board.paid_affords top spent _ b sound.1.toDisciplined sound.2.1 solvent.toPaid
      (Board.open_worth b solvent.toPlain least asked.lowest asked.finite)
  · rw [amount_elsewhere s shift, add_zero]
    exact solvent.spentEnough

theorem next_paying (top spent : ℚ) (s t : Stage) (sound : s.Sound) (solvent : s.Solvent top spent)
    (exactly : s.Exactly (2 * top)) (next : s.Next t) (shift : s.phase = .shift) :
    s.board.Shifts t.board s.amount ∧ t.board.Plain := by
  have affords := solvent_affords top spent s sound solvent
  obtain ⟨least, asked⟩ := shift_asked s sound solvent.toPlain shift
  rw [asked.amount] at affords ⊢
  obtain ⟨phase, b⟩ := s
  cases shift
  obtain ⟨_, result⟩ := shift_step b t next
  obtain ⟨other, foundToo, _, _, _, shifted⟩ := Board.shift_inverted b t.board sound.1.sized result
  cases asked.found.symm.trans foundToo
  exact Board.paid_shifts top spent b t.board least solvent.toPaid affords
    (exactly rfl least asked.found) asked.lowest asked.finite asked.positive shifted

theorem next_solvent (top spent : ℚ) (s t : Stage) (sound : s.Sound) (solvent : s.Solvent top spent)
    (exactly : s.Exactly (2 * top)) (next : s.Next t) : t.Solvent top (spent + s.amount) := by
  have advances := (next_sound s t sound next).2
  have enough := solvent_affords top spent s sound solvent
  by_cases shift : s.phase = .shift
  · obtain ⟨shifts, plain⟩ := next_paying top spent s t sound solvent exactly next shift
    have disciplined := sound_disciplined s sound (by simp [shift])
    have stars := advances.others (by simp [shift])
    have sameStars : ∀ row col, t.board.Starred row col ↔ s.board.Starred row col :=
      fun row col => by
      rw [Board.Starred, Board.Starred, advances.rows, advances.cols, stars]
    exact ⟨Board.paid_shifted top spent s.amount s.board t.board disciplined shifts plain
      advances.rows advances.cols sameStars solvent.toPaid,
      add_nonneg solvent.spentSome shifts.sign.le, enough⟩
  · rw [amount_elsewhere s shift, add_zero]
    exact ⟨Board.paid_kept top spent s.board t.board advances.rows advances.cols
      (advances.costs shift) advances.starredRows advances.starredColumns solvent.toPaid,
      solvent.spentSome, solvent.spentEnough⟩

theorem start_solvent (top : ℚ) (start : Board Float) (plain : start.Plain)
    (bounded : ∀ row col, row < start.rows → col < start.cols → start.worthAt row col ≤ top)
    (sign : 0 ≤ top) : Solvent top 0 ⟨.cover, start⟩ where
  toPlain := plain
  raised := fun row col insideRow insideColumn =>
    (bounded row col insideRow insideColumn).trans (by linarith)
  left := fun row col insideRow insideColumn _ _ =>
    (bounded row col insideRow insideColumn).trans (by linarith)
  spentSome := le_rfl
  spentEnough := sign

theorem spending_leads (s t : Stage) (spent after : ℚ)
    (leads : Relation.ReflTransGen SpendingNext (s, spent) (t, after)) : s.Leads t :=
  Relation.ReflTransGen.lift (p := Next) (fun s : Stage × ℚ => s.1) (fun _ _ next => next.1)
    (s, spent) (t, after) leads

theorem spending_solvent (top : ℚ) (start : Board Float) (fresh : start.Fresh)
    (solvent : Solvent top 0 ⟨.cover, start⟩) (exactly : ∀ s, Reached start s → s.Exactly (2 * top))
    (reached : Stage × ℚ)
    (leads : Relation.ReflTransGen SpendingNext (⟨.cover, start⟩, 0) reached) :
    reached.1.Solvent top reached.2 := by
  induction leads with
  | refl => exact solvent
  | @tail t u before next ih =>
      have reachedHere : Reached start t.1 := spending_leads _ _ 0 t.2 before
      have sound := leads_sound ⟨.cover, start⟩ t.1 fresh reachedHere
      rw [next.2]
      exact next_solvent top t.2 t.1 u.1 sound ih (exactly t.1 reachedHere) next.1

section Grid

variable (unit top : ℚ) (grid : Binary64.HasMultiples unit (2 * top))

include grid

theorem on_unit_exactly (s : Stage) (sound : s.Sound) (plain : s.board.Plain)
    (onUnit : s.board.OnUnit unit) : s.Exactly (2 * top) := by
  intro shift least found
  obtain ⟨other, asked⟩ := shift_asked s sound plain shift
  cases found.symm.trans asked.found
  exact Board.on_unit_exact unit (2 * top) grid s.board plain onUnit least asked.lowest
    asked.finite asked.positive

theorem next_on_unit (spent : ℚ) (s t : Stage) (sound : s.Sound) (solvent : s.Solvent top spent)
    (onUnit : s.board.OnUnit unit) (next : s.Next t) : t.board.OnUnit unit := by
  have advances := (next_sound s t sound next).2
  by_cases shift : s.phase = .shift
  · obtain ⟨least, asked⟩ := shift_asked s sound solvent.toPlain shift
    have exactly := on_unit_exactly unit top grid s sound solvent.toPlain onUnit
    obtain ⟨shifts, _⟩ := next_paying top spent s t sound solvent exactly next shift
    have whole := Board.least_on_unit unit s.board onUnit least asked.lowest asked.finite
    rw [← asked.amount] at whole
    exact Board.shifts_on_unit unit s.board t.board onUnit s.amount whole shifts
      advances.rows advances.cols
  · intro row col insideRow insideColumn
    rw [Board.worthAt,
      Board.same_costs s.board t.board advances.rows (advances.costs shift) row col]
    exact onUnit row col (advances.rows ▸ insideRow) (advances.cols ▸ insideColumn)

theorem reached_on_unit (start : Board Float) (fresh : start.Fresh)
    (solvent : Solvent top 0 ⟨.cover, start⟩) (onUnit : start.OnUnit unit) (s : Stage)
    (reached : Reached start s) : s.board.OnUnit unit ∧ ∃ spent, s.Solvent top spent := by
  induction reached with
  | refl => exact ⟨onUnit, 0, solvent⟩
  | @tail t u before next ih =>
      obtain ⟨onUnitHere, spent, solventHere⟩ := ih
      have sound := leads_sound ⟨.cover, start⟩ t fresh before
      have exactly := on_unit_exactly unit top grid t sound solventHere.toPlain onUnitHere
      exact ⟨next_on_unit unit top grid spent t u sound solventHere onUnitHere next, _,
        next_solvent top spent t u sound solventHere exactly next⟩

end Grid

end Stage

end LinearAssignment
