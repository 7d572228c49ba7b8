import LinearAssignment.Proofs.Optimality.Matching
import LinearAssignment.Proofs.Phase.Spending

/-! Searches on whole numbers: the costs are what potentials of rows and columns leave of the loaded
ones. -/

set_option autoImplicit false

namespace LinearAssignment

namespace Board

structure Exact (b : Board Float) : Prop where
  finite : ∀ row col, row < b.rows → col < b.cols → (b.costAt row col).isFinite
  whole : ∀ row col, row < b.rows → col < b.cols → ∃ n : ℤ, b.worthAt row col = n
  nonnegative : ∀ row col, row < b.rows → col < b.cols → 0 ≤ b.worthAt row col
  small : ∀ row col, row < b.rows → col < b.cols → b.worthAt row col ≤ 2 ^ 53

structure Weighed (loaded : Nat → Nat → ℚ) (b : Board Float) : Prop extends Exact b where
  balanced : ∃ p q, Balanced b.rows b.cols loaded b.worthAt p q
    (fun row => ∀ col, ¬ b.Starred row col) (fun col => ∀ row, ¬ b.Starred row col)

def HasPotentials (loaded : Nat → Nat → ℚ) (b : Board Float) : Prop :=
  ∃ p q, Balanced b.rows b.cols loaded b.worthAt p q (fun row => ∀ col, ¬ b.Starred row col)
    (fun col => ∀ row, ¬ b.Starred row col)

def Tracks (loaded : Nat → Nat → ℚ) (error : ℚ) (b : Board Float) : Prop :=
  ∃ left p q,
    Balanced b.rows b.cols loaded left p q (fun row => ∀ col, ¬ b.Starred row col)
        (fun col => ∀ row, ¬ b.Starred row col) ∧
      ∀ row col, row < b.rows → col < b.cols → |b.worthAt row col - left row col| ≤ error

theorem exact_plain (b : Board Float) (exact : b.Exact) : b.Plain :=
  ⟨exact.finite, exact.nonnegative⟩

theorem exact_on_unit (b : Board Float) (exact : b.Exact) : b.OnUnit 1 :=
  fun row col insideRow insideColumn => by
  simpa only [mul_one] using exact.whole row col insideRow insideColumn

theorem exact_priced (b : Board Float) (exact : b.Exact) : b.Priced :=
  plain_priced b (exact_plain b exact)

theorem exact_kept (b after : Board Float) (rows : after.rows = b.rows) (cols : after.cols = b.cols)
    (costs : after.costs = b.costs) (exact : b.Exact) : after.Exact := by
  have same := same_costs b after rows costs
  refine ⟨fun row col insideRow insideColumn => ?_, fun row col insideRow insideColumn =>
    ?_, fun row col insideRow insideColumn => ?_, fun row col insideRow insideColumn => ?_⟩
  all_goals
    simp only [worthAt, same]
    rw [rows] at insideRow
    rw [cols] at insideColumn
  · exact exact.finite row col insideRow insideColumn
  · exact exact.whole row col insideRow insideColumn
  · exact exact.nonnegative row col insideRow insideColumn
  · exact exact.small row col insideRow insideColumn

theorem exact_shifted (b after : Board Float) (exact : b.Exact) (least : Float)
    (lowest : b.Least least) (finite : least.isFinite) (positive : 0 < least)
    (shifted : b.Shifted after least)
    (small : ∀ row col, row < b.rows → col < b.cols → b.RowCovered row →
      b.worthAt row col + Binary64.value least ≤ 2 ^ 53) :
    after.Exact ∧ b.Shifts after (Binary64.value least) := by
  have raised (row col : Nat) (insideRow : row < b.rows) (insideColumn : col < b.cols) :
      b.worthAt row col + b.rowShare (Binary64.value least) row ≤ 2 ^ 53 := by
    by_cases covered : b.RowCovered row
    · rw [rowShare, if_pos covered]
      exact small row col insideRow insideColumn covered
    · rw [rowShare, if_neg covered, add_zero]
      exact exact.small row col insideRow insideColumn
  have onUnit := exact_on_unit b exact
  have exactly := on_unit_exact 1 (2 ^ 53) (Binary64.has_whole _ le_rfl) b (exact_plain b exact)
    onUnit least lowest finite positive
  obtain ⟨shifts, plain⟩ := exact_shifts (2 ^ 53) b after (exact_plain b exact) least exactly lowest
    finite positive shifted raised
  obtain ⟨rows, cols⟩ := shifted_size b after least shifted
  have whole :=
    shifts_on_unit 1 b after onUnit _ (least_on_unit 1 b onUnit least lowest finite) shifts
      rows cols
  refine ⟨⟨plain.finite, fun row col insideRow insideColumn => ?_, plain.nonnegative,
    fun row col insideRow insideColumn => ?_⟩, shifts⟩
  · simpa only [mul_one] using whole row col insideRow insideColumn
  · rw [rows] at insideRow
    rw [cols] at insideColumn
    have before := raised row col insideRow insideColumn
    have sign := shifts.sign
    rw [shifts.costs row col insideRow insideColumn, columnShare]
    split <;> linarith

-- Lines without a star are uncovered: their rows keep their potentials and their columns gain the
-- whole amount.
theorem balanced_moved (loaded left : Nat → Nat → ℚ) (b : Board Float) (disciplined : b.Disciplined)
    (amount : ℚ) (sign : 0 ≤ amount) (p q : Nat → ℚ)
    (balanced : Balanced b.rows b.cols loaded left p q (fun row => ∀ col, ¬ b.Starred row col)
      (fun col => ∀ row, ¬ b.Starred row col)) :
    Balanced b.rows b.cols loaded
      (fun row col => left row col + b.rowShare amount row - b.columnShare amount col)
      (fun row => p row - b.rowShare amount row) (fun col => q col + b.columnShare amount col)
      (fun row => ∀ col, ¬ b.Starred row col) (fun col => ∀ row, ¬ b.Starred row col) := by
  refine ⟨fun row col insideRow insideColumn => ?_, fun wide col inside free other insideToo =>
    ?_, fun tall row inside free other insideToo => ?_⟩
  · simp only [balanced.split row col insideRow insideColumn]
    ring
  · have uncovered : ¬ b.ColumnCovered col := by
      rw [disciplined.columnCover col]
      rintro ⟨row, starred, _⟩
      exact free row starred
    have larger := balanced.wide wide col inside free other insideToo
    simp only [columnShare, uncovered, if_false]
    split <;> linarith
  · have uncovered : ¬ b.RowCovered row := by
      rw [disciplined.rowCover row]
      rintro ⟨⟨col, starred⟩, _⟩
      exact free col starred
    have larger := balanced.tall tall row inside free other insideToo
    simp only [rowShare, uncovered, if_false]
    split <;> linarith

theorem balanced_shifted (loaded : Nat → Nat → ℚ) (b after : Board Float)
    (disciplined : b.Disciplined) (amount : ℚ) (shifts : b.Shifts after amount) (p q : Nat → ℚ)
    (balanced : Balanced b.rows b.cols loaded b.worthAt p q (fun row => ∀ col, ¬ b.Starred row col)
      (fun col => ∀ row, ¬ b.Starred row col)) :
    Balanced b.rows b.cols loaded after.worthAt (fun row => p row - b.rowShare amount row)
      (fun col => q col + b.columnShare amount col) (fun row => ∀ col, ¬ b.Starred row col)
      (fun col => ∀ row, ¬ b.Starred row col) := by
  have moved := balanced_moved loaded b.worthAt b disciplined amount shifts.sign.le p q balanced
  refine ⟨fun row col insideRow insideColumn => ?_, moved.wide, moved.tall⟩
  rw [shifts.costs row col insideRow insideColumn]
  exact moved.split row col insideRow insideColumn

theorem balanced_kept (loaded left : Nat → Nat → ℚ) (b after : Board Float)
    (rows : after.rows = b.rows) (cols : after.cols = b.cols)
    (starredRows : ∀ row, (∃ col, b.Starred row col) → ∃ col, after.Starred row col)
    (starredColumns : ∀ col, (∃ row, b.Starred row col) → ∃ row, after.Starred row col)
    (p q : Nat → ℚ)
    (balanced : Balanced b.rows b.cols loaded left p q (fun row => ∀ col, ¬ b.Starred row col)
      (fun col => ∀ row, ¬ b.Starred row col)) :
    Balanced after.rows after.cols loaded left p q (fun row => ∀ col, ¬ after.Starred row col)
      (fun col => ∀ row, ¬ after.Starred row col) := by
  rw [rows, cols]
  refine ⟨balanced.split, fun wide col inside free => ?_, fun tall row inside free => ?_⟩
  · refine balanced.wide wide col inside fun row starred => ?_
    obtain ⟨r, starredThen⟩ := starredColumns col ⟨row, starred⟩
    exact free r starredThen
  · refine balanced.tall tall row inside fun col starred => ?_
    obtain ⟨c, starredThen⟩ := starredRows row ⟨col, starred⟩
    exact free c starredThen

end Board

namespace Stage

def Small (s : Stage) : Prop :=
  s.phase = .shift → ∀ least, s.board.leastUncovered = .ok least →
    ∀ row col, row < s.board.rows → col < s.board.cols → s.board.RowCovered row →
      s.board.worthAt row col + Binary64.value least ≤ 2 ^ 53

theorem small_exactly (s : Stage) (sound : s.Sound) (exact : s.board.Exact) (small : s.Small)
    (limit : ℚ) : s.Exactly limit := by
  intro shift least found
  have plain := Board.exact_plain s.board exact
  obtain ⟨other, asked⟩ := shift_asked s sound plain shift
  cases asked.found.symm.trans found
  have exactly := Board.on_unit_exact 1 (2 ^ 53) (Binary64.has_whole _ le_rfl) s.board plain
    (Board.exact_on_unit s.board exact) least asked.lowest asked.finite asked.positive
  refine ⟨fun row col insideRow insideColumn covered _ =>
    ?_, fun row col insideRow insideColumn columnOpen _ => ?_⟩
  · exact exactly.raises row col insideRow insideColumn covered
      (small shift least found row col insideRow insideColumn covered)
  · refine exactly.lowers row col insideRow insideColumn columnOpen ?_
    by_cases covered : s.board.RowCovered row
    · rw [Board.rowShare, if_pos covered]
      exact small shift least found row col insideRow insideColumn covered
    · rw [Board.rowShare, if_neg covered, add_zero]
      exact exact.small row col insideRow insideColumn

theorem next_shifts (s t : Stage) (sound : s.Sound) (exact : s.board.Exact) (small : s.Small)
    (next : s.Next t) (shift : s.phase = .shift) :
    t.board.Exact ∧ ∃ amount, s.board.Shifts t.board amount := by
  obtain ⟨phase, b⟩ := s
  cases shift
  obtain ⟨_, result⟩ := shift_step b t next
  obtain ⟨least, found, lowest, finite, positive, shifted⟩ :=
    Board.shift_inverted b t.board sound.1.sized result
  obtain ⟨exactThen, shifts⟩ :=
    Board.exact_shifted b t.board exact least lowest finite positive shifted (small rfl least found)
  exact ⟨exactThen, _, shifts⟩

theorem next_potentials (loaded : Nat → Nat → ℚ) (s t : Stage) (sound : s.Sound) (next : s.Next t)
    (shifts : s.phase = .shift → ∃ amount, s.board.Shifts t.board amount)
    (potentials : s.board.HasPotentials loaded) : t.board.HasPotentials loaded := by
  have advances := (next_sound s t sound next).2
  obtain ⟨p, q, balanced⟩ := potentials
  by_cases shift : s.phase = .shift
  · obtain ⟨amount, shiftsHere⟩ := shifts shift
    have disciplined := sound_disciplined s sound (by simp [shift])
    have balancedThen :=
      Board.balanced_shifted loaded s.board t.board disciplined amount shiftsHere p q balanced
    have stars := advances.others (by simp [shift])
    have sameStars : ∀ row col, t.board.Starred row col ↔ s.board.Starred row col :=
      fun row col => by
      rw [Board.Starred, Board.Starred, advances.rows, advances.cols, stars]
    refine ⟨fun row => p row - s.board.rowShare amount row, fun col =>
      q col + s.board.columnShare amount col, ?_⟩
    simp only [advances.rows, advances.cols, sameStars]
    exact balancedThen
  · have sameCost : t.board.worthAt = s.board.worthAt := funext fun row => funext fun col =>
      congrArg Binary64.value
        (Board.same_costs s.board t.board advances.rows (advances.costs shift) row col)
    refine ⟨p, q, ?_⟩
    rw [sameCost]
    exact Board.balanced_kept loaded s.board.worthAt s.board t.board advances.rows advances.cols
      advances.starredRows advances.starredColumns p q balanced

theorem next_weighed (loaded : Nat → Nat → ℚ) (s t : Stage) (sound : s.Sound)
    (weighed : s.board.Weighed loaded) (small : s.Small) (next : s.Next t) :
    t.board.Weighed loaded := by
  have shifts := next_shifts s t sound weighed.toExact small next
  refine ⟨?exact,
    next_potentials loaded s t sound next (fun shift => (shifts shift).2) weighed.balanced⟩
  by_cases shift : s.phase = .shift
  · exact (shifts shift).1
  · have advances := (next_sound s t sound next).2
    exact Board.exact_kept s.board t.board advances.rows advances.cols
      (advances.costs shift) weighed.toExact

theorem reached_weighed (loaded : Nat → Nat → ℚ) (start : Board Float) (fresh : start.Fresh)
    (weighed : start.Weighed loaded) (small : ∀ s, Reached start s → s.Small) (s : Stage)
    (reached : Reached start s) : s.board.Weighed loaded := by
  induction reached with
  | refl => exact weighed
  | tail before next ih =>
      exact next_weighed loaded _ _ (leads_sound ⟨.cover, start⟩ _ fresh before) ih
        (small _ before) next

end Stage

end LinearAssignment
