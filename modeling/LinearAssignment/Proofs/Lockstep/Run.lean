import LinearAssignment.Proofs.Lockstep.Marks
import LinearAssignment.Proofs.Phase.Spending

/-! Two searches in step. Rounding would let them drift apart, so neither may round anything. -/

set_option autoImplicit false

namespace LinearAssignment

namespace Board

structure Multiple (k : ℚ) (b c : Board Float) : Prop where
  twins : b.Twins c
  finite : ∀ row col, row < b.rows → col < b.cols → (b.costAt row col).isFinite ∧
    (c.costAt row col).isFinite
  worth : ∀ row col, row < b.rows → col < b.cols → c.worthAt row col = k * b.worthAt row col

theorem multiple_made (k : ℚ) (positive : 0 < k) (b c : Board Float) (sized : b.Sized)
    (sizedToo : c.Sized) (frame : c = { b with costs := c.costs })
    (finite : ∀ row col, row < b.rows → col < b.cols → (b.costAt row col).isFinite ∧
      (c.costAt row col).isFinite)
    (worth : ∀ row col, row < b.rows → col < b.cols → c.worthAt row col = k * b.worthAt row col) :
    b.Multiple k c := by
  have rows : c.rows = b.rows := by rw [frame]
  have cols : c.cols = b.cols := by rw [frame]
  refine ⟨⟨c.costs, frame, ?_⟩, finite, worth⟩
  apply Array.ext'
  apply List.ext_getElem?
  intro i
  simp only [Array.toList_map, List.getElem?_map, Array.getElem?_toList]
  by_cases inside : i < b.rows * b.cols
  · obtain ⟨insideRow, insideColumn, back⟩ := cell_of_position b.rows b.cols i inside
    have read := cost_read b _ _ sized insideRow insideColumn
    have readToo :=
      cost_read c (i % b.rows) (i / b.rows) sizedToo (rows ▸ insideRow) (cols ▸ insideColumn)
    rw [offset, back] at read
    rw [offset, rows, back] at readToo
    obtain ⟨finiteHere, finiteThere⟩ := finite _ _ insideRow insideColumn
    have times := worth _ _ insideRow insideColumn
    rw [read, readToo, Option.map_some, Option.map_some, Option.some.injEq, Bool.eq_iff_iff]
    refine (Binary64.zero_iff (c.costAt _ _)).trans
      (Iff.trans ?_ (Binary64.zero_iff (b.costAt _ _)).symm)
    rw [worthAt, worthAt] at times
    rw [times]
    simp [finiteHere, finiteThere, positive.ne']
  · have outside : b.costs[i]? = none := Array.getElem?_eq_none (by rw [sized.costs]; omega)
    have outsideToo : c.costs[i]? = none :=
      Array.getElem?_eq_none (by rw [sizedToo.costs, rows, cols]; omega)
    rw [outside, outsideToo]

theorem twins_open (b c : Board Float) (twins : b.Twins c) (row col : Nat) :
    c.Open row col ↔ b.Open row col := by
  obtain ⟨costs, rfl, _⟩ := twins
  exact Iff.rfl

theorem twins_shares (b c : Board Float) (twins : b.Twins c) (k amount : ℚ) (row col : Nat) :
    c.rowShare (k * amount) row = k * b.rowShare amount row ∧
      c.columnShare (k * amount) col = k * b.columnShare amount col := by
  obtain ⟨costs, rfl, _⟩ := twins
  have rowCovered : RowCovered ({ b with costs } : Board Float) row ↔ b.RowCovered row := Iff.rfl
  have columnCovered : ColumnCovered ({ b with costs } : Board Float) col ↔ b.ColumnCovered col :=
    Iff.rfl
  simp only [rowShare, columnShare, rowCovered, columnCovered, mul_ite, mul_zero, and_self]

theorem least_attained (b : Board Float) (least : Float) (lowest : b.Least least)
    (finite : least.isFinite) : ∃ row col, b.Open row col ∧ b.costAt row col = least := by
  refine lowest.origin.resolve_left fun top => ?_
  rw [top] at finite
  exact absurd finite (by decide)

theorem multiple_least (k : ℚ) (positive : 0 < k) (b c : Board Float) (multiple : b.Multiple k c)
    (plain : b.Plain) (plainToo : c.Plain) (least other : Float) (lowest : b.Least least)
    (lowestToo : c.Least other) (finite : least.isFinite) (finiteToo : other.isFinite) :
    Binary64.value other = k * Binary64.value least := by
  have opens := twins_open b c multiple.twins
  apply le_antisymm
  · obtain ⟨row, col, uncovered, same⟩ := least_attained b least lowest finite
    have below :=
      open_worth c plainToo other lowestToo finiteToo row col ((opens row col).mpr uncovered)
    rw [multiple.worth row col uncovered.1 uncovered.2.1, worthAt, same] at below
    exact below
  · obtain ⟨row, col, uncovered, same⟩ := least_attained c other lowestToo finiteToo
    have uncoveredHere := (opens row col).mp uncovered
    have below := open_worth b plain least lowest finite row col uncoveredHere
    have times := multiple.worth row col uncoveredHere.1 uncoveredHere.2.1
    rw [worthAt, same] at times
    rw [times]
    exact mul_le_mul_of_nonneg_left below positive.le

theorem exists_top (rows cols : Nat) (numbers : Nat → Nat → ℚ) :
    ∃ top, ∀ row col, row < rows → col < cols → numbers row col ≤ top := by
  obtain ⟨top, above⟩ :=
    ((Finset.range rows ×ˢ Finset.range cols).image fun cell => numbers cell.1 cell.2).exists_le
  refine ⟨top, fun row col insideRow insideColumn =>
    above _ (Finset.mem_image.mpr ⟨(row, col), ?_, rfl⟩)⟩
  exact Finset.mem_product.mpr ⟨Finset.mem_range.mpr insideRow, Finset.mem_range.mpr insideColumn⟩

end Board

namespace Stage

structure Unrounded (s : Stage) : Prop where
  sound : s.Sound
  plain : s.board.Plain
  exactly : ∀ t limit, s.Leads t → t.Exactly limit

theorem next_unrounded (s t : Stage) (unrounded : s.Unrounded) (next : s.Next t) :
    t.Unrounded ∧
      (s.phase = .shift →
        s.board.Shifts t.board s.amount ∧ t.board = { s.board with costs := t.board.costs }) := by
  obtain ⟨sound, advances⟩ := next_sound s t unrounded.sound next
  have exactly : ∀ u limit, t.Leads u → u.Exactly limit :=
    fun u limit leads => unrounded.exactly u limit (.head next leads)
  by_cases shift : s.phase = .shift
  · obtain ⟨least, asked⟩ := shift_asked s unrounded.sound unrounded.plain shift
    have exactlyHere (limit : ℚ) := unrounded.exactly s limit .refl shift least asked.found
    have sized := (sound_matched s unrounded.sound).sized
    obtain ⟨top, bounded⟩ := Board.exists_top s.board.rows s.board.cols fun row col =>
      s.board.worthAt row col + s.board.rowShare (Binary64.value least) row
    have stepped : s.board.step .shift = .ok (t.board, t.phase) := shift ▸ next
    obtain ⟨other, found, _, _, _, shifted⟩ :=
      Board.shift_inverted s.board t.board sized (shift_step s.board t stepped).2
    cases asked.found.symm.trans found
    obtain ⟨shifts, plain⟩ := Board.exact_shifts top s.board t.board unrounded.plain least
      (exactlyHere top) asked.lowest asked.finite asked.positive shifted bounded
    exact ⟨⟨sound, plain, exactly⟩, fun _ => ⟨asked.amount ▸ shifts, shifted.frame⟩⟩
  · exact
      ⟨⟨sound, Board.plain_kept s.board t.board advances.rows advances.cols (advances.costs shift)
      unrounded.plain, exactly⟩, fun is => absurd is shift⟩

structure InStep (k : ℚ) (s t : Stage) : Prop where
  phase : t.phase = s.phase
  boards : s.board.Multiple k t.board
  first : s.Unrounded
  second : t.Unrounded

theorem in_step_amount (k : ℚ) (positive : 0 < k) (s t : Stage) (inStep : s.InStep k t)
    (shift : s.phase = .shift) : t.amount = k * s.amount := by
  obtain ⟨least, asked⟩ := shift_asked s inStep.first.sound inStep.first.plain shift
  obtain ⟨other, askedToo⟩ :=
    shift_asked t inStep.second.sound inStep.second.plain (inStep.phase.trans shift)
  rw [asked.amount, askedToo.amount]
  exact Board.multiple_least k positive s.board t.board inStep.boards inStep.first.plain
    inStep.second.plain least other asked.lowest askedToo.lowest asked.finite askedToo.finite

theorem shift_in_step (k : ℚ) (positive : 0 < k) (s t after : Stage) (inStep : s.InStep k t)
    (shift : s.phase = .shift) (next : s.Next after) :
    ∃ afterToo, t.Next afterToo ∧ after.InStep k afterToo := by
  obtain ⟨unrounded, shifts⟩ := next_unrounded s after inStep.first next
  obtain ⟨costs, frame⟩ := shifts shift
  have shiftToo : t.phase = .shift := inStep.phase.trans shift
  obtain ⟨searching, missing, absent⟩ :
      t.board.Searching ∧ t.board.starCount < t.board.shorterSide ∧
        ∀ row col, ¬ t.board.Bare row col := by
    have sound := inStep.second.sound
    rw [Sound, shiftToo] at sound
    exact sound
  obtain ⟨board, least, result, _⟩ :=
    Board.shift_progress t.board searching (Board.plain_priced t.board inStep.second.plain) missing
      absent
  have nextToo : t.Next ⟨.search, board⟩ := by
    rw [Next, shiftToo]
    simp [Board.step, result]
  obtain ⟨unroundedToo, shiftsToo⟩ := next_unrounded t ⟨.search, board⟩ inStep.second nextToo
  obtain ⟨costsToo, frameToo⟩ := shiftsToo shiftToo
  replace frameToo : board = { t.board with costs := board.costs } := frameToo
  have phase : after.phase = .search := (shift_step s.board after (shift ▸ next)).1
  refine ⟨⟨.search, board⟩, nextToo, phase.symm, ?_, unrounded, unroundedToo⟩
  obtain ⟨rows, cols⟩ := Board.twins_size s.board t.board inStep.boards.twins
  have rowsAfter : after.board.rows = s.board.rows := by rw [frame]
  have colsAfter : after.board.cols = s.board.cols := by rw [frame]
  have rowsToo : board.rows = s.board.rows := by rw [frameToo]; exact rows
  have colsToo : board.cols = s.board.cols := by rw [frameToo]; exact cols
  apply Board.multiple_made k positive after.board board (sound_matched _ unrounded.sound).sized
    (sound_matched _ unroundedToo.sound).sized
  case frame =>
    obtain ⟨costs, same, _⟩ := inStep.boards.twins
    rw [same] at frameToo
    rw [frame]
    exact frameToo
  case finite =>
    intro row col insideRow insideColumn
    exact ⟨unrounded.plain.finite row col insideRow insideColumn,
      unroundedToo.plain.finite row col (by rw [rowsToo, ← rowsAfter]; exact insideRow)
      (by rw [colsToo, ← colsAfter]; exact insideColumn)⟩
  case worth =>
    intro row col insideRow insideColumn
    rw [rowsAfter] at insideRow
    rw [colsAfter] at insideColumn
    have here := costs.costs row col insideRow insideColumn
    have there :=
      costsToo.costs row col (by rw [rows]; exact insideRow) (by rw [cols]; exact insideColumn)
    obtain ⟨rowShare, columnShare⟩ :=
      Board.twins_shares s.board t.board inStep.boards.twins k s.amount row col
    rw [in_step_amount k positive s t inStep shift, rowShare, columnShare,
      inStep.boards.worth row col insideRow insideColumn] at there
    rw [there, here]
    ring

theorem next_in_step (k : ℚ) (positive : 0 < k) (s t after : Stage) (inStep : s.InStep k t)
    (next : s.Next after) : ∃ afterToo, t.Next afterToo ∧ after.InStep k afterToo := by
  by_cases shift : s.phase = .shift
  · exact shift_in_step k positive s t after inStep shift next
  · have alike := Board.twins_step s.phase shift s.board t.board inStep.boards.twins
    obtain ⟨⟨board, phase⟩, result, twins, same⟩ := Alike.ok_right _ _ _ alike _ next
    have nextToo : t.Next ⟨phase, board⟩ := by
      rw [Next, inStep.phase]
      exact result
    obtain ⟨unrounded, _⟩ := next_unrounded s after inStep.first next
    obtain ⟨unroundedToo, _⟩ := next_unrounded t ⟨phase, board⟩ inStep.second nextToo
    have advances := (next_sound s after inStep.first.sound next).2
    have advancesToo := (next_sound t ⟨phase, board⟩ inStep.second.sound nextToo).2
    have costs := Board.same_costs s.board after.board advances.rows (advances.costs shift)
    have costsToo :=
      Board.same_costs t.board board advancesToo.rows (advancesToo.costs (inStep.phase ▸ shift))
    refine ⟨⟨phase, board⟩, nextToo, same.symm, ⟨twins, ?_, ?_⟩, unrounded, unroundedToo⟩
    all_goals simp only [Board.worthAt, costs, costsToo, advances.rows, advances.cols]
    · exact inStep.boards.finite
    · exact inStep.boards.worth

def SameVisit (k : ℚ) (visit other : Visit Float) : Prop :=
  other.phase = visit.phase ∧ other.next = visit.next ∧ visit.board.Multiple k other.board

-- The induction is on the phases that the trails are allowed, which are no fewer than the first
-- search may still go through.
theorem trails_in_step (k : ℚ) (positive : 0 < k) (phases : Nat) (s t : Stage) (shifts : Nat)
    (inStep : s.InStep k t) (ready : s.Ready shifts) (enough : s.steps shifts ≤ phases) :
    (Board.trailFrom phases s.phase s.board).2 = none ∧
      (Board.trailFrom phases t.phase t.board).2 = none ∧
      List.Forall₂ (SameVisit k) (Board.trailFrom phases s.phase s.board).1
        (Board.trailFrom phases t.phase t.board).1 := by
  induction phases generalizing s t shifts with
  | zero =>
      rw [inStep.phase, steps_finished s shifts enough]
      exact ⟨rfl, rfl, .nil⟩
  | succ n ih =>
      by_cases done : s.phase = .finished
      · rw [inStep.phase, done]
        exact ⟨rfl, rfl, .nil⟩
      · obtain ⟨after, left, further⟩ := progress s shifts ready done
        obtain ⟨afterToo, nextToo, inStepThen⟩ :=
          next_in_step k positive s t after inStep further.next
        have fewer := further.fewer
        obtain ⟨ends, endsToo, visits⟩ := ih after afterToo left inStepThen further.ready (by omega)
        have stepped : s.board.step s.phase = .ok (after.board, after.phase) := further.next
        have steppedToo : t.board.step t.phase = .ok (afterToo.board, afterToo.phase) := nextToo
        have doneToo : t.phase ≠ .finished := inStep.phase ▸ done
        rw [Board.trailFrom, Board.trailFrom, stepped, steppedToo]
        · exact ⟨ends, endsToo, .cons ⟨inStep.phase, inStepThen.phase, inStepThen.boards⟩ visits⟩
        · exact doneToo
        · exact done

theorem runs_in_step (k : ℚ) (positive : 0 < k) (phases : Nat) (s t : Stage) (shifts : Nat)
    (tally : Tally) (inStep : s.InStep k t) (ready : s.Ready shifts) :
    Alike (fun x y => x.1.Twins y.1 ∧ x.2 = y.2) (Board.runFrom phases s.phase tally s.board)
      (Board.runFrom phases t.phase tally t.board) := by
  induction phases generalizing s t shifts tally with
  | zero =>
      rw [inStep.phase]
      cases s.phase
      case finished => exact ⟨inStep.boards.twins, rfl⟩
      all_goals trivial
  | succ n ih =>
      by_cases done : s.phase = .finished
      · rw [inStep.phase, done]
        exact ⟨inStep.boards.twins, rfl⟩
      · obtain ⟨after, left, further⟩ := progress s shifts ready done
        obtain ⟨afterToo, nextToo, inStepThen⟩ :=
          next_in_step k positive s t after inStep further.next
        have stepped : s.board.step s.phase = .ok (after.board, after.phase) := further.next
        have steppedToo : t.board.step t.phase = .ok (afterToo.board, afterToo.phase) := nextToo
        have doneToo : t.phase ≠ .finished := inStep.phase ▸ done
        rw [Board.runFrom, Board.runFrom, stepped, steppedToo, inStep.phase]
        · apply Alike.bind_same
          intro _
          exact ih after afterToo left _ inStepThen further.ready
        · exact doneToo
        · exact done

end Stage

end LinearAssignment
