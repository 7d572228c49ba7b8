import LinearAssignment.Proofs.Pairing

/-! What a workspace shows of its last solution. An incomplete table is refused before the
statistics are reset, so that those of an earlier one stay in sight. -/

set_option autoImplicit false

namespace LinearAssignment

variable {w : Width}

structure Statistics where
  solved : Bool := false
  tally : Tally := {}
deriving DecidableEq

namespace Problem

instance (p : Problem w) : Decidable p.Complete := inferInstanceAs (Decidable (_ = _))

theorem checked_complete (p : Problem w) (addressed : p.Addressed) (complete : p.Complete) :
    p.checkComplete = .ok () := by
  have counted : word (p.rows * p.cols) = .ok (p.rows * p.cols) := word_ok _ addressed
  have full : p.values.size = p.rows * p.cols := complete
  simp [checkComplete, counted, require, full]

def searched (options : Options) (p : Problem w) : Statistics :=
  match Board.pairing options p.rows p.cols p.values with
  | .ok found => ⟨true, Board.tallyOf found⟩
  | .error _ => {}

end Problem

namespace Workspace

def statistics (ws : Workspace w) : Statistics := ⟨ws.solved, ws.tally⟩

def Shows (options : Options) (p : Problem w)
    (result : Except (Halt (Workspace w × Assignment w)) (Workspace w × Assignment w)) : Prop :=
  Halt.Keeps (fun pair => pair.1.statistics = {})
    (fun pair => pair.1.statistics = p.searched options ∧ pair.1.solved = true) result

theorem readied_shows (options : Options) (p : Problem w) (fits : p.Fits) (complete : p.Complete) :
    Shows options p (readiedSolve options p.rows p.cols p.values) := by
  cases paired : Board.pairing options p.rows p.cols p.values with
  | error halt =>
      rw [readied_halts options p halt paired]
      cases halt with
      | fault why => trivial
      | refused left why => rfl
  | ok found =>
      obtain ⟨board, report, solves, _⟩ := readied_paired options p fits complete found paired
      rw [solves]
      refine ⟨?_, rfl⟩
      rw [Problem.searched, paired]
      rfl

theorem solve_shows (mem : Memory) (options : Options) (ws : Workspace w) (report : Assignment w)
    (fits : ws.problem.Fits) (addressed : ws.problem.Addressed) (complete : ws.problem.Complete) :
    Shows options ws.problem (ws.solve mem options report) := by
  have prepares :
      Halt.Keeps (fun pair => pair.1.statistics = {})
        (· = (readied ws.problem.rows ws.problem.cols ws.problem.values,
          .idle w ws.problem.rows options.oneBased))
        (ws.prepare mem options report) := by
    cases result : ws.prepare mem options report with
    | ok out => exact (prepare_inverted mem options ws report out result).2
    | error halt =>
        have reset :
            Halt.Keeps (fun pair => pair.1.statistics = {}) (fun _ => True)
              (ws.prepare mem options report) := by
          rw [prepare, ws.problem.checked_complete addressed complete, within_ok, ok_bind]
          refine Halt.within_then _ _ _ _ _ (fun _ => rfl) fun board => ?_
          exact Halt.refuse_on_then _ _ _ _ _ _ rfl fun _ => trivial
        rw [result] at reset
        cases halt with
        | fault why => trivial
        | refused left why => exact reset
  refine Halt.bind_keeps _ _ _ _ _ prepares fun out ready => ?_
  subst ready
  exact readied_shows options ws.problem fits complete

def noted (mem : Memory) (ws : Workspace w) (request : Request w) (before : Statistics) :
    Statistics :=
  match request with
  | .solve options report =>
    if ws.problem.Complete then
      match ws.solve mem options report with
      | .ok _ => ws.problem.searched options
      | .error _ => {}
    else before
  | _ => before

def Noted (ws : Workspace w) (noted : Statistics) : Prop :=
  ws.problem.Fits ∧ ws.problem.Addressed ∧ ws.statistics = noted

theorem posed_statistics (ws next : Workspace w) (result : Except (Halt (Problem w)) (Problem w))
    (left : Halt.left? (Halt.embed ws.pose result) = some next) :
    next.statistics = ws.statistics := by
  match result with
  | .ok p =>
      cases left
      rfl
  | .error (.refused p why) =>
      cases left
      rfl
  | .error (.fault why) => cases left

theorem solved_statistics (mem : Memory) (options : Options) (ws next : Workspace w)
    (report : Assignment w) (before : Statistics) (holds : ws.Noted before)
    (left : Halt.left? (ws.answer mem (.solve options report)) = some next) :
    next.statistics = ws.noted mem (.solve options report) before := by
  obtain ⟨fits, addressed, same⟩ := holds
  by_cases complete : ws.problem.Complete
  · have shows := solve_shows mem options ws report fits addressed complete
    rw [noted, if_pos complete]
    match result : ws.solve mem options report with
    | .ok pair =>
        rw [result] at shows
        rw [answer, result] at left
        cases left
        exact shows.1
    | .error (.refused pair why) =>
        rw [result] at shows
        rw [answer, result] at left
        cases left
        exact shows
    | .error (.fault why) =>
        rw [answer, result] at left
        cases left
  · rw [noted, if_neg complete]
    rw [answer, solve_incomplete mem options ws report addressed complete] at left
    cases left
    exact same

theorem noted_agrees (mem : Memory) (ws : Workspace w) (request : Request w) (next : Workspace w)
    (before : Statistics) (holds : ws.Noted before)
    (left : Halt.left? (ws.answer mem request) = some next) :
    next.Noted (ws.noted mem request before) := by
  have fits :=
    Halt.left_kept _ _ next (answer_keeps Problem.Fits Problem.fits_lasting mem ws request holds.1)
      left
  have addressed :=
    Halt.left_kept _ _ next
      (answer_keeps Problem.Addressed Problem.addressed_lasting mem ws request holds.2.1) left
  refine ⟨fits, addressed, ?_⟩
  cases request with
  | solve options report => exact solved_statistics mem options ws next report before holds left
  | _ => exact (posed_statistics ws next _ left).trans holds.2.2

end Workspace

/-- After any history of requests the statistics are those of the last solve of a complete table.
Only a table that is incomplete leaves what was there before. -/
theorem statistics_of_last_complete_table (made : Memory) (rowsRoom colsRoom : Nat)
    (first ws : Workspace w) (pending : Assignment w)
    (opened : Workspace.withRoom made rowsRoom colsRoom = .ok (first, pending))
    (history : List (Memory × Workspace.Request w)) (served : first.serve history = some ws) :
    ws.statistics = first.observe Workspace.noted {} history ∧
      ∀ mem options report,
        (∀ after result, ws.solve mem options report = .ok (after, result) →
          after.solved = true ∧ after.statistics = ws.problem.searched options) ∧
        (∀ left why, ws.solve mem options report = .error (.refused left why) →
          left.1.statistics = if ws.problem.Complete then {} else ws.statistics) := by
  obtain ⟨rfl, rfl⟩ := Workspace.with_room_inverted made rowsRoom colsRoom first pending opened
  have fits := Workspace.served_fits history _ ws Problem.none_fits served
  have addressed := Workspace.served_addressed history _ ws Problem.none_addressed served
  obtain ⟨_, _, noted⟩ := Workspace.observed_agrees Workspace.noted Workspace.Noted
    Workspace.noted_agrees history _ ws {} ⟨Problem.none_fits, Problem.none_addressed, rfl⟩ served
  refine ⟨noted, fun mem options report => ⟨?solved, ?refused⟩⟩
  case solved =>
    intro after result solves
    by_cases complete : ws.problem.Complete
    · have shows := Workspace.solve_shows mem options ws report fits addressed complete
      rw [solves] at shows
      exact ⟨shows.2, shows.1⟩
    · rw [Workspace.solve_incomplete mem options ws report addressed complete] at solves
      cases solves
  case refused =>
    intro left why refusal
    by_cases complete : ws.problem.Complete
    · have shows := Workspace.solve_shows mem options ws report fits addressed complete
      rw [refusal] at shows
      rw [if_pos complete]
      exact shows
    · rw [Workspace.solve_incomplete mem options ws report addressed complete] at refusal
      cases refusal
      rw [if_neg complete]

def lapsed : List (Memory × Workspace.Request .bits32) :=
  [(⟨1000⟩, .start 2 2), (⟨1000⟩, .fill #[1, 2, 2, 4]), (⟨1000⟩, .solve {} ⟨#[], 0, 0, true⟩),
    (⟨1000⟩, .start 2 2)]

theorem statistics_of_last_complete_table_lapsed :
    ∃ first pending ws, Workspace.withRoom (w := .bits32) ⟨1000⟩ 2 2 = .ok (first, pending) ∧
      first.serve lapsed = some ws ∧ first.observe Workspace.noted {} lapsed = ⟨true, ⟨1, 1⟩⟩ ∧
      ws.statistics = ⟨true, ⟨1, 1⟩⟩ := by
  have noted :
      Workspace.observe Workspace.noted (⟨{}, .blank, {}, false⟩ : Workspace .bits32) {} lapsed =
        ⟨true, ⟨1, 1⟩⟩ := by
    decide +kernel
  have ends :
      (Workspace.serve (⟨{}, .blank, {}, false⟩ : Workspace .bits32) lapsed).isSome = true := by
    decide +kernel
  have opened :=
    Workspace.with_room_ok (w := .bits32) ⟨1000⟩ 2 2 ⟨by decide, by decide, by decide, by decide⟩
  obtain ⟨ws, served⟩ := Option.isSome_iff_exists.mp ends
  have shown := (statistics_of_last_complete_table ⟨1000⟩ 2 2 _ ws _ opened lapsed served).1
  exact ⟨_, _, ws, opened, served, noted, shown.trans noted⟩

-- The new table is refused for its missing values, and shown as solved all the same.
theorem incomplete_table_shown_as_solved :
    ∃ first pending ws left, Workspace.withRoom (w := .bits32) ⟨1000⟩ 2 2 = .ok (first, pending) ∧
      first.serve lapsed = some ws ∧
      ws.solve ⟨1000⟩ {} ⟨#[], 0, 0, true⟩ = .error (.refused left (.incomplete 0 4)) ∧
      left.1.solved = true ∧ left.1.tally = ⟨1, 1⟩ := by
  have shown :
      (Workspace.serve (⟨{}, .blank, {}, false⟩ : Workspace .bits32) lapsed).map
        (fun ws => (ws.problem.rows, ws.problem.cols, ws.problem.values, ws.solved, ws.tally)) =
        some (2, 2, #[], true, ⟨1, 1⟩) := by
    decide +kernel
  have opened :=
    Workspace.with_room_ok (w := .bits32) ⟨1000⟩ 2 2 ⟨by decide, by decide, by decide, by decide⟩
  obtain ⟨⟨⟨rows, cols, values⟩, board, tally, solved⟩, served, same⟩ :=
    Option.map_eq_some_iff.mp shown
  cases same
  have refused := Workspace.solve_incomplete ⟨1000⟩ {} ⟨⟨2, 2, #[]⟩, board, ⟨1, 1⟩, true⟩
    (⟨#[], 0, 0, true⟩ : Assignment .bits32) (by decide : 2 * 2 < UInt64.size)
    (by decide : ¬ (#[] : Array Float).size = 2 * 2)
  exact ⟨_, _, _, _, opened, served, refused, rfl, rfl⟩

end LinearAssignment
