import LinearAssignment.Proofs.Solve

set_option autoImplicit false

namespace LinearAssignment

variable {w : Width}

namespace Problem

def Fits (p : Problem w) : Prop := p.rows < w.max ∧ p.cols < w.max

def Addressed (p : Problem w) : Prop := p.rows * p.cols < UInt64.size

theorem none_fits : ({} : Problem w).Fits := ⟨w.max_pos, w.max_pos⟩

theorem none_addressed : ({} : Problem w).Addressed := (by decide : 0 * 0 < UInt64.size)

structure Lasting (kept : Problem w → Prop) : Prop where
  started : ∀ rows cols, rows < w.max → cols < w.max → rows * cols < UInt64.size →
    kept ⟨rows, cols, #[]⟩
  given : ∀ p values, kept p → kept { p with values }

theorem fits_lasting : Lasting (Fits (w := w)) where
  started := fun _ _ rowsFit colsFit _ => ⟨rowsFit, colsFit⟩
  given := fun _ _ fits => fits

theorem addressed_lasting : Lasting (Addressed (w := w)) where
  started := fun _ _ _ _ small => small
  given := fun _ _ addressed => addressed

section

variable (kept : Problem w → Prop) (lasting : Lasting kept)

include lasting

theorem start_keeps (mem : Memory) (rows cols : Nat) (p : Problem w) (holds : kept p) :
    Halt.Keeps kept kept (p.start mem rows cols) := by
  apply Halt.require_then kept kept _ p _ _ holds
  intro rowsFit
  apply Halt.require_then kept kept _ p _ _ holds
  intro colsFit
  by_cases small : rows * cols < UInt64.size
  · have resized :=
      lasting.started rows cols (of_decide_eq_true rowsFit) (of_decide_eq_true colsFit) small
    rw [word_ok _ small, refuse_on_ok, ok_bind]
    exact Halt.refuse_on_then kept kept _ _ (mem.request (8 * (rows * cols))) _ resized fun _ =>
      resized
  · rw [word, if_neg small]
    exact holds

theorem append_keeps (row col : Nat) (value : Float) (p : Problem w) (holds : kept p) :
    Halt.Keeps kept kept (p.append row col value) := by
  apply Halt.require_then kept kept _ p _ _ holds
  intro _
  apply Halt.fault_then
  intro position
  apply Halt.require_then kept kept _ p _ _ holds
  exact fun _ => lasting.given p _ holds

theorem append_column_keeps (col : Nat) (values : Array Float) (p : Problem w) (holds : kept p) :
    Halt.Keeps kept kept (p.appendColumn col values) := by
  apply Halt.require_then kept kept _ p _ _ holds
  intro _
  apply Halt.require_then kept kept _ p _ _ holds
  intro _
  apply Halt.fault_then
  intro position
  apply Halt.require_then kept kept _ p _ _ holds
  exact fun _ => lasting.given p _ holds

theorem fill_keeps (values : Array Float) (p : Problem w) (holds : kept p) :
    Halt.Keeps kept kept (p.fill values) := by
  apply Halt.fault_then
  intro cells
  apply Halt.require_then kept kept _ p _ _ holds
  exact fun _ => lasting.given p values holds

end

theorem check_keeps (p : Problem w) : Halt.Keeps (· = p) (fun _ => True) p.checkComplete := by
  apply Halt.fault_then
  intro cells
  rw [require]
  split
  · trivial
  · rfl

end Problem

namespace Workspace

def For (p : Problem w) (pair : Workspace w × Assignment w) : Prop := pair.1.problem = p

theorem prepare_for (mem : Memory) (options : Options) (ws : Workspace w) (report : Assignment w) :
    Halt.Keeps (For ws.problem) (For ws.problem) (ws.prepare mem options report) := by
  refine Halt.bind_keeps (For ws.problem) (fun _ => True) (For ws.problem) _ _ ?complete fun _ _ =>
    ?ready
  case complete =>
    exact Halt.within_keeps (For ws.problem) _ (· = ws.problem) _ _ (Problem.check_keeps ws.problem)
      fun _ same => same
  case ready =>
    refine Halt.within_then (For ws.problem) (For ws.problem) _ _ _ (fun _ => rfl) fun board => ?_
    exact Halt.refuse_on_then (For ws.problem) (For ws.problem) _ _ _ _ rfl fun _ => rfl

theorem search_for (ws : Workspace w) (report : Assignment w) :
    Halt.Keeps (For ws.problem) (For ws.problem) (ws.search report) := by
  refine Halt.within_then (For ws.problem) (For ws.problem) _ _ _ (fun _ => rfl) fun found => ?_
  refine Halt.within_then (For ws.problem) (For ws.problem) _ _ _ (fun _ => rfl) fun recorded => ?_
  exact Halt.fault_then (For ws.problem) (For ws.problem) _ _ fun settled => rfl

theorem solve_for (mem : Memory) (options : Options) (ws : Workspace w) (report : Assignment w) :
    Halt.Keeps (For ws.problem) (For ws.problem) (ws.solve mem options report) := by
  apply Halt.bind_keeps (For ws.problem) (For ws.problem) (For ws.problem) _ _
    (prepare_for mem options ws report)
  rintro ⟨ready, idle⟩ same
  replace same : ready.problem = ws.problem := same
  by_cases none : ready.problem.rows = 0 ∨ ready.problem.cols = 0
  · simp only [none, if_true]
    exact same
  · simp only [none, if_false]
    refine Halt.within_then (For ws.problem) (For ws.problem) _ _ _ (fun _ => same) ?_
    rintro ⟨board, priced⟩
    cases priced with
    | false => exact same
    | true => exact same ▸ search_for _ idle

inductive Request (w : Width) where
  | start (rows cols : Nat)
  | append (row col : Nat) (value : Float)
  | appendColumn (col : Nat) (values : Array Float)
  | fill (values : Array Float)
  | solve (options : Options) (report : Assignment w)

def pose (ws : Workspace w) (problem : Problem w) : Workspace w := { ws with problem }

def answer (mem : Memory) (ws : Workspace w) : Request w → Except (Halt (Workspace w)) (Workspace w)
  | .start rows cols => Halt.embed ws.pose (ws.problem.start mem rows cols)
  | .append row col value => Halt.embed ws.pose (ws.problem.append row col value)
  | .appendColumn col values => Halt.embed ws.pose (ws.problem.appendColumn col values)
  | .fill values => Halt.embed ws.pose (ws.problem.fill values)
  | .solve options report => Halt.embed Prod.fst (ws.solve mem options report)

def serve (ws : Workspace w) (history : List (Memory × Request w)) : Option (Workspace w) :=
  history.foldlM (fun ws (mem, request) => Halt.left? (ws.answer mem request)) ws

-- What an observer has noted by the end of a history. Of a request that breaks off nothing is
-- noted, and nothing follows it.
def observe {τ : Type} (note : Memory → Workspace w → Request w → τ → τ) (ws : Workspace w)
    (noted : τ) : List (Memory × Request w) → τ
  | [] => noted
  | (mem, request) :: rest =>
    match Halt.left? (ws.answer mem request) with
    | some next => next.observe note (note mem ws request noted) rest
    | none => noted

-- The induction is on the requests: notes that agree with the workspace before each of them agree
-- with it after all of them.
theorem observed_agrees {τ : Type} (note : Memory → Workspace w → Request w → τ → τ)
    (agrees : Workspace w → τ → Prop)
    (step : ∀ mem ws request next noted, agrees ws noted →
      Halt.left? (ws.answer mem request) = some next → agrees next (note mem ws request noted))
    (history : List (Memory × Request w)) (ws after : Workspace w) (noted : τ)
    (holds : agrees ws noted) (served : ws.serve history = some after) :
    agrees after (ws.observe note noted history) := by
  induction history generalizing ws noted with
  | nil =>
      cases served
      exact holds
  | cons first rest ih =>
      obtain ⟨mem, request⟩ := first
      obtain ⟨next, left, served⟩ := Option.bind_eq_some_iff.mp served
      replace left : Halt.left? (ws.answer mem request) = some next := left
      rw [observe, left]
      exact ih next (note mem ws request noted) (step mem ws request next noted holds left) served

section

variable (kept : Problem w → Prop) (lasting : Problem.Lasting kept)

include lasting

theorem answer_keeps (mem : Memory) (ws : Workspace w) (request : Request w)
    (holds : kept ws.problem) :
    Halt.Keeps (fun ws => kept ws.problem) (fun ws => kept ws.problem) (ws.answer mem request) := by
  cases request with
  | start rows cols =>
      exact Halt.embed_keeps _ ws.pose _
        (Problem.start_keeps kept lasting mem rows cols ws.problem holds)
  | append row col value =>
      exact Halt.embed_keeps _ ws.pose _
        (Problem.append_keeps kept lasting row col value ws.problem holds)
  | appendColumn col values =>
      exact Halt.embed_keeps _ ws.pose _
        (Problem.append_column_keeps kept lasting col values ws.problem holds)
  | fill values =>
      exact Halt.embed_keeps _ ws.pose _ (Problem.fill_keeps kept lasting values ws.problem holds)
  | solve options report =>
      have still (pair : Workspace w × Assignment w) (same : For ws.problem pair) :
          kept pair.1.problem :=
        same ▸ holds
      exact Halt.embed_keeps _ Prod.fst _
        (Halt.keeps_more _ _ _ (solve_for mem options ws report) still)

theorem served_keeps (history : List (Memory × Request w)) (ws after : Workspace w)
    (holds : kept ws.problem) (served : ws.serve history = some after) : kept after.problem := by
  apply observed_agrees (fun _ _ _ noted => noted) (fun ws (_ : Unit) => kept ws.problem) ?step
    history ws after () holds served
  intro mem ws request next _ holds left
  exact Halt.left_kept _ _ next (answer_keeps kept lasting mem ws request holds) left

end

theorem served_fits (history : List (Memory × Request w)) (ws after : Workspace w)
    (fits : ws.problem.Fits) (served : ws.serve history = some after) : after.problem.Fits :=
  served_keeps Problem.Fits Problem.fits_lasting history ws after fits served

theorem served_addressed (history : List (Memory × Request w)) (ws after : Workspace w)
    (addressed : ws.problem.Addressed) (served : ws.serve history = some after) :
    after.problem.Addressed :=
  served_keeps Problem.Addressed Problem.addressed_lasting history ws after addressed served

theorem served_anew (mem : Memory) (rows cols : Nat) (values : Array Float) (ws : Workspace w)
    (room : mem.Suffices w rows cols) (rowsFit : rows < w.max) (colsFit : cols < w.max)
    (size : values.size = rows * cols) :
    ws.serve [(mem, .start rows cols), (mem, .fill values)] =
      some (ws.pose ⟨rows, cols, values⟩) := by
  have starts := start_ok mem rows cols ws.problem room rowsFit colsFit
  have fills := fill_ok (w := w) rows cols values (mem.suffices_word w rows cols room) size
  simp [serve, answer, starts, pose, fills, Halt.embed, Halt.left?, Except.map]

end Workspace

/-- Whatever a workspace was asked for before and whatever the report given holds, a full table is
solved as the table alone would be. -/
theorem solve_forgets_history (made : Memory) (rowsRoom colsRoom : Nat) (first ws : Workspace w)
    (pending : Assignment w)
    (opened : Workspace.withRoom made rowsRoom colsRoom = .ok (first, pending))
    (history : List (Memory × Workspace.Request w)) (served : first.serve history = some ws)
    (complete : ws.problem.values.size = ws.problem.rows * ws.problem.cols) (mem : Memory)
    (options : Options) (report : Assignment w)
    (room : mem.Suffices w ws.problem.rows ws.problem.cols)
    (grows : mem.Grants (w.bytes * (report.columns.size + ws.problem.rows))) :
    optimalAssignment mem options ws.problem.rows ws.problem.cols ws.problem.values =
        within (fun _ => ()) ((ws.solve mem options report).map Prod.snd) ∧
      ∀ other rowsRoom colsRoom (fresh : Workspace w) (empty : Assignment w),
        Workspace.withRoom other rowsRoom colsRoom = .ok (fresh, empty) →
        ∃ renewed,
          fresh.serve [(mem, .start ws.problem.rows ws.problem.cols),
              (mem, .fill ws.problem.values)] = some renewed ∧
            ws.solve mem options report = renewed.solve mem options empty := by
  obtain ⟨rfl, rfl⟩ := Workspace.with_room_inverted made rowsRoom colsRoom first pending opened
  obtain ⟨rowsFit, colsFit⟩ := Workspace.served_fits history _ ws Problem.none_fits served
  have solves := Workspace.solve_readied mem options ws report room grows complete
  constructor
  · rw [solves]
    exact Workspace.optimal_readied mem options _ _ _ room rowsFit colsFit complete
  · intro other rowsRoom colsRoom fresh empty openedToo
    obtain ⟨rfl, rfl⟩ := Workspace.with_room_inverted other rowsRoom colsRoom fresh empty openedToo
    have unfilled : mem.Grants (w.bytes * ((#[] : Array Nat).size + ws.problem.rows)) := by
      simpa using room.report
    refine ⟨_, Workspace.served_anew mem _ _ _ _ room rowsFit colsFit complete, ?_⟩
    have anew :=
      Workspace.solve_readied mem options (Workspace.pose ⟨{}, .blank, {}, false⟩ ws.problem)
        ⟨#[], 0 / 0, w.max, true⟩ room unfilled complete
    exact solves.trans anew.symm

-- A table solved column by column, one refused for its cells and one for its size, and the table of
-- interest one cell short at first.
def busy : List (Memory × Workspace.Request .bits8) :=
  [(⟨1000⟩, .start 1 2), (⟨1000⟩, .appendColumn 0 #[5]), (⟨1000⟩, .appendColumn 1 #[3]),
    (⟨1000⟩, .solve {} ⟨#[7], 0, 0, true⟩), (⟨1000⟩, .start 2 1),
    (⟨1000⟩, .fill #[1, Binary64.infinity]),
    (⟨1000⟩, .solve { forbidNonFinite := false } ⟨#[], 0, 0, true⟩), (⟨1000⟩, .start 255 1),
    (⟨1000⟩, .start 2 2), (⟨1000⟩, .appendColumn 0 #[1, 2]), (⟨1000⟩, .append 0 1 2),
    (⟨1000⟩, .solve {} ⟨#[], 0, 0, true⟩), (⟨1000⟩, .append 1 1 4)]

theorem solve_forgets_history_busy :
    ∃ first pending ws, Workspace.withRoom (w := .bits8) ⟨1000⟩ 3 3 = .ok (first, pending) ∧
      first.serve busy = some ws ∧ ws.problem = ⟨2, 2, #[1, 2, 2, 4]⟩ ∧
      optimalAssignment ⟨1000⟩ {} 2 2 #[1, 2, 2, 4] =
        within (fun _ => ()) ((ws.solve ⟨1000⟩ {} ⟨#[9, 9, 9], 0, 0, false⟩).map Prod.snd) ∧
      ∀ other rowsRoom colsRoom (fresh : Workspace .bits8) (empty : Assignment .bits8),
        Workspace.withRoom other rowsRoom colsRoom = .ok (fresh, empty) →
        ∃ renewed,
          fresh.serve [(⟨1000⟩, .start 2 2), (⟨1000⟩, .fill #[1, 2, 2, 4])] = some renewed ∧
            ws.solve ⟨1000⟩ {} ⟨#[9, 9, 9], 0, 0, false⟩ = renewed.solve ⟨1000⟩ {} empty := by
  have served :
      (Workspace.serve (⟨{}, .blank, {}, false⟩ : Workspace .bits8) busy).map (·.problem.values) =
        some #[1, 2, 2, 4] := by
    decide +kernel
  have sized :
      (Workspace.serve (⟨{}, .blank, {}, false⟩ : Workspace .bits8) busy).map
        (fun ws => (ws.problem.rows, ws.problem.cols)) = some (2, 2) := by
    decide +kernel
  have opened :=
    Workspace.with_room_ok (w := .bits8) ⟨1000⟩ 3 3 ⟨by decide, by decide, by decide, by decide⟩
  obtain ⟨⟨⟨rows, cols, values⟩, board, tally, solved⟩, reached, same⟩ :=
    Option.map_eq_some_iff.mp served
  rw [reached] at sized
  cases sized
  cases same
  have room : Memory.Suffices ⟨1000⟩ .bits8 2 2 := ⟨by decide, by decide, by decide, by decide⟩
  have grows : Memory.Grants ⟨1000⟩ (Width.bytes .bits8 * (3 + 2)) := by decide
  refine ⟨_, _, _, opened, reached, rfl, ?_⟩
  exact solve_forgets_history ⟨1000⟩ 3 3 _ _ _ opened busy reached rfl ⟨1000⟩ {}
    ⟨#[9, 9, 9], 0, 0, false⟩ room grows

end LinearAssignment
