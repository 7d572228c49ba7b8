import LinearAssignment.Workspace
import LinearAssignment.Proofs.Loading
import LinearAssignment.Proofs.Report

set_option autoImplicit false

namespace LinearAssignment

namespace Memory

def Grants (mem : Memory) (bytes : Nat) : Prop := bytes ≤ largestBuffer ∧ bytes ≤ mem.available

instance (mem : Memory) (bytes : Nat) :
    Decidable (mem.Grants bytes) := inferInstanceAs (Decidable (_ ∧ _))

structure Suffices (mem : Memory) (w : Width) (rows cols : Nat) : Prop where
  table : mem.Grants (8 * (rows * cols))
  rowFlags : mem.Grants rows
  columnFlags : mem.Grants cols
  report : mem.Grants (w.bytes * rows)

theorem granted (mem : Memory) (bytes : Nat) (grants : mem.Grants bytes) :
    mem.request bytes = .ok () :=
  mem.request_ok bytes grants.1 grants.2

theorem insisted (mem : Memory) (bytes : Nat) (grants : mem.Grants bytes) :
    mem.insist bytes = .ok () := by
  rw [insist, granted mem bytes grants]
  rfl

theorem suffices_word (mem : Memory) (w : Width) (rows cols : Nat)
    (room : mem.Suffices w rows cols) : word (rows * cols) = .ok (rows * cols) := by
  refine word_ok _ ?_
  have addressed := room.table.1
  simp only [largestBuffer, UInt64.size] at addressed ⊢
  omega

end Memory

variable {w : Width}

namespace Assignment

def idle (w : Width) (rows : Nat) (oneBased : Bool) : Assignment w :=
  (⟨#[], 0 / 0, w.max, true⟩ : Assignment w).free rows oneBased

theorem idle_pairs (rows : Nat) (oneBased : Bool) : (idle w rows oneBased).pairs = [] := by
  rw [pairs_held (idle w rows oneBased) rows _ (holds_free _ rows oneBased) fun row col _ chosen =>
    nomatch chosen]
  simp

end Assignment

namespace Workspace

theorem with_room_ok (mem : Memory) (rows cols : Nat) (room : mem.Suffices w rows cols) :
    withRoom (w := w) mem rows cols = .ok (⟨{}, .blank, {}, false⟩, ⟨#[], 0 / 0, w.max, true⟩) := by
  have counted := mem.suffices_word w rows cols room
  have table := mem.insisted _ room.table
  have marks : mem.insist (rows * cols) = .ok () :=
    mem.insisted _ ⟨le_trans (by omega) room.table.1, le_trans (by omega) room.table.2⟩
  have rowFlags := mem.insisted _ room.rowFlags
  have columnFlags := mem.insisted _ room.columnFlags
  have report := mem.insisted _ room.report
  simp [withRoom, Board.withRoom, Assignment.pending, counted, table, marks, rowFlags,
    columnFlags, report]

theorem with_room_inverted (mem : Memory) (rows cols : Nat) (ws : Workspace w)
    (report : Assignment w) (opened : withRoom mem rows cols = .ok (ws, report)) :
    ws = ⟨{}, .blank, {}, false⟩ ∧ report = ⟨#[], 0 / 0, w.max, true⟩ := by
  obtain ⟨_, _, opened⟩ := bind_ok _ _ _ opened
  obtain ⟨_, _, opened⟩ := bind_ok _ _ _ opened
  obtain ⟨board, blank, opened⟩ := bind_ok _ _ _ opened
  obtain ⟨pending, empty, opened⟩ := bind_ok _ _ _ opened
  obtain ⟨_, _, blank⟩ := bind_ok _ _ _ blank
  obtain ⟨_, _, blank⟩ := bind_ok _ _ _ blank
  obtain ⟨_, _, blank⟩ := bind_ok _ _ _ blank
  obtain ⟨_, _, blank⟩ := bind_ok _ _ _ blank
  obtain ⟨_, _, blank⟩ := bind_ok _ _ _ blank
  obtain ⟨_, _, blank⟩ := bind_ok _ _ _ blank
  obtain ⟨_, _, empty⟩ := bind_ok _ _ _ empty
  cases blank
  cases empty
  cases opened
  exact ⟨rfl, rfl⟩

theorem start_ok (mem : Memory) (rows cols : Nat) (p : Problem w) (room : mem.Suffices w rows cols)
    (rowsFit : rows < w.max) (colsFit : cols < w.max) :
    p.start mem rows cols = .ok ⟨rows, cols, #[]⟩ := by
  have counted := mem.suffices_word w rows cols room
  have table := mem.granted _ room.table
  simp [Problem.start, require, rowsFit, colsFit, counted, table]

theorem fill_ok (rows cols : Nat) (values : Array Float)
    (counted : word (rows * cols) = .ok (rows * cols)) (size : values.size = rows * cols) :
    (⟨rows, cols, #[]⟩ : Problem w).fill values = .ok ⟨rows, cols, values⟩ := by
  simp [Problem.fill, require, counted, size]

def readied (rows cols : Nat) (values : Array Float) : Workspace w :=
  ⟨⟨rows, cols, values⟩, .ready rows cols, {}, false⟩

theorem prepare_ok (mem : Memory) (options : Options) (ws : Workspace w) (report : Assignment w)
    (room : mem.Suffices w ws.problem.rows ws.problem.cols)
    (grows : mem.Grants (w.bytes * (report.columns.size + ws.problem.rows)))
    (size : ws.problem.values.size = ws.problem.rows * ws.problem.cols) :
    prepare mem options ws report =
      .ok (readied ws.problem.rows ws.problem.cols ws.problem.values,
        .idle w ws.problem.rows options.oneBased) := by
  have counted := mem.suffices_word w _ _ room
  have reset := Board.reset_ok mem ws.problem.rows ws.problem.cols ws.board room.table.1
    room.rowFlags.1 room.columnFlags.1 room.table.2 room.rowFlags.2 room.columnFlags.2
  have grown := mem.granted _ grows
  simp [prepare, Problem.checkComplete, require, Assignment.grow, counted, size, reset, grown,
    readied, Assignment.idle, Assignment.free, Assignment.marker]

theorem complete_inverted (p : Problem w) (result : p.checkComplete = .ok ()) :
    p.values.size = p.rows * p.cols := by
  obtain ⟨cells, counted, result⟩ := bind_ok _ _ _ result
  obtain ⟨same, _⟩ := word_inverted _ _ (map_error_ok _ _ _ counted)
  by_cases size : p.values.size = cells
  · exact size.trans same
  · simp [require, size, refuse] at result

theorem prepare_inverted (mem : Memory) (options : Options) (ws : Workspace w)
    (report : Assignment w) (out : Workspace w × Assignment w)
    (result : ws.prepare mem options report = .ok out) :
    ws.problem.values.size = ws.problem.rows * ws.problem.cols ∧
      out =
        (readied ws.problem.rows ws.problem.cols ws.problem.values,
          .idle w ws.problem.rows options.oneBased) := by
  obtain ⟨_, complete, result⟩ := bind_ok _ _ _ result
  obtain ⟨board, reset, result⟩ := bind_ok _ _ _ result
  obtain ⟨_, _, result⟩ := bind_ok _ _ _ result
  have ready := Board.reset_inverted _ _ _ _ _ (map_error_ok _ _ _ reset)
  subst ready
  exact ⟨complete_inverted ws.problem (map_error_ok _ _ _ complete), (Except.ok.inj result).symm⟩

def readiedSolve (options : Options) (rows cols : Nat) (values : Array Float) :
    Except (Halt (Workspace w × Assignment w)) (Workspace w × Assignment w) := do
  let ws := readied rows cols values
  let report := Assignment.idle w rows options.oneBased
  if rows = 0 ∨ cols = 0 then
    return ({ ws with solved := true }, report)
  else
    let (board, priced) ← within (fun board => ({ ws with board }, report))
      (ws.board.load options values)
    let ws := { ws with board }
    if priced then ws.search report else return ({ ws with solved := true }, report)

theorem readied_searches (options : Options) (rows cols : Nat) (values : Array Float)
    (some : ¬ (rows = 0 ∨ cols = 0)) (size : values.size = rows * cols)
    (accepted : Board.objection? options values (.ready rows cols) = none)
    (priced : values.any Float.isFinite) :
    readiedSolve (w := w) options rows cols values =
      search ⟨⟨rows, cols, values⟩, .loaded options rows cols values, {}, false⟩
        (.idle w rows options.oneBased) := by
  rw [readiedSolve, if_neg some, readied,
    Board.load_ready options rows cols values size accepted priced]
  rfl

theorem solve_readied (mem : Memory) (options : Options) (ws : Workspace w) (report : Assignment w)
    (room : mem.Suffices w ws.problem.rows ws.problem.cols)
    (grows : mem.Grants (w.bytes * (report.columns.size + ws.problem.rows)))
    (size : ws.problem.values.size = ws.problem.rows * ws.problem.cols) :
    solve mem options ws report =
      readiedSolve options ws.problem.rows ws.problem.cols ws.problem.values := by
  rw [solve, prepare_ok mem options ws report room grows size]
  rfl

theorem optimal_readied (mem : Memory) (options : Options) (rows cols : Nat) (values : Array Float)
    (room : mem.Suffices w rows cols) (rowsFit : rows < w.max) (colsFit : cols < w.max)
    (size : values.size = rows * cols) :
    optimalAssignment mem options rows cols values =
      within (fun _ => ()) ((readiedSolve (w := w) options rows cols values).map Prod.snd) := by
  have solves := solve_readied mem options (⟨⟨rows, cols, values⟩, .blank, {}, false⟩ : Workspace w)
    ⟨#[], 0 / 0, w.max, true⟩ room (by simpa using room.report) size
  simp only [optimalAssignment, with_room_ok mem rows cols room,
    start_ok mem rows cols _ room rowsFit colsFit,
    fill_ok rows cols values (mem.suffices_word w rows cols room) size, solves, lift_ok,
    within_ok, ok_bind]
  cases readiedSolve (w := w) options rows cols values <;> rfl

theorem optimal_opened (mem : Memory) (options : Options) (rows cols : Nat) (values : Array Float)
    (room : mem.Suffices w rows cols) (rowsFit : rows < w.max) (colsFit : cols < w.max)
    (size : values.size = rows * cols) (solved : Workspace w) (report : Assignment w)
    (solves : readiedSolve options rows cols values = .ok (solved, report)) :
    optimalAssignment mem options rows cols values = .ok report := by
  rw [optimal_readied mem options rows cols values room rowsFit colsFit size, solves]
  rfl

end Workspace

theorem solved_without_cells (mem : Memory) (options : Options) (rows cols : Nat)
    (values : Array Float) (room : mem.Suffices w rows cols) (rowsFit : rows < w.max)
    (colsFit : cols < w.max) (size : values.size = rows * cols) (none : rows = 0 ∨ cols = 0) :
    optimalAssignment mem options rows cols values = .ok (.idle w rows options.oneBased) := by
  refine Workspace.optimal_opened mem options rows cols values room rowsFit colsFit size
    { Workspace.readied rows cols values with solved := true } _ ?_
  rw [Workspace.readiedSolve, if_pos none]
  rfl

theorem solved_without_finite (mem : Memory) (options : Options) (rows cols : Nat)
    (values : Array Float) (room : mem.Suffices w rows cols) (rowsFit : rows < w.max)
    (colsFit : cols < w.max) (size : values.size = rows * cols)
    (forbids : options.forbidNonFinite = true) (unpriced : values.any Float.isFinite = false) :
    optimalAssignment mem options rows cols values = .ok (.idle w rows options.oneBased) := by
  by_cases none : rows = 0 ∨ cols = 0
  · exact solved_without_cells mem options rows cols values room rowsFit colsFit size none
  · have accepted : Board.objection? options values (.ready rows cols) = Option.none := by
      simp [Board.objection?, forbids]
    have loads := Board.load_unpriced options values (.ready rows cols) size accepted unpriced
    refine Workspace.optimal_opened mem options rows cols values room rowsFit colsFit size
      { Workspace.readied rows cols values with solved := true } _ ?_
    rw [Workspace.readiedSolve, if_neg none, Workspace.readied, loads]
    rfl

theorem solved_by_search (mem : Memory) (options : Options) (rows cols : Nat) (values : Array Float)
    (room : mem.Suffices w rows cols) (rowsFit : rows < w.max) (colsFit : cols < w.max)
    (size : values.size = rows * cols) (cells : ¬ (rows = 0 ∨ cols = 0))
    (accepted : Board.objection? options values (.ready rows cols) = none)
    (priced : values.any Float.isFinite) (start last : Board Float) (tally : Tally)
    (reduce : (Board.loaded options rows cols values).reduce = .ok start)
    (run : start.run = .ok (last, tally)) (stars : last.stars.size = last.rows * last.cols)
    (lastRows : last.rows = rows) (lastCols : last.cols = cols) :
    ∃ report : Assignment w, optimalAssignment mem options rows cols values = .ok report ∧
      report.pairs = last.chosenPairs values ∧
      report.cost = (last.chosenPairs values).foldl (Assignment.addValue values rows) 0 ∧
      report.unassigned + report.pairs.length = rows := by
  subst lastRows lastCols
  obtain ⟨recorded, report, records, settles, _, _, pairs, cost, unassigned⟩ :=
    Assignment.board_reported last values (.idle w last.rows options.oneBased) stars size rowsFit
      colsFit (Assignment.holds_free _ last.rows options.oneBased)
  refine ⟨report, ?_, pairs, cost, unassigned⟩
  refine Workspace.optimal_opened mem options last.rows last.cols values room rowsFit colsFit size
    ⟨⟨last.rows, last.cols, values⟩, last, tally, true⟩ report ?_
  rw [Workspace.readied_searches options last.rows last.cols values cells size accepted priced]
  simp [Workspace.search, reduce, run, records, settles]

end LinearAssignment
