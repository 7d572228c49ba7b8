import LinearAssignment.Proofs.History
import LinearAssignment.Proofs.Optimal

set_option autoImplicit false

namespace LinearAssignment

variable {w : Width}

namespace Halt

variable {σ β : Type}

def Unrefused (result : Except (Halt σ) β) : Prop := Keeps (fun _ => False) (fun _ => True) result

theorem unrefused_ok (result : Except (Halt σ) β) (b : β) (ok : result = .ok b) :
    Unrefused result := by
  subst ok
  trivial

theorem unrefused_not (result : Except (Halt σ) β) (unrefused : Unrefused result) :
    ¬ ∃ left why, result = .error (.refused left why) := by
  rintro ⟨left, why, same⟩
  subst same
  exact unrefused

end Halt

namespace Stage

-- The induction is on the phases that the search is allowed. Each of them leaves a search that is
-- ready again.
theorem run_unrefused (phases : Nat) (s : Stage) (shifts : Nat) (tally : Tally)
    (ready : s.Ready shifts) : Halt.Unrefused (Board.runFrom phases s.phase tally s.board) := by
  induction phases generalizing s shifts tally with
  | zero =>
      obtain ⟨phase, b⟩ := s
      cases phase <;> trivial
  | succ n ih =>
      by_cases done : s.phase = .finished
      · obtain ⟨phase, b⟩ := s
        cases done
        trivial
      · obtain ⟨t, left, further⟩ := progress s shifts ready done
        have stepped : s.board.step s.phase = .ok (t.board, t.phase) := further.next
        rw [Board.runFrom]
        · apply Halt.fault_then
          intro _
          rw [stepped]
          exact ih t left _ further.ready
        · exact done

end Stage

namespace Problem

def Complete (p : Problem w) : Prop := p.values.size = p.rows * p.cols

structure Rejected (options : Options) (p : Problem w) : Prop where
  someRow : 0 < p.rows
  someColumn : 0 < p.cols
  strict : options.forbidNonFinite = false
  barred : ∃ v ∈ p.values, v.isFinite = false

structure FirstBarred (p : Problem w) (row col : Nat) (v : Float) : Prop where
  insideRow : row < p.rows
  insideColumn : col < p.cols
  here : p.values[row + p.rows * col]? = some v
  barred : v.isFinite = false
  earlier : ∀ i u, i < row + p.rows * col → p.values[i]? = some u → u.isFinite = true

theorem checked_incomplete (p : Problem w) (addressed : p.Addressed) (incomplete : ¬ p.Complete) :
    p.checkComplete = .error (.refused p (.incomplete p.values.size (p.rows * p.cols))) := by
  have counted : word (p.rows * p.cols) = .ok (p.rows * p.cols) := word_ok _ addressed
  have short : ¬ p.values.size = p.rows * p.cols := incomplete
  simp [checkComplete, counted, require, short, refuse]

theorem first_barred (options : Options) (p : Problem w) (complete : p.Complete)
    (rejected : p.Rejected options) :
    ∃ row col v, p.FirstBarred row col v ∧
      Board.objection? options p.values (.ready p.rows p.cols) =
        some (.nonFinite (.of v) row col) := by
  obtain ⟨u, member, barred⟩ := rejected.barred
  cases found : p.values.findIdx? (!·.isFinite) with
  | none =>
      have finite := Array.findIdx?_eq_none_iff.mp found u member
      rw [barred] at finite
      cases finite
  | some i =>
      obtain ⟨inside, first, earlier⟩ := Array.findIdx?_eq_some_iff_getElem.mp found
      have below : i < p.rows * p.cols := complete ▸ inside
      obtain ⟨insideRow, insideColumn, back⟩ := cell_of_position p.rows p.cols i below
      refine ⟨i % p.rows, i / p.rows, p.values[i],
        ⟨insideRow, insideColumn, ?_, by simpa using first, fun j other before read => ?_⟩, ?_⟩
      · rw [back]
        exact Array.getElem?_eq_getElem inside
      · rw [back] at before
        obtain ⟨_, same⟩ := Array.getElem?_eq_some_iff.mp read
        simpa [same] using earlier j before
      · simp [Board.objection?, rejected.strict, guard, found, Board.cellAt, Board.ready, inside]

theorem values_pass (options : Options) (p : Problem w) (someRow : 0 < p.rows)
    (someColumn : 0 < p.cols) (passes : ¬ p.Rejected options) :
    Board.objection? options p.values (.ready p.rows p.cols) = none := by
  cases forbids : options.forbidNonFinite with
  | true => simp [Board.objection?, forbids]
  | false =>
      apply finite_accepted
      intro v member
      by_contra barred
      exact passes ⟨someRow, someColumn, forbids, v, member, by simpa using barred⟩

end Problem

namespace Assignment

theorem idle_explicit (rows : Nat) (oneBased : Bool) (rowsFit : rows < w.max) :
    idle w rows oneBased =
      ⟨Array.replicate rows (if oneBased then 0 else w.max), 0, rows, oneBased⟩ := by
  simp [idle, free, marker, w.fit_some rows rowsFit.le]

end Assignment

namespace Workspace

theorem problem_prepared (mem : Memory) (options : Options) (p : Problem w)
    (room : mem.Suffices w p.rows p.cols) (complete : p.Complete)
    (priced : p.values.any Float.isFinite)
    (accepted : Board.objection? options p.values (.ready p.rows p.cols) = none) :
    ∃ start, (Board.loaded options p.rows p.cols p.values).reduce = .ok start ∧
      Board.Prepared options p.rows p.cols p.values start := by
  have loads := Board.load_ready options p.rows p.cols p.values complete accepted priced
  obtain ⟨start, reduce, _⟩ :=
    Board.reduced _ (Board.loaded_unmarked options p.rows p.cols p.values complete)
  have reset := Board.reset_ok mem p.rows p.cols (Board.blank : Board Float) room.table.1
    room.rowFlags.1 room.columnFlags.1 room.table.2 room.rowFlags.2 room.columnFlags.2
  exact ⟨start, reduce, mem, Board.blank, _, _, reset, loads, reduce⟩

theorem found_written (options : Options) (p : Problem w) (report : Assignment w) (fits : p.Fits)
    (complete : p.Complete) (free : report.Holds p.rows fun _ => none) (start last : Board Float)
    (tally : Tally) (reduce : (Board.loaded options p.rows p.cols p.values).reduce = .ok start)
    (run : start.run = .ok (last, tally)) :
    ∃ result, search ⟨p, .loaded options p.rows p.cols p.values, {}, false⟩ report =
        .ok (⟨p, last, tally, true⟩, result) ∧
      result.oneBased = report.oneBased ∧ result.Tells p.rows p.values (last.choice p.values) := by
  obtain ⟨searching, lastRows, lastCols⟩ :=
    Board.run_found _ start last tally
      (Board.loaded_unmarked options p.rows p.cols p.values complete) reduce run
  replace lastRows : last.rows = p.rows := lastRows
  replace lastCols : last.cols = p.cols := lastCols
  obtain ⟨recorded, result, records, settles, numbered, tells⟩ :=
    Assignment.board_told last p.values report searching.sized.stars
      (by rw [lastRows, lastCols]; exact complete) (by rw [lastRows]; exact fits.1)
      (by rw [lastCols]; exact fits.2) (by rw [lastRows]; exact free)
  rw [lastRows] at settles tells
  refine ⟨result, ?_, numbered, tells⟩
  simp only [search, reduce, run, records, settles, lift_ok, within_ok, ok_bind, pure_ok]

theorem search_halts (options : Options) (p : Problem w) (report : Assignment w)
    (start : Board Float)
    (reduce : (Board.loaded options p.rows p.cols p.values).reduce = .ok start)
    (halt : Halt (Board Float)) (run : start.run = .error halt) :
    search ⟨p, .loaded options p.rows p.cols p.values, {}, false⟩ report =
      .error (halt.map fun board => (⟨p, board, {}, false⟩, report)) := by
  simp only [search, reduce, run, lift_ok, ok_bind, within_error, error_bind]

theorem search_unrefused (options : Options) (p : Problem w) (report : Assignment w) (fits : p.Fits)
    (complete : p.Complete) (free : report.Holds p.rows fun _ => none) (start : Board Float)
    (reduce : (Board.loaded options p.rows p.cols p.values).reduce = .ok start)
    (priced : start.Priced) :
    Halt.Unrefused (search ⟨p, .loaded options p.rows p.cols p.values, {}, false⟩ report) ∧
      (Stage.CountsFit start →
        ∃ out, search ⟨p, .loaded options p.rows p.cols p.values, {}, false⟩ report = .ok out) := by
  obtain ⟨_, fresh⟩ :=
    Board.reduced_known _ start (Board.loaded_unmarked options p.rows p.cols p.values complete)
      reduce
  constructor
  · have unrefused :=
      Stage.run_unrefused start.phaseBound ⟨.cover, start⟩ 0 {} ⟨fresh, priced, trivial⟩
    change Halt.Unrefused start.run at unrefused
    cases result : start.run with
    | ok found =>
        obtain ⟨_, ends, _⟩ :=
          found_written options p report fits complete free start found.1 found.2 reduce result
        exact Halt.unrefused_ok _ _ ends
    | error halt =>
        rw [search_halts options p report start reduce halt result]
        rw [result] at unrefused
        cases halt with
        | fault why => trivial
        | refused left why => exact unrefused.elim
  · intro counts
    obtain ⟨last, tally, run, _⟩ := Stage.run_finishes start fresh priced counts
    obtain ⟨_, ends, _⟩ :=
      found_written options p report fits complete free start last tally reduce run
    exact ⟨_, ends⟩

theorem readied_cases (options : Options) (p : Problem w) (complete : p.Complete)
    (passes : ¬ p.Rejected options) :
    (∃ out, readiedSolve (w := w) options p.rows p.cols p.values = .ok out) ∨
      p.values.any Float.isFinite ∧
        Board.objection? options p.values (.ready p.rows p.cols) = none ∧
        readiedSolve options p.rows p.cols p.values =
          search ⟨p, .loaded options p.rows p.cols p.values, {}, false⟩
            (.idle w p.rows options.oneBased) := by
  by_cases none : p.rows = 0 ∨ p.cols = 0
  · refine Or.inl
      ⟨({ readied p.rows p.cols p.values with solved := true }, .idle w p.rows options.oneBased),
      ?_⟩
    rw [readiedSolve, if_pos none]
    rfl
  · have accepted := p.values_pass options (by omega) (by omega) passes
    by_cases priced : p.values.any Float.isFinite
    · exact Or.inr ⟨priced, accepted, readied_searches options p.rows p.cols p.values none
        complete accepted priced⟩
    · have unpriced : p.values.any Float.isFinite = false := by simpa using priced
      refine Or.inl
        ⟨({ readied p.rows p.cols p.values with solved := true }, .idle w p.rows options.oneBased),
        ?_⟩
      rw [readiedSolve, if_neg none, readied,
        Board.load_unpriced options p.values (.ready p.rows p.cols) complete accepted unpriced]
      rfl

theorem readied_unrefused (mem : Memory) (options : Options) (p : Problem w)
    (room : mem.Suffices w p.rows p.cols) (fits : p.Fits) (complete : p.Complete)
    (passes : ¬ p.Rejected options)
    (finite : ∀ start, Board.Prepared options p.rows p.cols p.values start →
      ∀ cost ∈ start.costs, cost.isFinite) :
    Halt.Unrefused (readiedSolve (w := w) options p.rows p.cols p.values) ∧
      ((∀ start, (Board.loaded options p.rows p.cols p.values).reduce = .ok start →
        Board.Prepared options p.rows p.cols p.values start →
          Stage.CountsFit start) → ∃ out, readiedSolve (w :=
  w) options p.rows p.cols p.values = .ok out) := by
  cases readied_cases options p complete passes with
  | inl solved =>
      obtain ⟨out, ok⟩ := solved
      exact ⟨Halt.unrefused_ok _ out ok, fun _ => ⟨out, ok⟩⟩
  | inr searched =>
      obtain ⟨priced, accepted, searches⟩ := searched
      obtain ⟨start, reduce, prepared⟩ :=
        problem_prepared mem options p room complete priced accepted
      have costs :=
        Board.prepared_priced options p.rows p.cols p.values start prepared (finite start prepared)
      obtain ⟨unrefused, counted⟩ := search_unrefused options p (.idle w p.rows options.oneBased)
        fits complete (Assignment.holds_free _ p.rows options.oneBased) start reduce costs
      rw [searches]
      exact ⟨unrefused, fun counts => counted (counts start reduce prepared)⟩

theorem solve_incomplete (mem : Memory) (options : Options) (ws : Workspace w)
    (report : Assignment w) (addressed : ws.problem.Addressed)
    (incomplete : ¬ ws.problem.Complete) :
    ws.solve mem options report =
      .error (.refused (ws, report)
        (.incomplete ws.problem.values.size (ws.problem.rows * ws.problem.cols))) := by
  rw [solve, prepare, ws.problem.checked_incomplete addressed incomplete]
  rfl

theorem readied_refused (options : Options) (p : Problem w) (fits : p.Fits) (complete : p.Complete)
    (rejected : p.Rejected options) :
    ∃ row col v, p.FirstBarred row col v ∧
      readiedSolve (w := w) options p.rows p.cols p.values =
        .error (.refused (⟨p, .ready p.rows p.cols, {}, false⟩,
          ⟨Array.replicate p.rows (if options.oneBased then 0 else w.max), 0, p.rows,
          options.oneBased⟩) (.nonFinite (.of v) row col)) := by
  obtain ⟨row, col, v, first, objection⟩ := p.first_barred options complete rejected
  have some : ¬ (p.rows = 0 ∨ p.cols = 0) := by
    have someRow := rejected.someRow
    have someColumn := rejected.someColumn
    omega
  have checked :
      decide (p.values.size = (Board.ready p.rows p.cols : Board Float).rows *
        (Board.ready p.rows p.cols : Board Float).cols) = true :=
    decide_eq_true complete
  refine ⟨row, col, v, first, ?_⟩
  rw [readiedSolve, if_neg some, readied, Board.load, checked, objection,
    Assignment.idle_explicit p.rows options.oneBased fits.1]
  rfl

end Workspace

/-- Solving is refused exactly when the table is incomplete, or when one of its cells holds a value
that is not finite while such values are not allowed for. The first such cell is named, and the
report leaves every row free. -/
theorem solve_refused_exactly (made : Memory) (rowsRoom colsRoom : Nat) (first ws : Workspace w)
    (pending : Assignment w)
    (opened : Workspace.withRoom made rowsRoom colsRoom = .ok (first, pending))
    (history : List (Memory × Workspace.Request w)) (served : first.serve history = some ws)
    (mem : Memory) (options : Options) (report : Assignment w)
    (room : ws.problem.Complete → mem.Suffices w ws.problem.rows ws.problem.cols)
    (grows : ws.problem.Complete → mem.Grants (w.bytes * (report.columns.size + ws.problem.rows)))
    (finite : ∀ start,
      Board.Prepared options ws.problem.rows ws.problem.cols ws.problem.values start →
        ∀ cost ∈ start.costs, cost.isFinite) :
    ((∃ left why, ws.solve mem options report = .error (.refused left why)) ↔
        ¬ ws.problem.Complete ∨ ws.problem.Rejected options) ∧
      (¬ ws.problem.Complete →
        ws.solve mem options report =
          .error (.refused (ws, report)
            (.incomplete ws.problem.values.size (ws.problem.rows * ws.problem.cols)))) ∧
      (ws.problem.Complete → ws.problem.Rejected options →
        ∃ row col v, ws.problem.FirstBarred row col v ∧
          ws.solve mem options report =
            .error (.refused (⟨ws.problem, .ready ws.problem.rows ws.problem.cols, {}, false⟩,
                ⟨Array.replicate ws.problem.rows (if options.oneBased then 0 else w.max), 0,
                  ws.problem.rows, options.oneBased⟩)
              (.nonFinite (.of v) row col))) ∧
      Halt.Keeps (Workspace.For ws.problem) (Workspace.For ws.problem)
        (ws.solve mem options report) ∧
      (ws.problem.Complete → ¬ ws.problem.Rejected options →
        StaysCounted options ws.problem.rows ws.problem.cols ws.problem.values →
        ∃ after result, ws.solve mem options report = .ok (after, result)) := by
  obtain ⟨rfl, rfl⟩ := Workspace.with_room_inverted made rowsRoom colsRoom first pending opened
  have fits := Workspace.served_fits history _ ws Problem.none_fits served
  have addressed := Workspace.served_addressed history _ ws Problem.none_addressed served
  have refused := Workspace.solve_incomplete mem options ws report addressed
  have solves (complete : ws.problem.Complete) :
      ws.solve mem options report =
        Workspace.readiedSolve options ws.problem.rows ws.problem.cols ws.problem.values :=
    Workspace.solve_readied mem options ws report (room complete) (grows complete) complete
  have unrefused (complete : ws.problem.Complete) (passes : ¬ ws.problem.Rejected options) :=
    Workspace.readied_unrefused mem options ws.problem (room complete) fits complete passes finite
  refine ⟨⟨?refusal, ?conditions⟩, refused, ?rejected, Workspace.solve_for mem options ws report,
    ?solved⟩
  case refusal =>
    intro refusal
    by_contra accepted
    obtain ⟨complete, passes⟩ := not_or.mp accepted
    replace complete := not_not.mp complete
    rw [solves complete] at refusal
    exact Halt.unrefused_not _ (unrefused complete passes).1 refusal
  case conditions =>
    intro conditions
    by_cases complete : ws.problem.Complete
    · obtain ⟨row, col, v, _, result⟩ := Workspace.readied_refused options ws.problem fits complete
        (conditions.resolve_left (not_not.mpr complete))
      rw [solves complete]
      exact ⟨_, _, result⟩
    · exact ⟨_, _, refused complete⟩
  case rejected =>
    intro complete rejected
    rw [solves complete]
    exact Workspace.readied_refused options ws.problem fits complete rejected
  case solved =>
    intro complete passes counted
    obtain ⟨out, result⟩ := (unrefused complete passes).2 fun start reduce _ => counted start reduce
    exact ⟨out.1, out.2, (solves complete).trans result⟩

def spoiled : List (Memory × Workspace.Request .bits8) :=
  busy ++ [(⟨1000⟩, .fill #[1, 2, Binary64.infinity, 0 / 0])]

theorem solve_refused_exactly_spoiled :
    (∃ first pending ws, Workspace.withRoom (w := .bits8) ⟨1000⟩ 3 3 = .ok (first, pending) ∧
        first.serve busy = some ws ∧ ws.problem = ⟨2, 2, #[1, 2, 2, 4]⟩ ∧
        ¬ ∃ left why, ws.solve ⟨1000⟩ {} ⟨#[9], 0, 0, false⟩ = .error (.refused left why)) ∧
      ∃ first pending ws, Workspace.withRoom (w := .bits8) ⟨1000⟩ 3 3 = .ok (first, pending) ∧
        first.serve spoiled = some ws ∧
        ∃ row col v, ws.problem.FirstBarred row col v ∧
          ws.solve ⟨1000⟩ { forbidNonFinite := false } ⟨#[9], 0, 0, false⟩ =
            .error (.refused (⟨ws.problem, .ready 2 2, {}, false⟩, ⟨#[0, 0], 0, 2, true⟩)
              (.nonFinite (.of v) row col)) := by
  have opened :=
    Workspace.with_room_ok (w := .bits8) ⟨1000⟩ 3 3 ⟨by decide, by decide, by decide, by decide⟩
  have room : Memory.Suffices ⟨1000⟩ .bits8 2 2 := ⟨by decide, by decide, by decide, by decide⟩
  have grows : Memory.Grants ⟨1000⟩ (Width.bytes .bits8 * (1 + 2)) := by decide
  constructor
  · have served :
        (Workspace.serve (⟨{}, .blank, {}, false⟩ : Workspace .bits8) busy).map
          (fun ws => (ws.problem.rows, ws.problem.cols, ws.problem.values)) =
          some (2, 2, #[1, 2, 2, 4]) := by
      decide +kernel
    obtain ⟨⟨⟨rows, cols, values⟩, board, tally, solved⟩, reached, same⟩ :=
      Option.map_eq_some_iff.mp served
    cases same
    have finite :
        ∀ start, Board.Prepared {} 2 2 #[1, 2, 2, 4] start →
          ∀ cost ∈ start.costs, cost.isFinite := by
      intro start prepared
      rw [(Board.prepared_fresh {} 2 2 #[1, 2, 2, 4] start prepared).1.costs]
      decide +kernel
    obtain ⟨exactly, _⟩ := solve_refused_exactly ⟨1000⟩ 3 3 _ _ _ opened busy reached ⟨1000⟩ {}
      ⟨#[9], 0, 0, false⟩ (fun _ => room) (fun _ => grows) finite
    refine ⟨_, _, _, opened, reached, rfl, fun refused => ?_⟩
    cases exactly.mp refused with
    | inl incomplete => exact incomplete rfl
    | inr rejected => exact nomatch rejected.strict
  · have served :
        (Workspace.serve (⟨{}, .blank, {}, false⟩ : Workspace .bits8) spoiled).map
          (fun ws => (ws.problem.rows, ws.problem.cols, ws.problem.values)) =
          some (2, 2, #[1, 2, Binary64.infinity, 0 / 0]) := by
      decide +kernel
    obtain ⟨⟨⟨rows, cols, values⟩, board, tally, solved⟩, reached, same⟩ :=
      Option.map_eq_some_iff.mp served
    cases same
    have finite :
        ∀ start, Board.Prepared { forbidNonFinite := false } 2 2
            #[1, 2, Binary64.infinity, 0 / 0] start →
          ∀ cost ∈ start.costs, cost.isFinite := by
      rintro start ⟨mem, old, empty, full, reset, load, _⟩
      obtain rfl := Board.reset_inverted mem 2 2 old empty reset
      obtain ⟨_, accepted, _⟩ := Board.load_inverted { forbidNonFinite := false } _ _ full load
      have objects :
          (Board.objection? { forbidNonFinite := false } #[1, 2, Binary64.infinity, 0 / 0]
            (.ready 2 2)).isSome = true := by
        decide +kernel
      rw [accepted] at objects
      cases objects
    obtain ⟨_, _, named, _⟩ := solve_refused_exactly ⟨1000⟩ 3 3 _ _ _ opened spoiled reached ⟨1000⟩
      { forbidNonFinite := false } ⟨#[9], 0, 0, false⟩ (fun _ => room) (fun _ => grows) finite
    exact ⟨_, _, _, opened, reached,
      named rfl ⟨Nat.two_pos, Nat.two_pos, rfl, Binary64.infinity, by simp, rfl⟩⟩

end LinearAssignment
