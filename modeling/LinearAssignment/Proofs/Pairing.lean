import LinearAssignment.Proofs.Refusal

/-! What comes of a table before it is written: the search knows neither width nor numbering. -/

set_option autoImplicit false

namespace LinearAssignment

variable {w : Width}

namespace Board

def pairing (options : Options) (rows cols : Nat) (values : Array Float) :
    Except (Halt (Board Float)) (Option (Board Float × Tally)) :=
  if rows = 0 ∨ cols = 0 then
    return none
  else do
    let (board, priced) ← (ready rows cols).load options values
    if priced then return some (← (← board.reduce).run) else return none

def chosenOf (found : Option (Board Float × Tally)) (values : Array Float) (row : Nat) :
    Option Nat :=
  found.bind fun (last, _) => last.choice values row

def tallyOf (found : Option (Board Float × Tally)) : Tally := (found.map Prod.snd).getD {}

theorem pairing_searched (options : Options) (rows cols : Nat) (values : Array Float)
    (last : Board Float) (tally : Tally)
    (found : pairing options rows cols values = .ok (some (last, tally))) :
    values.size = rows * cols ∧
      ∃ start, (loaded options rows cols values).reduce = .ok start ∧
        start.run = .ok (last, tally) ∧ ¬ (rows = 0 ∨ cols = 0) ∧
        objection? options values (ready rows cols) = none ∧ values.any Float.isFinite := by
  by_cases none : rows = 0 ∨ cols = 0
  · rw [pairing, if_pos none] at found
    cases found
  · rw [pairing, if_neg none] at found
    obtain ⟨⟨board, priced⟩, loads, found⟩ := bind_ok _ _ _ found
    cases priced with
    | false => cases found
    | true =>
        obtain ⟨size, accepted, finite, same⟩ := ready_loaded options rows cols values board loads
        subst same
        obtain ⟨start, reduce, found⟩ := bind_ok _ _ _ found
        obtain ⟨out, run, found⟩ := bind_ok _ _ _ found
        cases found
        exact ⟨size, start, map_error_ok _ _ _ reduce, run, none, accepted, finite⟩

theorem pairing_size (options : Options) (rows cols : Nat) (values : Array Float)
    (last : Board Float) (tally : Tally)
    (found : pairing options rows cols values = .ok (some (last, tally))) :
    last.rows = rows ∧ last.cols = cols := by
  obtain ⟨size, start, reduce, run, _⟩ := pairing_searched options rows cols values last tally found
  exact (run_found _ start last tally (loaded_unmarked options rows cols values size) reduce run).2

theorem chosen_cell (options : Options) (rows cols : Nat) (values : Array Float)
    (found : Option (Board Float × Tally)) (paired : pairing options rows cols values = .ok found)
    (row col : Nat) (chosen : chosenOf found values row = some col) :
    row < rows ∧ col < cols ∧ ∃ v, values[row + rows * col]? = some v ∧ v.isFinite := by
  obtain ⟨⟨last, tally⟩, same, chosen⟩ := Option.bind_eq_some_iff.mp chosen
  subst same
  obtain ⟨size, _⟩ := pairing_searched options rows cols values last tally paired
  obtain ⟨rfl, rfl⟩ := pairing_size options rows cols values last tally paired
  obtain ⟨star, finite⟩ := Option.filter_eq_some_iff.mp chosen
  have starred := last.star_of_starred row col star
  exact ⟨starred.1, starred.2.1, _, cell_value values last.rows last.cols row col size starred.1
    starred.2.1, finite⟩

end Board

namespace Workspace

theorem readied_halts (options : Options) (p : Problem w) (halt : Halt (Board Float))
    (halted : Board.pairing options p.rows p.cols p.values = .error halt) :
    readiedSolve options p.rows p.cols p.values =
      .error (halt.map fun board => (⟨p, board, {}, false⟩, .idle w p.rows options.oneBased)) := by
  by_cases none : p.rows = 0 ∨ p.cols = 0
  · rw [Board.pairing, if_pos none] at halted
    cases halted
  · rw [Board.pairing, if_neg none] at halted
    rw [readiedSolve, if_neg none, readied]
    cases loads : (Board.ready p.rows p.cols).load options p.values with
    | error why =>
        rw [loads] at halted
        cases halted
        rfl
    | ok out =>
        obtain ⟨board, priced⟩ := out
        rw [loads] at halted
        cases priced with
        | false => cases halted
        | true =>
            cases reduce : board.reduce with
            | error why =>
                simp only [ok_bind, if_true, reduce, lift_error, error_bind] at halted
                cases halted
                simp only [within_ok, ok_bind, if_true, search, reduce, lift_error,
                  error_bind, within_error]
            | ok start =>
                cases run : start.run with
                | error why =>
                    simp only [ok_bind, if_true, reduce, lift_ok, run, error_bind] at halted
                    cases halted
                    simp only [within_ok, ok_bind, if_true, search, reduce, lift_ok, run,
                      within_error, error_bind]
                | ok found =>
                    simp only [ok_bind, if_true, reduce, lift_ok, run, pure_ok] at halted
                    cases halted

theorem readied_paired (options : Options) (p : Problem w) (fits : p.Fits) (complete : p.Complete)
    (found : Option (Board Float × Tally))
    (paired : Board.pairing options p.rows p.cols p.values = .ok found) :
    ∃ board report, readiedSolve options p.rows p.cols p.values =
        .ok (⟨p, board, Board.tallyOf found, true⟩, report) ∧
      report.oneBased = options.oneBased ∧
      report.Tells p.rows p.values (Board.chosenOf found p.values) := by
  cases found with
  | none =>
      have idle :
          (Assignment.idle w p.rows options.oneBased).Tells p.rows p.values fun _ => none := by
        refine ⟨Assignment.holds_free _ p.rows options.oneBased, ?_, ?_⟩
        · simp [Assignment.idle, Assignment.free]
        · simp [Assignment.idle, Assignment.free, Assignment.count, w.fit_some p.rows fits.1.le]
      by_cases none : p.rows = 0 ∨ p.cols = 0
      · refine ⟨.ready p.rows p.cols, .idle w p.rows options.oneBased, ?_, rfl, idle⟩
        rw [readiedSolve, if_pos none]
        rfl
      · rw [Board.pairing, if_neg none] at paired
        obtain ⟨⟨board, priced⟩, loads, paired⟩ := bind_ok _ _ _ paired
        cases priced with
        | true =>
            obtain ⟨start, _, paired⟩ := bind_ok _ _ _ paired
            obtain ⟨out, _, paired⟩ := bind_ok _ _ _ paired
            cases paired
        | false =>
            refine ⟨board, .idle w p.rows options.oneBased, ?_, rfl, idle⟩
            rw [readiedSolve, if_neg none, readied, loads]
            rfl
  | some out =>
      obtain ⟨last, tally⟩ := out
      obtain ⟨_, start, reduce, run, some, accepted, priced⟩ :=
        Board.pairing_searched options _ _ _ last tally paired
      obtain ⟨report, written, numbered, tells⟩ :=
        found_written options p (.idle w p.rows options.oneBased) fits complete
          (Assignment.holds_free _ p.rows options.oneBased) start last tally reduce run
      rw [readied_searches options p.rows p.cols p.values some complete accepted priced]
      exact ⟨last, report, written, numbered, tells⟩

theorem readied_told (options : Options) (p : Problem w) (fits : p.Fits) (complete : p.Complete)
    (after : Workspace w) (result : Assignment w)
    (solves : readiedSolve options p.rows p.cols p.values = .ok (after, result)) :
    ∃ found, Board.pairing options p.rows p.cols p.values = .ok found ∧
      after = ⟨p, after.board, Board.tallyOf found, true⟩ ∧ result.oneBased = options.oneBased ∧
      result.Tells p.rows p.values (Board.chosenOf found p.values) := by
  cases paired : Board.pairing options p.rows p.cols p.values with
  | error halt =>
      rw [readied_halts options p halt paired] at solves
      cases solves
  | ok found =>
      obtain ⟨board, report, solvesToo, numbered, tells⟩ :=
        readied_paired options p fits complete found paired
      cases solves.symm.trans solvesToo
      exact ⟨found, rfl, rfl, numbered, tells⟩

theorem optimal_halts (mem : Memory) (options : Options) (rows cols : Nat) (values : Array Float)
    (room : mem.Suffices w rows cols) (rowsFit : rows < w.max) (colsFit : cols < w.max)
    (size : values.size = rows * cols) (halt : Halt (Board Float))
    (halted : Board.pairing options rows cols values = .error halt) :
    (optimalAssignment mem options rows cols values : Except (Halt Unit) (Assignment w)) =
      .error (halt.map fun _ => ()) := by
  rw [optimal_readied mem options rows cols values room rowsFit colsFit size]
  rw [readied_halts options (⟨rows, cols, values⟩ : Problem w) halt halted]
  cases halt <;> rfl

theorem optimal_paired (mem : Memory) (options : Options) (rows cols : Nat) (values : Array Float)
    (room : mem.Suffices w rows cols) (rowsFit : rows < w.max) (colsFit : cols < w.max)
    (size : values.size = rows * cols) (found : Option (Board Float × Tally))
    (paired : Board.pairing options rows cols values = .ok found) :
    ∃ report : Assignment w, optimalAssignment mem options rows cols values = .ok report ∧
      report.oneBased = options.oneBased ∧
      report.Tells rows values (Board.chosenOf found values) := by
  obtain ⟨board, report, solves, told⟩ :=
    readied_paired options (⟨rows, cols, values⟩ : Problem w) ⟨rowsFit, colsFit⟩ size found paired
  exact ⟨report, optimal_opened mem options rows cols values room rowsFit colsFit size _
    report solves, told⟩

end Workspace

end LinearAssignment
