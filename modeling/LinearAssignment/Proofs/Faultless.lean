import LinearAssignment.Proofs.Pairing
import LinearAssignment.Proofs.Unsigned

set_option autoImplicit false

namespace LinearAssignment

variable {w : Width}

namespace Board

theorem renew_unfaulted (mem : Memory) (cells : Nat) (put : Array Bool → Board Float) :
    Halt.Unfaulted (renew mem cells put) :=
  Halt.bind_unfaulted _ _ (Halt.refuse_on_unfaulted _ _ _) fun _ _ => Halt.unfaulted_ok _ _ rfl

-- Only the number of cells can be too large, and a table of so many is never started.
theorem reset_unfaulted (mem : Memory) (rows cols : Nat) (b : Board Float)
    (small : rows * cols < UInt64.size) : Halt.Unfaulted (b.reset mem rows cols) := by
  rw [reset, word_ok _ small, lift_ok, ok_bind]
  apply Halt.bind_unfaulted _ _ (Halt.refuse_on_unfaulted _ _ _)
  intro _ _
  apply Halt.bind_unfaulted _ _ (renew_unfaulted _ _ _)
  intro _ _
  apply Halt.bind_unfaulted _ _ (renew_unfaulted _ _ _)
  intro _ _
  apply Halt.bind_unfaulted _ _ (renew_unfaulted _ _ _)
  intro _ _
  exact renew_unfaulted _ _ _

theorem load_unfaulted (options : Options) (values : Array Float) (b : Board Float)
    (size : values.size = b.rows * b.cols) : Halt.Unfaulted (b.load options values) := by
  have checked : decide (values.size = b.rows * b.cols) = true := decide_eq_true size
  rw [load, demand, checked, if_pos rfl, lift_ok, ok_bind]
  cases b.objection? options values with
  | some why => exact Halt.unfaulted_refused _ b why rfl
  | none =>
      by_cases priced : values.any Float.isFinite
      · rw [if_pos priced]
        exact Halt.unfaulted_ok _ _ rfl
      · rw [if_neg priced]
        exact Halt.unfaulted_ok _ _ rfl

theorem pairing_unfaulted (options : Options) (rows cols : Nat) (values : Array Float)
    (size : values.size = rows * cols)
    (counters : min rows cols * (min rows cols + 1) / 2 < 2 ^ 32) :
    Halt.Unfaulted (pairing options rows cols values) := by
  by_cases none : rows = 0 ∨ cols = 0
  · rw [pairing, if_pos none]
    exact Halt.unfaulted_ok _ _ rfl
  · rw [pairing, if_neg none]
    apply Halt.bind_unfaulted _ _ (load_unfaulted options values (ready rows cols) size)
    intro out loads
    obtain ⟨board, priced⟩ := out
    cases priced with
    | false => exact Halt.unfaulted_ok _ _ rfl
    | true =>
        obtain ⟨_, _, finite, same⟩ := ready_loaded options rows cols values board loads
        subst same
        obtain ⟨start, reduce, starring, fresh⟩ :=
          reduced _ (loaded_unmarked options rows cols values size)
        have unsigned := reduced_unsigned options rows cols values start size finite reduce
        have side : start.shorterSide = min rows cols := by
          rw [shorterSide, starring.rows, starring.cols]
          rfl
        rw [← side] at counters
        simp only [if_true, reduce, lift_ok, ok_bind]
        exact Halt.bind_unfaulted _ _ (Stage.search_unfaulted start fresh unsigned counters)
          fun _ _ => Halt.unfaulted_ok _ _ rfl

end Board

namespace Workspace

theorem prepare_unfaulted (mem : Memory) (options : Options) (ws : Workspace w)
    (report : Assignment w) (addressed : ws.problem.Addressed) :
    Halt.Unfaulted (ws.prepare mem options report) := by
  have checked : Halt.Unfaulted ws.problem.checkComplete := by
    rw [Problem.checkComplete, word_ok _ addressed, lift_ok, ok_bind]
    exact Halt.require_unfaulted _ _ _
  apply Halt.bind_unfaulted _ _ (Halt.within_unfaulted _ _ checked)
  intro _ _
  apply Halt.bind_unfaulted _ _
    (Halt.within_unfaulted _ _ (Board.reset_unfaulted mem _ _ _ addressed))
  intro _ _
  exact Halt.bind_unfaulted _ _ (Halt.refuse_on_unfaulted _ _ _) fun _ _ =>
    Halt.unfaulted_ok _ _ rfl

theorem readied_unfaulted (options : Options) (p : Problem w) (fits : p.Fits)
    (complete : p.Complete) (counters : min p.rows p.cols * (min p.rows p.cols + 1) / 2 < 2 ^ 32) :
    Halt.Unfaulted (readiedSolve (w := w) options p.rows p.cols p.values) := by
  have unfaulted := Board.pairing_unfaulted options p.rows p.cols p.values complete counters
  cases paired : Board.pairing options p.rows p.cols p.values with
  | ok found =>
      obtain ⟨board, report, solves, _⟩ := readied_paired options p fits complete found paired
      exact Halt.unfaulted_ok _ _ solves
  | error halt =>
      rw [readied_halts options p halt paired]
      cases halt with
      | refused left why => exact Halt.unfaulted_refused _ _ why rfl
      | fault why => exact absurd paired (unfaulted why)

theorem solve_unfaulted (mem : Memory) (options : Options) (ws : Workspace w)
    (report : Assignment w) (fits : ws.problem.Fits) (addressed : ws.problem.Addressed)
    (counters :
      min ws.problem.rows ws.problem.cols * (min ws.problem.rows ws.problem.cols + 1) / 2 < 2 ^ 32) :
    Halt.Unfaulted (ws.solve mem options report) := by
  apply Halt.bind_unfaulted _ _ (prepare_unfaulted mem options ws report addressed)
  intro out prepares
  obtain ⟨complete, ready⟩ := prepare_inverted mem options ws report out prepares
  subst ready
  exact readied_unfaulted options ws.problem fits complete counters

end Workspace

namespace Problem

theorem objective_fold (p : Problem w) (cells : List (Nat × Nat)) (total : Float)
    (finite : ∀ cell ∈ cells, ∃ v, p.values[cell.1 + p.rows * cell.2]? = some v ∧ v.isFinite) :
    cells.foldlM (fun (total : Float) (cell : Nat × Nat) => do
      let value ← fetch p.values (cell.1 + p.rows * cell.2)
      return if value.isFinite then total + value else total) total =
        (.ok (cells.foldl (Assignment.addValue p.values p.rows) total) : Except Fault Float) := by
  induction cells generalizing total with
  | nil => rfl
  | cons cell rest ih =>
      obtain ⟨v, here, finiteHere⟩ := finite cell List.mem_cons_self
      have added : Assignment.addValue p.values p.rows total cell = total + v := by
        rw [Assignment.addValue, Array.getD_eq_getD_getElem?, here, Option.getD_some]
      have read : fetch p.values (cell.1 + p.rows * cell.2) = .ok v := by rw [fetch, here]
      rw [List.foldlM_cons, List.foldl_cons, added]
      simp only [read, ok_bind, pure_ok, finiteHere, if_true]
      exact ih (total + v) fun other member => finite other (List.mem_cons_of_mem _ member)

theorem objective_told (p : Problem w) (a : Assignment w) (choose : Nat → Option Nat)
    (fits : p.Fits) (tells : a.Tells p.rows p.values choose)
    (cells : ∀ row col, choose row = some col → row < p.rows ∧ col < p.cols ∧
      ∃ v, p.values[row + p.rows * col]? = some v ∧ v.isFinite) : p.objective a = .ok a.cost := by
  obtain ⟨pairs, cost, _⟩ := Assignment.told_pairs a p.rows p.values choose tells
    fun row col _ chosen => lt_trans (cells row col chosen).2.1 fits.2
  have inside :
      ∀ cell ∈ a.pairs, cell.1 < p.rows ∧
        ∃ v, p.values[cell.1 + p.rows * cell.2]? = some v ∧ v.isFinite := by
    rw [pairs]
    intro cell member
    obtain ⟨row, _, here⟩ := List.mem_filterMap.mp member
    obtain ⟨col, chosen, rfl⟩ := Option.map_eq_some_iff.mp here
    exact ⟨(cells row col chosen).1, (cells row col chosen).2.2⟩
  rw [objective, List.filter_eq_self.mpr ?all, cost]
  case all => exact fun cell member => decide_eq_true (inside cell member).1
  exact objective_fold p a.pairs 0 fun cell member => (inside cell member).2

end Problem

/-- After any history of requests solving does not break off, as long as its counters are wide
enough, and what is solved can be read. -/
theorem solve_never_breaks_off (made : Memory) (rowsRoom colsRoom : Nat) (first ws : Workspace w)
    (pending : Assignment w)
    (opened : Workspace.withRoom made rowsRoom colsRoom = .ok (first, pending))
    (history : List (Memory × Workspace.Request w)) (served : first.serve history = some ws)
    (mem : Memory) (options : Options) (report : Assignment w)
    (counters :
      min ws.problem.rows ws.problem.cols * (min ws.problem.rows ws.problem.cols + 1) / 2 < 2 ^ 32) :
    Halt.Unfaulted (ws.solve mem options report) ∧
      (∀ row col, row < ws.problem.rows → col < ws.problem.cols →
        row + ws.problem.rows * col < UInt64.size) ∧
      ∀ after result, ws.solve mem options report = .ok (after, result) →
        after.problem.objective result = .ok result.cost ∧
          result.assignedCount = .ok result.pairs.length ∧
          ∀ entry ∈ result.columns, entry ≠ result.marker → result.base ≤ entry := by
  obtain ⟨rfl, rfl⟩ := Workspace.with_room_inverted made rowsRoom colsRoom first pending opened
  have fits := Workspace.served_fits history _ ws Problem.none_fits served
  have addressed := Workspace.served_addressed history _ ws Problem.none_addressed served
  refine ⟨Workspace.solve_unfaulted mem options ws report fits addressed counters,
    ?positions, ?reads⟩
  case positions =>
    intro row col insideRow insideColumn
    exact lt_trans (cell_below ws.problem.rows ws.problem.cols row col insideRow insideColumn)
      addressed
  case reads =>
    intro after result solves
    obtain ⟨out, prepares, solves⟩ := bind_ok _ _ _ solves
    obtain ⟨complete, ready⟩ := Workspace.prepare_inverted mem options ws report out prepares
    subst ready
    obtain ⟨found, paired, same, _, tells⟩ :=
      Workspace.readied_told options ws.problem fits complete after result solves
    have cells :=
      Board.chosen_cell options ws.problem.rows ws.problem.cols ws.problem.values found paired
    obtain ⟨_, _, counted⟩ := Assignment.told_pairs result ws.problem.rows ws.problem.values _ tells
      fun row col _ chosen => lt_trans (cells row col chosen).2.1 fits.2
    rw [same]
    refine ⟨?objective, ?assigned, ?numbers⟩
    case objective => exact Problem.objective_told ws.problem result _ fits tells cells
    case assigned => exact result.assigned_pairs (counted.trans tells.holds.size.symm)
    case numbers =>
      intro entry _ apart
      cases numbered : result.oneBased with
      | false => simp [Assignment.base, numbered]
      | true =>
          simp only [Assignment.marker, numbered, if_true] at apart
          simp only [Assignment.base, numbered, if_true]
          omega

-- When the greatest total is sought both costs of the second row become infinite, and no numbers
-- once they are lowered by each other. When the least is sought the table is solved.
def overflowing : Array Float := #[1e308, -1e308, 1, -1e308]

theorem solve_never_breaks_off_overflowing :
    ∃ first pending ws, Workspace.withRoom (w := .bits8) ⟨1000⟩ 3 3 = .ok (first, pending) ∧
      first.serve [(⟨1000⟩, .start 2 2), (⟨1000⟩, .fill overflowing)] = some ws ∧
      Halt.Unfaulted (ws.solve ⟨1000⟩ { maximize := true } ⟨#[7], 0, 0, true⟩) ∧
      ∃ after result, ws.solve ⟨1000⟩ {} ⟨#[7], 0, 0, true⟩ = .ok (after, result) ∧
        after.problem.objective result = .ok result.cost ∧
        result.assignedCount = .ok result.pairs.length := by
  have room : Memory.Suffices ⟨1000⟩ .bits8 2 2 := ⟨by decide, by decide, by decide, by decide⟩
  have opened :=
    Workspace.with_room_ok (w := .bits8) ⟨1000⟩ 3 3 ⟨by decide, by decide, by decide, by decide⟩
  have served := Workspace.served_anew ⟨1000⟩ 2 2 overflowing
    (⟨{}, .blank, {}, false⟩ : Workspace .bits8) room (by decide) (by decide) rfl
  have solved :
      (Workspace.solve ⟨1000⟩ {}
        (Workspace.pose (⟨{}, .blank, {}, false⟩ : Workspace .bits8) ⟨2, 2, overflowing⟩)
        ⟨#[7], 0, 0, true⟩).toOption.isSome = true := by
    decide +kernel
  have greatest := solve_never_breaks_off ⟨1000⟩ 3 3 _ _ _ opened _ served ⟨1000⟩
    { maximize := true } ⟨#[7], 0, 0, true⟩ (by decide)
  have least :=
    solve_never_breaks_off ⟨1000⟩ 3 3 _ _ _ opened _ served ⟨1000⟩ {} ⟨#[7], 0, 0, true⟩ (by decide)
  refine ⟨_, _, _, opened, served, greatest.1, ?_⟩
  cases solves : Workspace.solve ⟨1000⟩ {}
      (Workspace.pose (⟨{}, .blank, {}, false⟩ : Workspace .bits8) ⟨2, 2, overflowing⟩)
      ⟨#[7], 0, 0, true⟩ with
  | error halt =>
      rw [solves] at solved
      cases solved
  | ok out =>
      obtain ⟨objective, assigned, _⟩ := least.2.2 out.1 out.2 solves
      exact ⟨out.1, out.2, rfl, objective, assigned⟩

end LinearAssignment
