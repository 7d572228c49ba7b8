import LinearAssignment.Proofs.Faultless
import LinearAssignment.Proofs.Overflow

set_option autoImplicit false

namespace LinearAssignment

variable {w : Width}

namespace Assignment

structure Written (a : Assignment w) (rows cols : Nat) (oneBased : Bool) : Prop where
  numbering : a.oneBased = oneBased
  size : a.columns.size = rows
  inside : ∀ cell ∈ a.pairs, cell.1 < rows ∧ cell.2 < cols
  paired : ∀ cell ∈ a.pairs, a.columns[cell.1]? = some (cell.2 + a.base)
  held : ∀ cell ∈ a.pairs, cell.2 + a.base ≤ w.max
  apart : ∀ cell ∈ a.pairs, cell.2 + a.base ≠ a.marker
  free : ∀ row, row < rows → (∀ col, (row, col) ∉ a.pairs) → a.columns[row]? = some a.marker
  counted : a.unassigned + a.pairs.length = rows

-- The largest integer of the width is above every column: as the marker of columns from 0, and as
-- what columns from 1 may come to.
theorem column_written (a : Assignment w) (col : Nat) (fits : col < w.max) :
    col + a.base ≤ w.max ∧ col + a.base ≠ a.marker := by
  cases numbered : a.oneBased with
  | false =>
      simp only [base, marker, numbered, Bool.false_eq_true, if_false]
      omega
  | true =>
      simp only [base, marker, numbered, if_true]
      omega

theorem told_written (a : Assignment w) (rows cols : Nat) (values : Array Float) (oneBased : Bool)
    (choose : Nat → Option Nat) (numbering : a.oneBased = oneBased)
    (tells : a.Tells rows values choose) (colsFit : cols < w.max)
    (inside : ∀ row col, choose row = some col → row < rows ∧ col < cols) :
    a.Written rows cols oneBased := by
  obtain ⟨pairs, _, counted⟩ := told_pairs a rows values choose tells fun row col _ chosen =>
    lt_trans (inside row col chosen).2 colsFit
  have chosen (row col : Nat) : (row, col) ∈ a.pairs ↔ choose row = some col := by
    rw [pairs, List.mem_filterMap]
    constructor
    · intro member
      obtain ⟨other, _, here⟩ := member
      obtain ⟨_, chosen, same⟩ := Option.map_eq_some_iff.mp here
      cases same
      exact chosen
    · intro chosen
      exact ⟨row, List.mem_range.mpr (inside row col chosen).1, by rw [chosen, Option.map_some]⟩
  have within (cell : Nat × Nat) (member : cell ∈ a.pairs) :=
    inside cell.1 cell.2 ((chosen cell.1 cell.2).mp member)
  have written (cell : Nat × Nat) (member : cell ∈ a.pairs) :=
    a.column_written cell.2 (lt_trans (within cell member).2 colsFit)
  constructor
  case numbering => exact numbering
  case size => exact tells.holds.size
  case inside => exact within
  case paired =>
    intro cell member
    rw [tells.holds.entries cell.1 (within cell member).1,
      (chosen cell.1 cell.2).mp member, entryFor]
  case held => exact fun cell member => (written cell member).1
  case apart => exact fun cell member => (written cell member).2
  case free =>
    intro row insideRow unpaired
    have none : choose row = none := Option.eq_none_iff_forall_ne_some.mpr fun col same =>
      unpaired col ((chosen row col).mpr same)
    rw [tells.holds.entries row insideRow, none, entryFor]
  case counted => exact counted

theorem told_alike {v : Width} (a : Assignment w) (b : Assignment v) (rows cols : Nat)
    (values : Array Float) (choose : Nat → Option Nat) (tells : a.Tells rows values choose)
    (tellsToo : b.Tells rows values choose) (colsFit : cols < w.max) (colsFitToo : cols < v.max)
    (inside : ∀ row col, choose row = some col → row < rows ∧ col < cols) :
    a.pairs = b.pairs ∧ a.cost = b.cost ∧ a.unassigned = b.unassigned := by
  have pairs := (told_pairs a rows values choose tells fun row col _ chosen =>
    lt_trans (inside row col chosen).2 colsFit).1
  have pairsToo := (told_pairs b rows values choose tellsToo fun row col _ chosen =>
    lt_trans (inside row col chosen).2 colsFitToo).1
  have counted := tells.counted
  have countedToo := tellsToo.counted
  exact ⟨pairs.trans pairsToo.symm, tells.cost.trans tellsToo.cost.symm, by omega⟩

end Assignment

namespace Workspace

theorem optimal_short (mem : Memory) (options : Options) (rows cols : Nat) (values : Array Float)
    (room : mem.Suffices w rows cols) (rowsFit : rows < w.max) (colsFit : cols < w.max)
    (size : values.size ≠ rows * cols) :
    (optimalAssignment mem options rows cols values : Except (Halt Unit) (Assignment w)) =
      .error (.refused () (.tableLength rows cols values.size)) := by
  have fills : (⟨rows, cols, #[]⟩ : Problem w).fill values =
      .error (.refused ⟨rows, cols, #[]⟩ (.tableLength rows cols values.size)) := by
    simp [Problem.fill, require, refuse, mem.suffices_word w rows cols room, size]
  simp only [optimalAssignment, with_room_ok mem rows cols room,
    start_ok mem rows cols _ room rowsFit colsFit, fills, lift_ok, within_ok, ok_bind,
    within_error, error_bind]
  rfl

end Workspace

/-- In any two widths that are large enough, and in either numbering, a table is refused for the
same reason or reported with the same pairs, cost and free rows. -/
theorem solved_alike_in_any_width (w v : Width) (mem other : Memory) (options : Options)
    (oneBased otherBased : Bool) (rows cols : Nat) (values : Array Float)
    (room : mem.Suffices w rows cols) (roomToo : other.Suffices v rows cols)
    (rowsFit : rows < w.max) (colsFit : cols < w.max) (rowsFitToo : rows < v.max)
    (colsFitToo : cols < v.max) :
    (∃ halt, (optimalAssignment mem { options with oneBased } rows cols values :
          Except (Halt Unit) (Assignment w)) = .error halt ∧
        (optimalAssignment other { options with oneBased := otherBased } rows cols values :
          Except (Halt Unit) (Assignment v)) = .error halt ∧
        (min rows cols * (min rows cols + 1) / 2 < 2 ^ 32 → ∃ why, halt = .refused () why)) ∨
      ∃ (a : Assignment w) (b : Assignment v),
        optimalAssignment mem { options with oneBased } rows cols values = .ok a ∧
        optimalAssignment other { options with oneBased := otherBased } rows cols values = .ok b ∧
        a.pairs = b.pairs ∧ a.cost = b.cost ∧ a.unassigned = b.unassigned ∧
        a.Written rows cols oneBased ∧ b.Written rows cols otherBased := by
  by_cases size : values.size = rows * cols
  · cases paired : Board.pairing options rows cols values with
    | error halt =>
        refine Or.inl ⟨halt.map fun _ => (), ?_, ?_, fun counters => ?_⟩
        · exact Workspace.optimal_halts mem { options with oneBased } rows cols values room rowsFit
            colsFit size halt paired
        · exact Workspace.optimal_halts other { options with oneBased := otherBased } rows cols
            values roomToo rowsFitToo colsFitToo size halt paired
        · cases halt with
          | refused left why => exact ⟨why, rfl⟩
          | fault why =>
              exact absurd paired
                (Board.pairing_unfaulted options rows cols values size counters why)
    | ok found =>
        obtain ⟨a, solves, numbered, tells⟩ :=
          Workspace.optimal_paired mem { options with oneBased } rows cols values room rowsFit
            colsFit size found paired
        obtain ⟨b, solvesToo, numberedToo, tellsToo⟩ :=
          Workspace.optimal_paired other { options with oneBased := otherBased } rows cols values
            roomToo rowsFitToo colsFitToo size found paired
        have inside (row col : Nat) (chosen : Board.chosenOf found values row = some col) :
            row < rows ∧ col < cols := by
          obtain ⟨insideRow, insideColumn, _⟩ :=
            Board.chosen_cell options rows cols values found paired row col chosen
          exact ⟨insideRow, insideColumn⟩
        obtain ⟨pairs, cost, unassigned⟩ :=
          a.told_alike b rows cols values _ tells tellsToo colsFit colsFitToo inside
        have written := a.told_written rows cols values oneBased _ numbered tells colsFit inside
        have writtenToo :=
          b.told_written rows cols values otherBased _ numberedToo tellsToo colsFitToo inside
        exact Or.inr ⟨a, b, solves, solvesToo, pairs, cost, unassigned, written, writtenToo⟩
  · exact Or.inl ⟨.refused () (.tableLength rows cols values.size),
      Workspace.optimal_short mem { options with oneBased } rows cols values room rowsFit colsFit
      size, Workspace.optimal_short other { options with oneBased := otherBased } rows cols values
      roomToo rowsFitToo colsFitToo size, fun _ => ⟨_, rfl⟩⟩

def ones : Array Float := Array.replicate (254 * 254) 1

theorem solved_alike_in_any_width_at_the_limit :
    ∃ (a : Assignment .bits8) (b : Assignment .bits64),
      optimalAssignment ⟨600000⟩ { oneBased := true } 254 254 ones = .ok a ∧
      optimalAssignment ⟨600000⟩ { oneBased := false } 254 254 ones = .ok b ∧ a.pairs = b.pairs ∧
      a.cost = b.cost ∧ a.unassigned = b.unassigned ∧ a.Written 254 254 true ∧
      b.Written 254 254 false := by
  have size : ones.size = 254 * 254 := Array.size_replicate
  have room : Memory.Suffices ⟨600000⟩ .bits8 254 254 :=
    ⟨by decide, by decide, by decide, by decide⟩
  have roomToo : Memory.Suffices ⟨600000⟩ .bits64 254 254 :=
    ⟨by decide, by decide, by decide, by decide⟩
  have sheltered : Pricing.Sheltered {} ones := by
    intro v member _
    have one := (Binary64.whole_exact 1 (by norm_num)).2
    rw [(Array.mem_replicate.mp member).2]
    change 0 ≤ Binary64.value (Float.ofNat 1)
    rw [one]
    norm_num
  have finite := Board.prepared_finite {} 254 254 ones sheltered
  have solved : ∃ out, Workspace.readiedSolve (w := .bits8) {} 254 254 ones = .ok out :=
    (Workspace.readied_unrefused ⟨600000⟩ {} (⟨254, 254, ones⟩ : Problem .bits8) room
      ⟨by decide, by decide⟩ size (fun rejected => nomatch rejected.strict) finite).2
      fun start _ prepared => Stage.prepared_counts_fit {} 254 254 ones start prepared
      (finite start prepared) (by decide)
  obtain ⟨⟨solver, report⟩, readied⟩ := solved
  have solves := Workspace.optimal_opened ⟨600000⟩ {} 254 254 ones room (by decide) (by decide) size
    solver report readied
  cases solved_alike_in_any_width .bits8 .bits64 ⟨600000⟩ ⟨600000⟩ {} true false 254 254 ones room
      roomToo (by decide) (by decide) (by decide) (by decide) with
  | inl halted =>
      obtain ⟨halt, refused, _⟩ := halted
      cases solves.symm.trans refused
  | inr alike => exact alike

end LinearAssignment
