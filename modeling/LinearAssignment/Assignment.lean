import LinearAssignment.Board

/-! The report of a search. Its widths end with the one that sizes are counted in; a row without a
column holds a marker that no column is written as. -/

set_option autoImplicit false

namespace LinearAssignment

inductive Width where
  | bits8
  | bits16
  | bits32
  | bits64
deriving DecidableEq

namespace Width

def bytes : Width → Nat
  | bits8 => 1
  | bits16 => 2
  | bits32 => 4
  | bits64 => 8

def max : Width → Nat
  | bits8 => UInt8.size - 1
  | bits16 => UInt16.size - 1
  | bits32 => UInt32.size - 1
  | bits64 => UInt64.size - 1

def fit? (w : Width) (n : Nat) : Option Nat := if n ≤ w.max then some n else none

theorem max_pos (w : Width) : 0 < w.max := by cases w <;> decide

theorem fit_some (w : Width) (n : Nat) (fits : n ≤ w.max) : w.fit? n = some n := if_pos fits

end Width

structure Assignment (w : Width) where
  columns : Array Nat
  cost : Float
  unassigned : Nat
  oneBased : Bool

namespace Assignment

variable {w : Width}

def pending (mem : Memory) (rows : Nat) : Except Fault (Assignment w) := do
  mem.insist (w.bytes * rows)
  return ⟨#[], 0 / 0, w.max, true⟩

def marker (a : Assignment w) : Nat := if a.oneBased then 0 else w.max

def base (a : Assignment w) : Nat := if a.oneBased then 1 else 0

def columnOf? (a : Assignment w) (row : Nat) : Option Nat :=
  match a.columns[row]? with
  | none => none
  | some entry => if entry = a.marker then none else some (entry - a.base)

def pairs (a : Assignment w) : List (Nat × Nat) :=
  (List.range a.columns.size).filterMap fun row => (a.columnOf? row).map (row, ·)

def assignedCount (a : Assignment w) : Except Fault Nat := do
  demand (a.unassigned ≤ a.columns.size) .overflow
  return a.columns.size - a.unassigned

-- Leaves every row free. A count of rows that the width cannot hold is told as its largest.
def free (rows : Nat) (oneBased : Bool) (a : Assignment w) : Assignment w :=
  let a : Assignment w := { a with oneBased, cost := 0, unassigned := (w.fit? rows).getD w.max }
  { a with columns := Array.replicate rows a.marker }

def restart (mem : Memory) (rows : Nat) (oneBased : Bool) (a : Assignment w) :
    Except Fault (Assignment w) := do
  mem.insist (w.bytes * rows)
  return a.free rows oneBased

def grow (mem : Memory) (rows : Nat) (a : Assignment w) : Except Shortage Unit :=
  mem.request (w.bytes * (a.columns.size + rows))

def assign (row entry : Nat) (a : Assignment w) : Except Fault (Assignment w) := do
  return { a with columns := ← store a.columns row entry }

end Assignment

namespace Assignment

variable {α : Type} {w : Width}

def recordRow (b : Board α) (done : Assignment w × Nat) (row : Nat) :
    Except (Halt (Assignment w)) (Assignment w × Nat) := do
  let (a, assigned) := done
  match ← b.rowStar? row with
  | none => return (a, assigned)
  | some col =>
    match w.fit? (col + a.base) with
    | none => refuse a (.columnDoesNotFit col)
    | some entry => return (← a.assign row entry, assigned + 1)

def record (b : Board α) (a : Assignment w) : Except (Halt (Assignment w)) (Assignment w) := do
  let (a, assigned) ← foldFrom (recordRow b) 0 b.rows (a, 0)
  match w.fit? (b.rows - assigned) with
  | none => refuse a .rowCountDoesNotFit
  | some unassigned => return { a with unassigned }

def release (row : Nat) (a : Assignment w) : Except Fault (Assignment w) := do
  let a ← a.assign row a.marker
  demand (a.unassigned < w.max) .overflow
  return { a with unassigned := a.unassigned + 1 }

def settleRow (values : Array Float) (rows : Nat) (done : Assignment w × Float) (row : Nat) :
    Except Fault (Assignment w × Float) := do
  let (a, cost) := done
  match a.columnOf? row with
  | none => return (a, cost)
  | some col =>
    let value ← fetch values (row + rows * col)
    if value.isFinite then return (a, cost + value) else return (← a.release row, cost)

-- Reckons the cost by the values of a table of `rows` rows. Rows that the report does not have are
-- free, so only those that it has are gone through.
def settle (values : Array Float) (rows : Nat) (a : Assignment w) :
    Except Fault (Assignment w) := do
  let (a, cost) ← foldFrom (settleRow values rows) 0 (min rows a.columns.size) (a, 0)
  return { a with cost }

end Assignment

end LinearAssignment
