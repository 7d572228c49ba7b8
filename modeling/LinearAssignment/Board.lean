import LinearAssignment.Halt

/-! The board of one search, column by column. The lengths of its arrays are not part of the type,
because a reset that runs out of memory leaves arrays of other sizes. -/

set_option autoImplicit false

namespace LinearAssignment

-- The top lies above every finite cost.
class Cost (α : Type) where
  zero : α
  top : α
  add : α → α → α
  sub : α → α → α
  less : α → α → Bool
  isZero : α → Bool
  isFinite : α → Bool

namespace Cost

variable {α : Type} [Cost α]

def lower (a b : α) : α := if less b a then b else a

end Cost

namespace Binary64

def infinity : Float := Float.ofBits 0x7FF0000000000000

def sixteenthOfLargest : Float := Float.ofBits 0x7FAFFFFFFFFFFFFF

end Binary64

instance : Cost Float where
  zero := 0
  top := Binary64.infinity
  add := Float.add
  sub := Float.sub
  less a b := decide (a < b)
  isZero c := c == 0
  isFinite := Float.isFinite

structure Board (α : Type) where
  rows : Nat
  cols : Nat
  costs : Array α
  stars : Array Bool
  primes : Array Bool
  rowCover : Array Bool
  columnCover : Array Bool

namespace Board

variable {α : Type}

def blank : Board α := ⟨0, 0, #[], #[], #[], #[], #[]⟩

def withRoom (mem : Memory) (rows cols : Nat) : Except Fault (Board α) := do
  let cells ← word (rows * cols)
  mem.insist (8 * cells)
  mem.insist cells
  mem.insist cells
  mem.insist rows
  mem.insist cols
  return blank

def shorterSide (b : Board α) : Nat := min b.rows b.cols

def offset (b : Board α) (row col : Nat) : Nat := row + b.rows * col

def cellAt (b : Board α) (i : Nat) : Nat × Nat := (i % b.rows, i / b.rows)

def starCount (b : Board α) : Nat := b.stars.count true

def coveredColumnCount (b : Board α) : Nat := b.columnCover.count true

def isZero [Cost α] (b : Board α) (row col : Nat) : Except Fault Bool := do
  return Cost.isZero (← fetch b.costs (b.offset row col))

def rowMark? (b : Board α) (marks : Array Bool) (row : Nat) : Except Fault (Option Nat) :=
  seekFrom (fun col => fetch marks (b.offset row col)) 0 b.cols

def rowStar? (b : Board α) (row : Nat) : Except Fault (Option Nat) := b.rowMark? b.stars row

def rowPrime? (b : Board α) (row : Nat) : Except Fault (Option Nat) := b.rowMark? b.primes row

-- The whole column has to be there, whatever row its star is in.
def columnStar? (b : Board α) (col : Nat) : Except Fault (Option Nat) := do
  demand (b.offset b.rows col ≤ b.stars.size) .outOfRange
  seekFrom (fun row => fetch b.stars (b.offset row col)) 0 b.rows

def setCost (b : Board α) (row col : Nat) (cost : α) : Except Fault (Board α) := do
  return { b with costs := ← store b.costs (b.offset row col) cost }

def setStar (b : Board α) (row col : Nat) (on : Bool) : Except Fault (Board α) := do
  return { b with stars := ← store b.stars (b.offset row col) on }

def setPrime (b : Board α) (row col : Nat) (on : Bool) : Except Fault (Board α) := do
  return { b with primes := ← store b.primes (b.offset row col) on }

def coverRow (b : Board α) (row : Nat) (on : Bool) : Except Fault (Board α) := do
  return { b with rowCover := ← store b.rowCover row on }

def coverColumn (b : Board α) (col : Nat) (on : Bool) : Except Fault (Board α) := do
  return { b with columnCover := ← store b.columnCover col on }

def uncoverRows (b : Board α) : Board α := { b with rowCover := b.rowCover.map fun _ => false }

def erasePrimes (b : Board α) : Board α := { b with primes := b.primes.map fun _ => false }

def renew (mem : Memory) (cells : Nat) (put : Array Bool → Board α) :
    Except (Halt (Board α)) (Board α) := do
  return put (← refuseOn (put #[]) (.markShortage cells) (mem.blank cells))

def reset (mem : Memory) (rows cols : Nat) (b : Board α) : Except (Halt (Board α)) (Board α) := do
  let cells ← word (rows * cols)
  let b := { b with rows, cols, costs := #[] }
  refuseOn b .tableShortage (mem.request (8 * cells))
  let b ← renew mem cells fun stars => { b with stars }
  let b ← renew mem cells fun primes => { b with primes }
  let b ← renew mem rows fun rowCover => { b with rowCover }
  renew mem cols fun columnCover => { b with columnCover }

end Board

end LinearAssignment
