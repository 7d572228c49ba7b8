import LinearAssignment.Board

set_option autoImplicit false

namespace LinearAssignment

namespace Board

variable {α : Type} [Cost α]

def isWide (b : Board α) : Bool := b.rows ≤ b.cols

def lineAt (b : Board α) (i : Nat) : Nat :=
  if b.isWide then i % b.rows else i / b.rows

def leastOfLine (b : Board α) (line : Nat) : α :=
  b.costs.zipIdx.foldl
    (fun least (c, i) => if b.lineAt i = line then Cost.lower least c else least) Cost.top

def lineCount (b : Board α) : Nat :=
  if b.isWide then min b.rows b.costs.size else (b.costs.size + b.rows - 1) / b.rows

def lowerLines (b : Board α) : Board α :=
  let least := Array.ofFn fun line : Fin b.lineCount => b.leastOfLine line
  { b with costs := b.costs.mapIdx fun i c => Cost.sub c (least.getD (b.lineAt i) Cost.top) }

def starInRow (b : Board α) (row : Nat) : Except Fault (Board α) := do
  let free (col : Nat) : Except Fault Bool := do
    if ← b.isZero row col then return !(← fetch b.columnCover col) else return false
  match ← seekFrom free 0 b.cols with
  | none => return b
  | some col => (← b.setStar row col true).coverColumn col true

def starInColumn (b : Board α) (col : Nat) : Except Fault (Board α) := do
  let free (row : Nat) : Except Fault Bool := do
    if ← b.isZero row col then return !(← fetch b.rowCover row) else return false
  match ← seekFrom free 0 b.rows with
  | none => return b
  | some row => (← (← b.setStar row col true).coverColumn col true).coverRow row true

-- Row covers only keep the stars of a tall table apart, and are taken off again.
def starLines (b : Board α) : Except Fault (Board α) := do
  if b.isWide then
    foldFrom starInRow 0 b.rows b
  else
    return (← foldFrom starInColumn 0 b.cols b).uncoverRows

def reduce (b : Board α) : Except Fault (Board α) := b.lowerLines.starLines

end Board

end LinearAssignment
