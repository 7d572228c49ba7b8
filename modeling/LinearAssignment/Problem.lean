import LinearAssignment.Assignment

set_option autoImplicit false

namespace LinearAssignment

structure Problem (w : Width) where
  rows : Nat := 0
  cols : Nat := 0
  values : Array Float := #[]

namespace Problem

variable {w : Width}

-- Starts a new table. The largest integer of the width is kept free for the marker. When the room
-- for the values cannot be had, the new size stands and the old values are gone.
def start (mem : Memory) (rows cols : Nat) (p : Problem w) :
    Except (Halt (Problem w)) (Problem w) := do
  require (rows < w.max) p (.tooManyRows rows w.max)
  require (cols < w.max) p (.tooManyColumns cols w.max)
  let cells ← refuseOn p (fun _ => .tableTooLarge) (word (rows * cols))
  let p : Problem w := ⟨rows, cols, #[]⟩
  refuseOn p .tableShortage (mem.request (8 * cells))
  return p

def append (row col : Nat) (value : Float) (p : Problem w) :
    Except (Halt (Problem w)) (Problem w) := do
  require (row < p.rows && col < p.cols) p .cellOutside
  let position ← word (row + p.rows * col)
  require (position = p.values.size) p .cellOutOfOrder
  return { p with values := p.values.push value }

def appendColumn (col : Nat) (values : Array Float) (p : Problem w) :
    Except (Halt (Problem w)) (Problem w) := do
  require (values.size = p.rows) p (.columnLength values.size p.rows)
  require (col < p.cols) p (.columnOutside col p.cols)
  let position ← word (p.rows * col)
  require (position = p.values.size) p .columnOutOfOrder
  return { p with values := p.values ++ values }

def fill (values : Array Float) (p : Problem w) : Except (Halt (Problem w)) (Problem w) := do
  let cells ← word (p.rows * p.cols)
  require (values.size = cells) p (.tableLength p.rows p.cols values.size)
  return { p with values }

def checkComplete (p : Problem w) : Except (Halt (Problem w)) Unit := do
  let cells ← word (p.rows * p.cols)
  require (p.values.size = cells) p (.incomplete p.values.size cells)

def objective (p : Problem w) (a : Assignment w) : Except Fault Float :=
  (a.pairs.filter fun (row, _) => row < p.rows).foldlM
    (fun total (row, col) => do
      let value ← fetch p.values (row + p.rows * col)
      return if value.isFinite then total + value else total)
    0

end Problem

end LinearAssignment
