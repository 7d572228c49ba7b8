import LinearAssignment.Board

set_option autoImplicit false

namespace LinearAssignment

inductive Phase where
  | cover
  | check
  | search
  -- Turn primes into stars along the path that starts at this cell.
  | flip (row col : Nat)
  | shift
  | finished
deriving DecidableEq

-- What a column, or a sweep over columns, came upon: no uncovered zero, zeros in rows that have a
-- star, or a zero in a row that has none.
inductive Yield where
  | dry
  | exchanged
  | loose (row col : Nat)
deriving DecidableEq

structure Tally where
  flips : Nat := 0
  shifts : Nat := 0
deriving DecidableEq

namespace Tally

def count (t : Tally) : Phase → Tally
  | .flip _ _ => { t with flips := t.flips + 1 }
  | .shift => { t with shifts := t.shifts + 1 }
  | _ => t

def fits (t : Tally) : Bool := t.flips < UInt32.size && t.shifts < UInt32.size

end Tally

structure Visit (α : Type) where
  phase : Phase
  board : Board α
  next : Phase

namespace Board

variable {α : Type}

def coverIfStarred (b : Board α) (col : Nat) : Except Fault (Board α) := do
  b.coverColumn col (← b.columnStar? col).isSome

def coverStarred (b : Board α) : Except Fault (Board α) := foldFrom coverIfStarred 0 b.cols b

-- As many columns are covered as there are stars, unless stars share a column.
def check (b : Board α) : Except Fault Phase := do
  demand (b.coveredColumnCount = b.starCount) .brokenCondition
  return if b.coveredColumnCount = b.shorterSide then .finished else .search

-- The star of a column is looked up before the new one is set. A star whose row has no prime leaves
-- the path half flipped.
def flipFrom : Nat → Nat → Nat → Board α → Except (Halt (Board α)) (Board α)
  | 0, _, _, _ => .error (.fault .endless)
  | cells + 1, row, col, b => do
    let star ← b.columnStar? col
    let b ← b.setStar row col true
    match star with
    | none => return b
    | some starRow =>
      let b ← b.setStar starRow col false
      match ← b.rowPrime? starRow with
      | none => refuse b (.noPartner starRow col)
      | some primeCol => flipFrom cells starRow primeCol b

-- More cells than any path visits that comes to an end.
def pathBound (b : Board α) : Nat := 4 * b.stars.size + 16

def flip (row col : Nat) (b : Board α) : Except (Halt (Board α)) (Board α) := do
  return (← flipFrom b.pathBound row col b).erasePrimes.uncoverRows

variable [Cost α]

def isBareZero (b : Board α) (row col : Nat) : Except Fault Bool := do
  if ← fetch b.rowCover row then return false else b.isZero row col

def primeCell (b : Board α) (row col : Nat) : Except Fault (Board α × Yield) := do
  let b ← b.setPrime row col true
  match ← b.rowStar? row with
  | none => return (b, .loose row col)
  | some starCol =>
    let b ← b.coverRow row true
    let b ← b.coverColumn starCol false
    return (b, .exchanged)

def searchColumn (b : Board α) (col : Nat) : Except Fault (Board α × Yield) := do
  if ← fetch b.columnCover col then
    return (b, .dry)
  else
    match ← seekFrom (b.isBareZero · col) 0 b.rows with
    | none => return (b, .dry)
    | some row => b.primeCell row col

def sweepFrom (before : Yield) (col : Nat) : Nat → Board α → Except Fault (Board α × Yield)
  | 0, b => return (b, before)
  | left + 1, b => do
    match ← b.searchColumn col with
    | (b, .dry) => sweepFrom before (col + 1) left b
    | (b, .exchanged) => sweepFrom .exchanged (col + 1) left b
    | (b, .loose row col) => return (b, .loose row col)

def sweep (b : Board α) : Except Fault (Board α × Yield) := sweepFrom .dry 0 b.cols b

def sweepUpTo : Nat → Board α → Except Fault (Board α × Phase)
  | 0, _ => .error .endless
  | sweeps + 1, b => do
    match ← b.sweep with
    | (b, .dry) => return (b, .shift)
    | (b, .exchanged) => sweepUpTo sweeps b
    | (b, .loose row col) => return (b, .flip row col)

def search (b : Board α) : Except Fault (Board α × Phase) := sweepUpTo (b.rowCover.size + 1) b

def isCellCovered (b : Board α) (row col : Nat) : Except Fault Bool := do
  if ← fetch b.columnCover col then return true else fetch b.rowCover row

def lowerToUncovered (b : Board α) (least : α) (i : Nat) : Except Fault α := do
  let (row, col) := b.cellAt i
  if ← b.isCellCovered row col then return least
  else return Cost.lower least (← fetch b.costs i)

def leastUncovered (b : Board α) : Except Fault α :=
  foldFrom b.lowerToUncovered 0 b.costs.size Cost.top

-- Under both covers a cost is raised, under none it is lowered. Where only the row is covered it is
-- raised first and lowered then.
def shiftedCost (b : Board α) (amount : α) (i : Nat) : Except Fault α := do
  let (row, col) := b.cellAt i
  let cost ← fetch b.costs i
  let raised := if ← fetch b.rowCover row then Cost.add cost amount else cost
  return if ← fetch b.columnCover col then raised else Cost.sub raised amount

def shiftCosts (b : Board α) (amount : α) : Except Fault (Array α) :=
  foldFrom (fun costs i => return costs.push (← b.shiftedCost amount i)) 0 b.costs.size #[]

def shift (b : Board α) : Except (Halt (Board α)) (Board α) := do
  demand (b.rows ≠ 0) .noRows
  let least ← b.leastUncovered
  require (Cost.isFinite least) b .nothingUncovered
  demand (Cost.less Cost.zero least) .brokenCondition
  return { b with costs := ← b.shiftCosts least }

def step (phase : Phase) (b : Board α) : Except (Halt (Board α)) (Board α × Phase) := do
  match phase with
  | .cover => return (← b.coverStarred, .check)
  | .check => return (b, ← b.check)
  | .search => b.search
  | .flip row col => return (← b.flip row col, .cover)
  | .shift => return (← b.shift, .search)
  | .finished => return (b, .finished)

-- More phases than any search goes through that comes to an end: each flip adds a star, and between
-- two flips every shift has a search cover one more row.
def phaseBound (b : Board α) : Nat := (b.stars.size + 4) * (2 * b.rowCover.size + 8)

def runFrom : Nat → Phase → Tally → Board α → Except (Halt (Board α)) (Board α × Tally)
  | _, .finished, tally, b => return (b, tally)
  | 0, _, _, _ => .error (.fault .endless)
  | phases + 1, phase, tally, b => do
    let tally := tally.count phase
    demand tally.fits .overflow
    let (b, next) ← b.step phase
    runFrom phases next tally b

def run (b : Board α) : Except (Halt (Board α)) (Board α × Tally) :=
  runFrom b.phaseBound .cover {} b

def trailFrom : Nat → Phase → Board α → List (Visit α) × Option (Halt (Board α))
  | _, .finished, _ => ([], none)
  | 0, _, _ => ([], some (.fault .endless))
  | phases + 1, phase, b =>
    match b.step phase with
    | .error halt => ([], some halt)
    | .ok (b, next) =>
      let (visits, halt) := trailFrom phases next b
      (⟨phase, b, next⟩ :: visits, halt)

def trail (b : Board α) : List (Visit α) × Option (Halt (Board α)) :=
  trailFrom b.phaseBound .cover b

end Board

end LinearAssignment
