import LinearAssignment.Board

/-! From the costs of a problem to the working costs of a board. The price of a forbidden pair is
meant to lie above the total of all other costs. -/

set_option autoImplicit false

namespace LinearAssignment

structure Options where
  -- Report columns from 1 and mark a free row by 0; otherwise report columns from 0 and mark a
  -- free row by the largest integer of the width.
  oneBased : Bool := true
  -- Take a cost that is not finite for a forbidden pair; otherwise refuse it.
  forbidNonFinite : Bool := true
  maximize : Bool := false
deriving DecidableEq

namespace Pricing

def greatestFinite (values : Array Float) : Float :=
  values.foldl (fun best c => if c.isFinite && best < c then c else best) (-Binary64.infinity)

def leastFinite (values : Array Float) : Float :=
  values.foldl (fun best c => if c.isFinite && c < best then c else best) Binary64.infinity

def forbidden (greatest : Float) (cells : Nat) : Float :=
  if 0 < greatest then
    let price := 10 * greatest * Float.ofNat cells
    if price < Binary64.sixteenthOfLargest then price else Binary64.sixteenthOfLargest
  else 10

def flip (greatest : Float) (costs : Array Float) : Array Float :=
  costs.map fun c => if c.isFinite then greatest - c else c

def replaceNonFinite (price : Float) (costs : Array Float) : Array Float :=
  costs.map fun c => if c.isFinite then c else price

def settled (options : Options) (values costs : Array Float) : Array Float :=
  let greatest := greatestFinite values
  let costs := if options.maximize then flip greatest costs else costs
  if values.all Float.isFinite then costs
  else
    let greatest := if options.maximize then greatest - leastFinite values else greatest
    replaceNonFinite (forbidden greatest values.size) costs

end Pricing

namespace Board

def objection? (options : Options) (values : Array Float) (b : Board Float) : Option Error := do
  guard !options.forbidNonFinite
  let i ← values.findIdx? (!·.isFinite)
  let (row, col) := b.cellAt i
  return .nonFinite (.of (values.getD i 0)) row col

-- Appends the values, settled into costs to be minimised. The answer is false, and the board left
-- as it is, when no value is finite.
def load (options : Options) (values : Array Float) (b : Board Float) :
    Except (Halt (Board Float)) (Board Float × Bool) := do
  demand (values.size = b.rows * b.cols) .brokenCondition
  match b.objection? options values with
  | some why => refuse b why
  | none =>
    if values.any Float.isFinite then
      return ({ b with costs := Pricing.settled options values (b.costs ++ values) }, true)
    else
      return (b, false)

end Board

end LinearAssignment
