import LinearAssignment.Assignment
import LinearAssignment.Phase
import LinearAssignment.Pricing
import LinearAssignment.Problem
import LinearAssignment.Reduction

set_option autoImplicit false

namespace LinearAssignment

structure Workspace (w : Width) where
  problem : Problem w
  board : Board Float
  tally : Tally
  solved : Bool

namespace Workspace

variable {w : Width}

def withRoom (mem : Memory) (rows cols : Nat) : Except Fault (Workspace w × Assignment w) := do
  mem.insist (8 * (← word (rows * cols)))
  let board ← Board.withRoom mem rows cols
  return (⟨{}, board, {}, false⟩, ← Assignment.pending mem rows)

def prepare (mem : Memory) (options : Options) (ws : Workspace w) (report : Assignment w) :
    Except (Halt (Workspace w × Assignment w)) (Workspace w × Assignment w) := do
  within (fun problem => ({ ws with problem }, report)) ws.problem.checkComplete
  let ws := { ws with tally := {}, solved := false }
  let board ← within (fun board => ({ ws with board }, report))
    (ws.board.reset mem ws.problem.rows ws.problem.cols)
  let ws := { ws with board }
  refuseOn (ws, report) .reportShortage (report.grow mem ws.problem.rows)
  return (ws, report.free ws.problem.rows options.oneBased)

def search (ws : Workspace w) (report : Assignment w) :
    Except (Halt (Workspace w × Assignment w)) (Workspace w × Assignment w) := do
  let (board, tally) ← within (fun board => ({ ws with board }, report))
    (do (← ws.board.reduce).run)
  let ws := { ws with board, tally, solved := true }
  let report ← within (ws, ·) (report.record board)
  return (ws, ← report.settle ws.problem.values ws.problem.rows)

-- Solves the problem. A table without cells, or without a finite cost, is solved by leaving every
-- row free.
def solve (mem : Memory) (options : Options) (ws : Workspace w) (report : Assignment w) :
    Except (Halt (Workspace w × Assignment w)) (Workspace w × Assignment w) := do
  let (ws, report) ← ws.prepare mem options report
  if ws.problem.rows = 0 ∨ ws.problem.cols = 0 then
    return ({ ws with solved := true }, report)
  else
    let (board, priced) ← within (fun board => ({ ws with board }, report))
      (ws.board.load options ws.problem.values)
    let ws := { ws with board }
    if priced then ws.search report else return ({ ws with solved := true }, report)

end Workspace

def optimalAssignment (mem : Memory) (options : Options) {w : Width} (rows cols : Nat)
    (values : Array Float) : Except (Halt Unit) (Assignment w) := do
  let (ws, report) ← Workspace.withRoom mem rows cols
  let problem ← within (fun _ => ()) (ws.problem.start mem rows cols)
  let problem ← within (fun _ => ()) (problem.fill values)
  let (_, report) ← within (fun _ => ()) ({ ws with problem }.solve mem options report)
  return report

end LinearAssignment
