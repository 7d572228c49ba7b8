import LinearAssignment.Fault
import LinearAssignment.Halt
import LinearAssignment.Board
import LinearAssignment.Phase
import LinearAssignment.Reduction
import LinearAssignment.Pricing
import LinearAssignment.Assignment
import LinearAssignment.Problem
import LinearAssignment.Workspace
import LinearAssignment.Proofs.Binary64.Format
import LinearAssignment.Proofs.Binary64.Rounding
import LinearAssignment.Proofs.Binary64.Value
import LinearAssignment.Proofs.Binary64.Operations
import LinearAssignment.Proofs.Binary64.Arithmetic
import LinearAssignment.Proofs.Binary64.Nearness
import LinearAssignment.Proofs.Binary64.Same
import LinearAssignment.Proofs.Board.View
import LinearAssignment.Proofs.Board.Count
import LinearAssignment.Proofs.Board.Place
import LinearAssignment.Proofs.Board.FirstFit
import LinearAssignment.Proofs.Pricing
import LinearAssignment.Proofs.Reduction
import LinearAssignment.Proofs.Loading
import LinearAssignment.Proofs.Beginning
import LinearAssignment.Proofs.Mirror
import LinearAssignment.Proofs.Phase.Discipline
import LinearAssignment.Proofs.Phase.Cover
import LinearAssignment.Proofs.Phase.Search
import LinearAssignment.Proofs.Phase.Path
import LinearAssignment.Proofs.Phase.Shift
import LinearAssignment.Proofs.Phase.Progress
import LinearAssignment.Proofs.Phase.Step
import LinearAssignment.Proofs.Phase.Pace
import LinearAssignment.Proofs.Phase.Run
import LinearAssignment.Proofs.Phase.Amount
import LinearAssignment.Proofs.Phase.Spending
import LinearAssignment.Proofs.Stars
import LinearAssignment.Proofs.Covers
import LinearAssignment.Proofs.Maximality
import LinearAssignment.Proofs.Augmentation
import LinearAssignment.Proofs.Shifting
import LinearAssignment.Proofs.Headroom
import LinearAssignment.Proofs.Optimality.Matching
import LinearAssignment.Proofs.Optimality.Potentials
import LinearAssignment.Proofs.Optimality.Search
import LinearAssignment.Proofs.Optimality.Table
import LinearAssignment.Proofs.Optimality.Outpriced
import LinearAssignment.Proofs.Optimality.Drift
import LinearAssignment.Proofs.Duality
import LinearAssignment.Proofs.Lockstep.Marks
import LinearAssignment.Proofs.Lockstep.Run
import LinearAssignment.Proofs.Lockstep
import LinearAssignment.Proofs.Outcome
import LinearAssignment.Proofs.Report
import LinearAssignment.Proofs.Extraction
import LinearAssignment.Proofs.Pairing
import LinearAssignment.Proofs.Numbering
import LinearAssignment.Proofs.Solve
import LinearAssignment.Proofs.Optimal
import LinearAssignment.Proofs.Forbidden
import LinearAssignment.Proofs.Overflow
import LinearAssignment.Proofs.LastResort
import LinearAssignment.Proofs.Dominance
import LinearAssignment.Proofs.Unsigned
import LinearAssignment.Proofs.Faultless
import LinearAssignment.Proofs.Refusal
import LinearAssignment.Proofs.Validity
import LinearAssignment.Proofs.History
import LinearAssignment.Proofs.Ledger
import LinearAssignment.Proofs.Statistics
