import LinearAssignment.Proofs.Beginning
import LinearAssignment.Proofs.Stars

/-! Dual potentials, which the search never stores: they start as what the reduction takes off the
lines, and each shift moves them along with the costs. -/

set_option autoImplicit false

namespace LinearAssignment

namespace Board

theorem begun_potentials (full start : Board Float) (unmarked : full.Unmarked)
    (reduce : full.reduce = .ok start) (exactly : full.LowersExactly) :
    start.HasPotentials full.worthAt := by
  obtain ⟨starring, _⟩ := reduced_known full start unmarked reduce
  obtain ⟨p, q, balanced⟩ := lowered_balanced full (fun row => ∀ col, ¬ start.Starred row col)
    (fun col => ∀ row, ¬ start.Starred row col)
  have rows : start.rows = full.rows := starring.rows
  have cols : start.cols = full.cols := starring.cols
  rw [HasPotentials, rows, cols]
  refine ⟨p, q, fun row col insideRow insideColumn => ?_, balanced.wide, balanced.tall⟩
  rw [(begun_worth full start unmarked reduce exactly row col insideRow insideColumn).2]
  exact balanced.split row col insideRow insideColumn

end Board

namespace Stage

-- The induction is on the phases gone through, each of which keeps the search unrounded and moves
-- the potentials at most.
theorem reached_potentials (loaded : Nat → Nat → ℚ) (start : Board Float)
    (unrounded : Unrounded ⟨.cover, start⟩) (potentials : start.HasPotentials loaded) (s : Stage)
    (reached : Reached start s) : s.Unrounded ∧ s.board.HasPotentials loaded := by
  induction reached with
  | refl => exact ⟨unrounded, potentials⟩
  | tail _ next ih =>
      obtain ⟨unroundedHere, potentialsHere⟩ := ih
      obtain ⟨unroundedThen, shifts⟩ := next_unrounded _ _ unroundedHere next
      exact ⟨unroundedThen, next_potentials loaded _ _ unroundedHere.sound next (fun shift =>
        ⟨_, (shifts shift).1⟩) potentialsHere⟩

end Stage

/-- As long as nothing is rounded, costs are the loaded ones less potentials of their row and
column, of which lines without a star have the largest of their side. So as many stars as the
shorter side has lines have the smallest total. -/
theorem potentials_invariant (options : Options) (rows cols : Nat) (values : Array Float)
    (start : Board Float) (prepared : Board.Prepared options rows cols values start)
    (lowering : (Board.loaded options rows cols values).LowersExactly)
    (shifting : ∀ s limit, Stage.Reached start s → s.Exactly limit) (s : Stage)
    (reached : Stage.Reached start s) :
    (∃ p q : Nat → ℚ,
        (∀ row col, row < rows → col < cols →
          (s.board.costAt row col).isFinite ∧
            s.board.worthAt row col =
              (Board.loaded options rows cols values).worthAt row col - p row - q col) ∧
        (rows ≤ cols →
          ∀ col, col < cols → (∀ row, ¬ s.board.Starred row col) →
            ∀ other, other < cols → q other ≤ q col) ∧
        (cols < rows →
          ∀ row, row < rows → (∀ col, ¬ s.board.Starred row col) →
            ∀ other, other < rows → p other ≤ p row)) ∧
      (s.board.starCount = min rows cols →
        Matching rows cols s.board.starCells ∧ s.board.starCells.card = min rows cols ∧
          ∀ other, Matching rows cols other → other.card = min rows cols →
            ∑ cell ∈ s.board.starCells,
                (Board.loaded options rows cols values).worthAt cell.1 cell.2 ≤
              ∑ cell ∈ other, (Board.loaded options rows cols values).worthAt cell.1 cell.2) := by
  obtain ⟨size, _, reduce⟩ := Board.prepared_reduced options rows cols values start prepared
  have unmarked := Board.loaded_unmarked options rows cols values size
  obtain ⟨starring, fresh⟩ := Board.prepared_fresh options rows cols values start prepared
  have finite (row col : Nat) (insideRow : row < rows) (insideColumn : col < cols) :
      ((Board.loaded options rows cols values).costAt row col).isFinite :=
    (Binary64.difference_finite _ _ (lowering row col insideRow insideColumn).1).1
  have plain : start.Plain := Board.plain_kept _ start starring.rows starring.cols starring.costs
    (Board.lowered_plain _ unmarked.sized finite lowering)
  obtain ⟨unrounded, potentials⟩ :=
    Stage.reached_potentials _ start ⟨fresh, plain, fun t limit leads => shifting t limit leads⟩
      (Board.begun_potentials _ start unmarked reduce lowering) s reached
  obtain ⟨rowsKept, colsKept⟩ := Stage.leads_size ⟨.cover, start⟩ s fresh reached
  have sameRows : s.board.rows = rows := rowsKept.trans starring.rows
  have sameCols : s.board.cols = cols := colsKept.trans starring.cols
  have matched := Stage.sound_matched s unrounded.sound
  refine ⟨?potentials, fun complete => ⟨?matching, ?card, fun other matching full => ?cheapest⟩⟩
  case potentials =>
    obtain ⟨p, q, balanced⟩ := potentials
    rw [sameRows, sameCols] at balanced
    have finiteCost := unrounded.plain.finite
    rw [sameRows, sameCols] at finiteCost
    exact ⟨p, q, fun row col insideRow insideColumn => ⟨finiteCost row col insideRow insideColumn,
      balanced.split row col insideRow insideColumn⟩, balanced.wide, balanced.tall⟩
  case matching =>
    have apart := Stage.star_matching s.board matched.toIndependent
    rwa [sameRows, sameCols] at apart
  case card => rw [← Board.star_count_cells s.board matched.sized, complete]
  case cheapest =>
    rw [← sameRows, ← sameCols] at matching full complete
    exact Stage.full_cheapest _ s.board matched complete unrounded.plain potentials
      other matching full

theorem potentials_invariant_when_finished :
    ∃ start last, Board.Prepared {} 2 2 #[1, 2, 2, 4] start ∧
      Stage.Reached start ⟨.finished, last⟩ ∧
      (∃ p q : Nat → ℚ, ∀ row col, row < 2 → col < 2 →
        (last.costAt row col).isFinite ∧
          last.worthAt row col =
            (Board.loaded {} 2 2 #[1, 2, 2, 4]).worthAt row col - p row - q col) ∧
      last.starCount = 2 ∧
      ∀ other, Matching 2 2 other → other.card = 2 →
        ∑ cell ∈ last.starCells, (Board.loaded {} 2 2 #[1, 2, 2, 4]).worthAt cell.1 cell.2 ≤
          ∑ cell ∈ other, (Board.loaded {} 2 2 #[1, 2, 2, 4]).worthAt cell.1 cell.2 := by
  have known := known_naturals [1, 2, 2, 4] (by decide)
  obtain ⟨_, unrounded⟩ := known_unrounded {} 2 2 #[1, 2, 2, 4] _ rfl known (by decide)
  obtain ⟨start, prepared, _, finite⟩ := Board.square_prepared
  obtain ⟨_, _, reduce⟩ := Board.prepared_reduced _ _ _ _ start prepared
  obtain ⟨last, _, _, reached, _⟩ :=
    Stage.prepared_finishes {} 2 2 #[1, 2, 2, 4] start prepared finite (by decide)
  obtain ⟨⟨p, q, split, _⟩, cheapest⟩ := potentials_invariant {} 2 2 #[1, 2, 2, 4] start prepared
    unrounded.lowering (fun s limit => unrounded.shifting start s limit reduce)
    ⟨.finished, last⟩ reached
  obtain ⟨⟨_, _, complete⟩, sameRows, sameCols⟩ :=
    Stage.reached_side _ _ _ _ start prepared ⟨.finished, last⟩ reached
  have full : last.starCount = 2 := by
    refine complete.trans ?_
    rw [Board.shorterSide, sameRows, sameCols]
    rfl
  exact ⟨start, last, prepared, reached, ⟨p, q, split⟩, full, (cheapest full).2.2⟩

end LinearAssignment
