import LinearAssignment.Proofs.Binary64.Nearness
import LinearAssignment.Proofs.Phase.Spending

set_option autoImplicit false

namespace LinearAssignment

namespace Stage

structure Within (top spent : ℚ) (s : Stage) : Prop where
  amounts : spent + s.amount ≤ top
  costs : ∀ row col, row < s.board.rows → col < s.board.cols → (s.board.costAt row col).isFinite ∧
    0 ≤ Binary64.value (s.board.costAt row col) ∧ Binary64.value (s.board.costAt row col) ≤ 2 * top
  sums : s.phase = .shift → ∀ least, s.board.leastUncovered = .ok least →
    ∀ row col, row < s.board.rows → col < s.board.cols → s.board.RowCovered row →
      (s.board.costAt row col + least).isFinite ∧
        0 ≤ Binary64.value (s.board.costAt row col + least) ∧
        Binary64.value (s.board.costAt row col + least) ≤ 2 * top

theorem solvent_within (top spent : ℚ) (s : Stage) (sound : s.Sound) (solvent : s.Solvent top spent)
    (exactly : s.Exactly (2 * top)) : s.Within top spent := by
  have affords := solvent_affords top spent s sound solvent
  have enough := solvent.spentEnough
  refine ⟨affords, fun row col insideRow insideColumn =>
    ?costs, fun shift least found row col insideRow insideColumn covered => ?sums⟩
  case costs =>
    have raised := solvent.raised row col insideRow insideColumn
    rw [Board.worthAt] at raised
    exact ⟨solvent.finite row col insideRow insideColumn,
      solvent.nonnegative row col insideRow insideColumn, by linarith⟩
  case sums =>
    obtain ⟨other, asked⟩ := shift_asked s sound solvent.toPlain shift
    cases found.symm.trans asked.found
    have positive := (Binary64.positive_iff least asked.finite).mp asked.positive
    have cost := solvent.nonnegative row col insideRow insideColumn
    have raised := solvent.raised row col insideRow insideColumn
    rw [asked.amount] at affords
    obtain ⟨finite, sum⟩ :=
      (exactly shift least found).raises row col insideRow insideColumn covered (by linarith)
    rw [sum]
    exact ⟨finite, by linarith, by linarith⟩

end Stage

/-- Without rounding, the amounts of all shifts add up to no more than the largest cost at the
start, and no cost or sum of a cost and an amount to more than twice of it. Whole costs of which
twice the largest is at most 2 ^ 53 are not rounded, and likewise multiples of another power of two.
-/
theorem shifts_headroom (options : Options) (rows cols : Nat) (values : Array Float)
    (start : Board Float) (prepared : Board.Prepared options rows cols values start)
    (finite : ∀ cost ∈ start.costs, cost.isFinite) (top : ℚ)
    (bounded : ∀ row col, row < rows → col < cols → Binary64.value (start.costAt row col) ≤ top) :
    ((∀ s, Stage.Reached start s → s.Exactly (2 * top)) →
        ∀ s spent, Relation.ReflTransGen Stage.SpendingNext (⟨.cover, start⟩, 0) (s, spent) →
          s.Within top spent) ∧
      ((∀ row col, row < rows → col < cols → ∃ n : ℤ, Binary64.value (start.costAt row col) = n) →
        2 * top ≤ 2 ^ 53 → ∀ s, Stage.Reached start s → s.Exactly (2 * top)) ∧
      ∀ e : ℤ, -1074 ≤ e →
        (∀ row col, row < rows → col < cols →
          ∃ n : ℤ, Binary64.value (start.costAt row col) = n * 2 ^ e) →
        2 * top ≤ 2 ^ 53 * 2 ^ e → top ≤ Binary64.value Binary64.sixteenthOfLargest →
        ∀ s, Stage.Reached start s → s.Exactly (2 * top) := by
  obtain ⟨starring, fresh⟩ := Board.prepared_fresh options rows cols values start prepared
  have priced := Board.prepared_priced options rows cols values start prepared finite
  have rowsAgree : start.rows = rows := starring.rows
  have colsAgree : start.cols = cols := starring.cols
  have plain : start.Plain := Board.priced_plain start fresh.sized priced finite
  have boundedCells :
      ∀ row col, row < start.rows → col < start.cols → start.worthAt row col ≤ top :=
    fun row col insideRow insideColumn =>
      bounded row col (rowsAgree ▸ insideRow) (colsAgree ▸ insideColumn)
  have sign : 0 ≤ top := by
    obtain ⟨someRow, someColumn⟩ := Board.prepared_cells options rows cols values start prepared
    exact (plain.nonnegative 0 0 (by omega) (by omega)).trans (bounded 0 0 someRow someColumn)
  have solvent : Stage.Solvent top 0 ⟨.cover, start⟩ :=
    Stage.start_solvent top start plain boundedCells sign
  have onGrid (unit : ℚ) (grid : Binary64.HasMultiples unit (2 * top))
      (multiples : ∀ row col, row < rows → col < cols →
        ∃ n : ℤ, Binary64.value (start.costAt row col) = n * unit)
      (s : Stage) (reached : Stage.Reached start s) : s.Exactly (2 * top) := by
    have onUnit : start.OnUnit unit := fun row col insideRow insideColumn =>
      multiples row col (rowsAgree ▸ insideRow) (colsAgree ▸ insideColumn)
    obtain ⟨onUnitHere, spent, solventHere⟩ :=
      Stage.reached_on_unit unit top grid start fresh solvent onUnit s reached
    exact Stage.on_unit_exactly unit top grid s (Stage.leads_sound ⟨.cover, start⟩ s fresh reached)
      solventHere.toPlain onUnitHere
  refine ⟨fun exactly s spent spending => ?bounds, fun whole room =>
    ?whole, fun e low multiples room ceiling => ?multiples⟩
  case bounds =>
    have reached : Stage.Reached start s := Stage.spending_leads _ s 0 spent spending
    have paid := Stage.spending_solvent top start fresh solvent exactly (s, spent) spending
    exact Stage.solvent_within top spent s (Stage.leads_sound ⟨.cover, start⟩ s fresh reached) paid
      (exactly s reached)
  case whole =>
    refine onGrid 1 (Binary64.has_whole (2 * top) room) fun row col insideRow insideColumn => ?_
    simp only [mul_one]
    exact whole row col insideRow insideColumn
  case multiples =>
    have power : (0 : ℚ) < 2 ^ e := by positivity
    refine onGrid (2 ^ e) (fun n above below => ?_) multiples
    have nonneg : 0 ≤ n := by exact_mod_cast nonneg_of_mul_nonneg_left above power
    have few : (n : ℚ) ≤ 2 ^ 53 := le_of_mul_le_mul_right (below.trans room) power
    have fewHere : n ≤ 2 ^ 53 := by exact_mod_cast few
    refine Binary64.representable_multiple n e low (abs_le.mpr ⟨by omega, fewHere⟩) ?_
    rw [abs_of_nonneg above]
    linarith

theorem shifts_headroom_within_four :
    ∃ start, Board.Prepared {} 2 2 #[1, 2, 2, 4] start ∧
      (∀ row col, row < 2 → col < 2 → Binary64.value (start.costAt row col) ≤ 2) ∧
      ∀ s spent, Relation.ReflTransGen Stage.SpendingNext (⟨.cover, start⟩, 0) (s, spent) →
        s.Within 2 spent := by
  obtain ⟨start, prepared, costs, _⟩ := Board.square_prepared
  obtain ⟨starring, fresh⟩ := Board.prepared_fresh {} 2 2 #[1, 2, 2, 4] start prepared
  have naturals :
      ∀ cost ∈ start.costs, cost.isFinite ∧ ∃ n : ℕ, n ≤ 2 ∧ Binary64.value cost = n := by
    intro cost member
    have numbers : start.costs = ([0, 0, 1, 2].map Float.ofNat).toArray := costs
    rw [numbers] at member
    obtain ⟨n, known, rfl⟩ := List.mem_map.mp (List.mem_toArray.mp member)
    have bound : n ≤ 2 := (by decide : ∀ n ∈ [0, 0, 1, 2], n ≤ 2) n known
    obtain ⟨finite, exact⟩ := Binary64.whole_exact n (by omega)
    exact ⟨finite, n, bound, exact⟩
  have cells :
      ∀ row col, row < 2 → col < 2 →
        ∃ n : ℕ, n ≤ 2 ∧ Binary64.value (start.costAt row col) = n := by
    intro row col insideRow insideColumn
    have rowsAgree : start.rows = 2 := starring.rows
    have colsAgree : start.cols = 2 := starring.cols
    exact (naturals _
      (Array.mem_of_getElem? (Board.cost_read start row col fresh.sized (by omega) (by omega)))).2
  have bounded : ∀ row col, row < 2 → col < 2 → Binary64.value (start.costAt row col) ≤ 2 := by
    intro row col insideRow insideColumn
    obtain ⟨n, bound, same⟩ := cells row col insideRow insideColumn
    rw [same]
    exact_mod_cast bound
  have whole :
      ∀ row col, row < 2 → col < 2 → ∃ n : ℤ, Binary64.value (start.costAt row col) = n := by
    intro row col insideRow insideColumn
    obtain ⟨n, _, same⟩ := cells row col insideRow insideColumn
    exact ⟨n, by simpa using same⟩
  obtain ⟨within, exactly, _⟩ := shifts_headroom {} 2 2 #[1, 2, 2, 4] start prepared
    (fun cost member => (naturals cost member).1) 2 bounded
  exact ⟨start, prepared, bounded, within (exactly whole (by norm_num))⟩

end LinearAssignment
