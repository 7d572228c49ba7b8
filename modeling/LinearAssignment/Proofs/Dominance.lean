import LinearAssignment.Proofs.LastResort

set_option autoImplicit false

namespace LinearAssignment

namespace Pricing

open Binary64

theorem capped_above (price : Float)
    (capped : price < sixteenthOfLargest ∨ price = sixteenthOfLargest) (total : ℚ)
    (above : price < sixteenthOfLargest → total < value price) :
    total < value price ↔ price < sixteenthOfLargest ∨ total < value sixteenthOfLargest := by
  cases capped with
  | inl low => exact iff_of_true (above low) (Or.inl low)
  | inr high =>
      rw [high]
      exact (or_iff_right (less_irrefl _)).symm

end Pricing

/-- All barred cells are loaded at one price, which is positive and no higher than its ceiling. It
lies above the total of allowed cells apart exactly when it is below the ceiling or the total is. -/
theorem price_above_totals (mem : Memory) (options : Options) (rows cols : Nat)
    (values : Array Float) (old empty : Board Float)
    (reset : Board.reset mem rows cols old = .ok empty) (size : values.size = rows * cols)
    (forbids : options.forbidNonFinite = true) (some : ∃ v ∈ values, v.isFinite)
    (barred : ∃ v ∈ values, v.isFinite = false) :
    ∃ full price, empty.load options values = .ok (full, true) ∧ price.isFinite ∧ 0 < price ∧
      (price < Binary64.sixteenthOfLargest ∨ price = Binary64.sixteenthOfLargest) ∧
      (∀ row col, row < rows → col < cols → (full.costAt row col).isFinite) ∧
      (∀ row col, row < rows → col < cols → ¬ Allowed values rows (row, col) →
        full.costAt row col = price) ∧
      ∀ cells, Matching rows cols cells → (∀ cell ∈ cells, Allowed values rows cell) →
        (∑ cell ∈ cells, full.worthAt cell.1 cell.2 < Binary64.value price ↔
          price < Binary64.sixteenthOfLargest ∨
            ∑ cell ∈ cells, full.worthAt cell.1 cell.2 <
              Binary64.value Binary64.sixteenthOfLargest) := by
  have few := Board.reset_small mem rows cols old empty reset
  obtain rfl := Board.reset_inverted mem rows cols old empty reset
  have any : values.any Float.isFinite := Array.any_eq_true'.mpr some
  have nonempty : 0 < values.size := by
    obtain ⟨v, member, _⟩ := some
    exact Array.size_pos_of_mem member
  have loads :=
    Board.load_ready options rows cols values size (by simp [Board.objection?, forbids]) any
  obtain ⟨finite, positive⟩ := Pricing.price_positive options values nonempty
  have capped :
      Pricing.price options values < Binary64.sixteenthOfLargest ∨
        Pricing.price options values = Binary64.sixteenthOfLargest :=
    Pricing.forbidden_capped _ _
  refine ⟨_, Pricing.price options values, loads, finite,
    (Binary64.positive_iff _ finite).mpr positive, capped, fun row col insideRow insideColumn =>
      ?finiteCost, fun row col insideRow insideColumn forbidden =>
        ?priced, fun cells matching allowed => Pricing.capped_above _ capped _ fun low => ?above⟩
  case finiteCost =>
    rw [Board.loaded_cost options rows cols values size row col insideRow insideColumn]
    exact Pricing.settled_finite options values barred _
      (cell_member values rows cols row col size insideRow insideColumn)
  case priced =>
    have infinite : (values.getD (row + rows * col) 0).isFinite = false := by
      simpa [Allowed] using forbidden
    rw [Board.loaded_cost options rows cols values size row col insideRow insideColumn]
    exact Pricing.settled_nonfinite options values _
      (cell_member values rows cols row col size insideRow insideColumn) infinite
  case above =>
    have outlay := allowed_outlay options rows cols values size (by rw [UInt64.size] at few; omega)
      nonempty low cells matching allowed
    linarith

theorem price_above_totals_uneven :
    ∃ empty full price, Board.reset ⟨1000⟩ 2 2 (Board.blank : Board Float) = .ok empty ∧
      empty.load {} uneven = .ok (full, true) ∧ full.costAt 0 1 = price ∧
      ∀ cells, Matching 2 2 cells → (∀ cell ∈ cells, Allowed uneven 2 cell) →
        (∑ cell ∈ cells, full.worthAt cell.1 cell.2 < Binary64.value price ↔
          price < Binary64.sixteenthOfLargest ∨
            ∑ cell ∈ cells, full.worthAt cell.1 cell.2 <
              Binary64.value Binary64.sixteenthOfLargest) := by
  have reset := Board.reset_ok ⟨1000⟩ 2 2 (Board.blank : Board Float) (by decide) (by decide)
    (by decide) (by decide) (by decide) (by decide)
  obtain ⟨full, price, loads, _, _, _, _, priced, above⟩ :=
    price_above_totals ⟨1000⟩ {} 2 2 uneven _ _ reset rfl rfl ⟨7, by simp [uneven], rfl⟩
      ⟨Binary64.infinity, by simp [uneven], rfl⟩
  exact ⟨_, full, price, reset, loads, priced 0 1 (by decide) (by decide) (by decide +kernel),
    above⟩

-- The price is cut off at a ceiling below the cost of the only allowed cell, and the row is left
-- free rather than given that cell.
theorem capped_price_outbid :
    (∃ empty full, Board.reset ⟨1000⟩ 1 2 (Board.blank : Board Float) = .ok empty ∧
        empty.load {} #[1e308, Binary64.infinity] = .ok (full, true) ∧ Matching 1 2 {(0, 0)} ∧
        (∀ cell ∈ ({(0, 0)} : Finset (Nat × Nat)), Allowed #[1e308, Binary64.infinity] 1 cell) ∧
        ¬ Allowed #[1e308, Binary64.infinity] 1 (0, 1) ∧
        Binary64.value (full.costAt 0 1) <
          ∑ cell ∈ ({(0, 0)} : Finset (Nat × Nat)), full.worthAt cell.1 cell.2) ∧
      ∃ report : Assignment .bits8,
        optimalAssignment ⟨1000⟩ {} 1 2 #[1e308, Binary64.infinity] = .ok report ∧
          report.pairs = [] := by
  refine ⟨⟨_, _, Board.reset_ok ⟨1000⟩ 1 2 _ (by decide) (by decide) (by decide) (by decide)
    (by decide) (by decide), Board.load_ready {} 1 2 _ rfl rfl (by decide +kernel),
    ⟨by decide, by decide, by decide⟩, by decide +kernel, by decide +kernel, ?below⟩, ?solved⟩
  case below =>
    rw [Finset.sum_singleton, Board.worthAt,
      ← Binary64.less_finite_iff _ _ (by decide +kernel) (by decide +kernel)]
    decide +kernel
  case solved =>
    have solved :
        (match (optimalAssignment ⟨1000⟩ {} 1 2 #[1e308, Binary64.infinity] :
        Except (Halt Unit) (Assignment .bits8)) with
      | .ok report => report.pairs
      | .error _ => [(0, 0)]) = [] := by decide +kernel
    split at solved
    · exact ⟨_, by assumption, solved⟩
    · cases solved

end LinearAssignment
