import LinearAssignment.Proofs.Phase.Step

set_option autoImplicit false

namespace LinearAssignment.Board

structure Priced (b : Board Float) : Prop where
  nonnegative : ∀ row col, row < b.rows → col < b.cols → Binary64.Nonnegative (b.costAt row col)
  freeFinite : ∀ row col, row < b.rows → col < b.cols → (∀ c, ¬ b.Starred row c) →
    (∀ r, ¬ b.Starred r col) → (b.costAt row col).isFinite

theorem free_open (b : Board Float) (disciplined : b.Disciplined) (row col : Nat)
    (insideRow : row < b.rows) (insideColumn : col < b.cols) (rowFree : ∀ c, ¬ b.Starred row c)
    (columnFree : ∀ r, ¬ b.Starred r col) : b.Open row col := by
  refine ⟨insideRow, insideColumn, fun covered => ?_, fun covered => ?_⟩
  · obtain ⟨⟨c, starred⟩, _⟩ := (disciplined.rowCover row).mp covered
    exact rowFree c starred
  · obtain ⟨r, starred, _⟩ := (disciplined.columnCover col).mp covered
    exact columnFree r starred

theorem least_below (b : Board Float) (least : Float) (lowest : b.Least least)
    (finite : least.isFinite) (row col : Nat) (uncovered : b.Open row col)
    (nonneg : Binary64.Nonnegative (b.costAt row col)) :
    Binary64.height least ≤ Binary64.height (b.costAt row col) := by
  have above := lowest.lowest row col uncovered
  rw [Binary64.less_iff _ _ nonneg.1 (Binary64.finite_number least finite)] at above
  exact not_lt.mp above

theorem least_positive (b : Board Float) (sized : b.Sized) (absent : ∀ row col, ¬ b.Bare row col)
    (row col : Nat) (uncovered : b.Open row col) (finite : (b.costAt row col).isFinite)
    (sign : 0 ≤ Binary64.value (b.costAt row col)) : 0 < b.costAt row col := by
  rw [Binary64.positive_iff _ finite]
  refine lt_of_le_of_ne sign fun zero => absent row col ⟨?_, uncovered.2.2.1, uncovered.2.2.2⟩
  refine (zero_cost b row col sized).mpr ⟨uncovered.1, uncovered.2.1, ?_⟩
  exact (Binary64.zero_iff _).mpr ⟨finite, zero.symm⟩

theorem least_usable (b : Board Float) (searching : b.Searching) (priced : b.Priced)
    (missing : b.starCount < b.shorterSide) (absent : ∀ row col, ¬ b.Bare row col) (least : Float)
    (lowest : b.Least least) :
    least.isFinite ∧ 0 < least ∧ ∃ row col, b.Open row col ∧ b.costAt row col = least := by
  obtain ⟨row, insideRow, rowFree⟩ := free_row b searching.sized searching.toIndependent missing
  obtain ⟨col, insideColumn, columnFree⟩ :=
    free_column b searching.sized searching.toIndependent missing
  have uncovered :=
    free_open b searching.toDisciplined row col insideRow insideColumn rowFree columnFree
  have finiteCost := priced.freeFinite row col insideRow insideColumn rowFree columnFree
  have numberCost := Binary64.finite_number _ finiteCost
  have notTop (number : least.isNaN = false) (top : Binary64.height least = ⊤) : False := by
    refine lowest.lowest row col uncovered ?_
    rw [Binary64.less_iff _ _ numberCost number, top, Binary64.height_finite _ finiteCost]
    exact WithBot.coe_lt_coe.mpr (WithTop.coe_lt_top _)
  cases lowest.origin with
  | inl top =>
      rw [top] at notTop
      exact (notTop Binary64.infinity_number Binary64.height_infinity).elim
  | inr facts =>
      obtain ⟨r, c, openThere, same⟩ := facts
      subst same
      cases Binary64.nonnegative_cases _ (priced.nonnegative r c openThere.1 openThere.2.1) with
      | inl top =>
          obtain ⟨number, highest⟩ := Binary64.infinity_highest _ top
          exact (notTop number highest).elim
      | inr facts =>
          obtain ⟨finite, sign⟩ := facts
          exact ⟨finite, least_positive b searching.sized absent r c openThere finite sign, r,
            c, openThere, rfl⟩

theorem shifted_nonnegative (b : Board Float) (least : Float) (lowest : b.Least least)
    (finite : least.isFinite) (positive : 0 < least) (row col : Nat) (insideRow : row < b.rows)
    (insideColumn : col < b.cols) (before : Binary64.Nonnegative (b.costAt row col)) :
    Binary64.Nonnegative (b.shiftedAt least row col) := by
  have raised := Binary64.raised_above (b.costAt row col) least before finite
  rw [shiftedAt]
  by_cases rowCovered : b.RowCovered row
  · by_cases columnCovered : b.ColumnCovered col
    · simp only [rowCovered, columnCovered, if_true]
      have sign := (Binary64.positive_iff least finite).mp positive
      exact ⟨raised.1, le_trans ((Binary64.nonnegative_finite least finite).mpr sign.le).2 raised.2⟩
    · simp only [rowCovered, columnCovered, if_true, if_false]
      exact Binary64.lowered_nonnegative _ least raised.1 finite raised.2
  · by_cases columnCovered : b.ColumnCovered col
    · simp only [rowCovered, columnCovered, if_true, if_false]
      exact before
    · simp only [rowCovered, columnCovered, if_false]
      exact Binary64.lowered_nonnegative _ least before.1 finite
        (least_below b least lowest finite row col ⟨insideRow, insideColumn, rowCovered,
        columnCovered⟩ before)

theorem shifted_priced (b after : Board Float) (least : Float) (shifted : b.Shifted after least)
    (searching : b.Searching) (priced : b.Priced) (lowest : b.Least least) (finite : least.isFinite)
    (positive : 0 < least) : after.Priced := by
  have sizes := shifted_size b after least shifted
  have sameStars := fun row col => (shifted_marks b after least shifted row col).1
  have sign : 0 ≤ Binary64.value least := by
    rw [Binary64.positive_iff least finite] at positive
    exact positive.le
  refine ⟨fun row col insideRow insideColumn =>
    ?_, fun row col insideRow insideColumn rowFree columnFree => ?_⟩
  · rw [sizes.1] at insideRow
    rw [sizes.2] at insideColumn
    rw [shifted.costs row col insideRow insideColumn]
    exact shifted_nonnegative b least lowest finite positive row col insideRow insideColumn
      (priced.nonnegative row col insideRow insideColumn)
  · rw [sizes.1] at insideRow
    rw [sizes.2] at insideColumn
    simp only [sameStars] at rowFree columnFree
    have uncovered :=
      free_open b searching.toDisciplined row col insideRow insideColumn rowFree columnFree
    have before := priced.freeFinite row col insideRow insideColumn rowFree columnFree
    have below := least_below b least lowest finite row col uncovered
      (priced.nonnegative row col insideRow insideColumn)
    rw [Binary64.height_finite _ before, Binary64.height_finite _ finite] at below
    rw [shifted.costs row col insideRow insideColumn, shiftedAt]
    simp only [uncovered.2.2.1, uncovered.2.2.2, if_false]
    exact Binary64.lowered_finite _ least before finite sign (by exact_mod_cast below)

theorem shifted_bare (b after : Board Float) (least : Float) (shifted : b.Shifted after least)
    (finite : least.isFinite) (row col : Nat) (uncovered : b.Open row col)
    (same : b.costAt row col = least) : after.Bare row col := by
  have cost := shifted.costs row col uncovered.1 uncovered.2.1
  simp only [shiftedAt, uncovered.2.2.1, uncovered.2.2.2, if_false, same] at cost
  have zero : after.Zero row col := by
    have sizes := shifted_size b after least shifted
    refine (zero_cost after row col shifted.sized).mpr ⟨sizes.1 ▸ uncovered.1,
      sizes.2 ▸ uncovered.2.1, ?_⟩
    rw [cost]
    exact Binary64.self_difference_zero least finite
  refine ⟨zero, ?_, ?_⟩
  · rw [shifted.frame]
    exact uncovered.2.2.1
  · rw [shifted.frame]
    exact uncovered.2.2.2

theorem shift_progress (b : Board Float) (searching : b.Searching) (priced : b.Priced)
    (missing : b.starCount < b.shorterSide) (absent : ∀ row col, ¬ b.Bare row col) :
    ∃ after least, b.shift = .ok after ∧ b.leastUncovered = .ok least ∧ b.Least least ∧
      b.Shifted after least ∧ least.isFinite ∧ 0 < least ∧ after.Priced ∧
      ∃ row col, b.Open row col ∧ b.costAt row col = least ∧ after.Bare row col := by
  obtain ⟨least, found, lowest⟩ := least_uncovered b searching.sized
  obtain ⟨finite, positive, row, col, uncovered, same⟩ :=
    least_usable b searching priced missing absent least lowest
  have some : b.rows ≠ 0 := by
    have few : b.shorterSide ≤ b.rows := Nat.min_le_left _ _
    omega
  obtain ⟨after, result, shifted⟩ := shift_ok b searching.sized least found some finite positive
  exact ⟨after, least, result, found, lowest, shifted, finite, positive,
    shifted_priced b after least shifted searching priced lowest finite positive, row, col,
    uncovered, same, shifted_bare b after least shifted finite row col uncovered same⟩

-- The reduced costs are not negative, because a line is lowered by no more than each of its costs.
theorem prepared_priced (options : Options) (rows cols : Nat) (values : Array Float)
    (start : Board Float) (prepared : Prepared options rows cols values start)
    (finite : ∀ cost ∈ start.costs, cost.isFinite) : start.Priced := by
  obtain ⟨size, _, _⟩ := prepared_reduced options rows cols values start prepared
  obtain ⟨starring, fresh⟩ := prepared_fresh options rows cols values start prepared
  have unmarked := loaded_unmarked options rows cols values size
  have everyFinite :
      ∀ row col, row < start.rows → col < start.cols → (start.costAt row col).isFinite :=
    fun row col insideRow insideColumn =>
      finite _ (Array.mem_of_getElem? (cost_read start row col fresh.sized insideRow insideColumn))
  refine ⟨fun row col insideRow insideColumn => ?_, fun row col insideRow insideColumn _ _ =>
    everyFinite row col insideRow insideColumn⟩
  have finiteHere := everyFinite row col insideRow insideColumn
  rw [starring.rows] at insideRow
  rw [starring.cols] at insideColumn
  have same :
      start.costAt row col = (loaded options rows cols values).lowerLines.costAt row col := by
    rw [costAt, costAt, offset, offset, starring.costs, starring.rows]
  rw [same, lowered_cost _ unmarked.sized row col insideRow insideColumn] at finiteHere ⊢
  obtain ⟨costFinite, leastFinite⟩ := Binary64.difference_finite _ _ finiteHere
  have lowest := (least_of_line _ unmarked.sized _).lowest row col insideRow insideColumn rfl
  have number := Binary64.finite_number _ costFinite
  rw [Binary64.less_iff _ _ number (Binary64.finite_number _ leastFinite)] at lowest
  exact Binary64.lowered_nonnegative _ _ number leastFinite (not_lt.mp lowest)

end LinearAssignment.Board
