import LinearAssignment.Proofs.Optimality.Matching

set_option autoImplicit false

namespace LinearAssignment

namespace Matching

variable {rows cols : Nat} {cells : Finset (Nat × Nat)}

theorem empty : Matching rows cols ∅ := ⟨by simp, by simp, by simp⟩

theorem free_row (matching : Matching rows cols cells) (few : cells.card < rows) :
    ∃ row, row < rows ∧ row ∉ cells.image Prod.fst := by
  have fewer : (cells.image Prod.fst).card < (Finset.range rows).card := by
    rwa [matching.card_rows, Finset.card_range]
  obtain ⟨row, inside, free⟩ := Finset.exists_mem_notMem_of_card_lt_card fewer
  exact ⟨row, Finset.mem_range.mp inside, free⟩

theorem free_column (matching : Matching rows cols cells) (few : cells.card < cols) :
    ∃ col, col < cols ∧ col ∉ cells.image Prod.snd := by
  have fewer : (cells.image Prod.snd).card < (Finset.range cols).card := by
    rwa [matching.card_columns, Finset.card_range]
  obtain ⟨col, inside, free⟩ := Finset.exists_mem_notMem_of_card_lt_card fewer
  exact ⟨col, Finset.mem_range.mp inside, free⟩

theorem grown (matching : Matching rows cols cells) (row col : Nat) (insideRow : row < rows)
    (insideColumn : col < cols) (freeRow : row ∉ cells.image Prod.fst)
    (freeColumn : col ∉ cells.image Prod.snd) : Matching rows cols (insert (row, col) cells) where
  inside := by
    intro cell member
    cases Finset.mem_insert.mp member with
    | inl same =>
        subst same
        exact ⟨insideRow, insideColumn⟩
    | inr before => exact matching.inside cell before
  rowsApart := by
    intro a member b memberToo same
    rcases Finset.mem_insert.mp member with rfl | before <;> rcases Finset.mem_insert.mp memberToo
      with rfl | beforeToo
    · rfl
    · exact absurd (Finset.mem_image.mpr ⟨b, beforeToo, same.symm⟩) freeRow
    · exact absurd (Finset.mem_image.mpr ⟨a, before, same⟩) freeRow
    · exact matching.rowsApart a before b beforeToo same
  columnsApart := by
    intro a member b memberToo same
    rcases Finset.mem_insert.mp member with rfl | before <;> rcases Finset.mem_insert.mp memberToo
      with rfl | beforeToo
    · rfl
    · exact absurd (Finset.mem_image.mpr ⟨b, beforeToo, same.symm⟩) freeColumn
    · exact absurd (Finset.mem_image.mpr ⟨a, before, same⟩) freeColumn
    · exact matching.columnsApart a before b beforeToo same

-- The induction is on the cells still missing; a free row and a free column meet in one more.
theorem completed (matching : Matching rows cols cells) :
    ∃ whole, cells ⊆ whole ∧ Matching rows cols whole ∧ whole.card = min rows cols := by
  generalize missing : min rows cols - cells.card = n
  induction n generalizing cells with
  | zero =>
      exact ⟨cells, Finset.Subset.refl _, matching, le_antisymm matching.card_bound (by omega)⟩
  | succ n ih =>
      obtain ⟨row, insideRow, freeRow⟩ := matching.free_row (by omega)
      obtain ⟨col, insideColumn, freeColumn⟩ := matching.free_column (by omega)
      have fresh : (row, col) ∉ cells :=
        fun member => freeRow (Finset.mem_image.mpr ⟨_, member, rfl⟩)
      obtain ⟨whole, within, full, many⟩ :=
        ih (matching.grown row col insideRow insideColumn freeRow freeColumn)
          (by rw [Finset.card_insert_of_notMem fresh]; omega)
      exact ⟨whole, (Finset.subset_insert _ _).trans within, full, many⟩

end Matching

structure Outpriced (rows cols : Nat) (allowed : Nat × Nat → Prop) (loaded : Nat → Nat → ℚ)
    (price : ℚ) : Prop where
  nonnegative : ∀ cell : Nat × Nat, cell.1 < rows → cell.2 < cols → allowed cell →
    0 ≤ loaded cell.1 cell.2
  barred : ∀ cell : Nat × Nat, cell.1 < rows → cell.2 < cols → ¬ allowed cell →
    loaded cell.1 cell.2 = price
  outweighs : ∀ cells, Matching rows cols cells → (∀ cell ∈ cells, allowed cell) →
    ∑ cell ∈ cells, loaded cell.1 cell.2 < price

namespace Outpriced

variable {rows cols : Nat} {allowed : Nat × Nat → Prop} [DecidablePred allowed]
  {loaded : Nat → Nat → ℚ} {price : ℚ}

omit [DecidablePred allowed] in
theorem price_sign (outpriced : Outpriced rows cols allowed loaded price) : 0 < price := by
  simpa using outpriced.outweighs ∅ Matching.empty (by simp)

theorem price_above (outpriced : Outpriced rows cols allowed loaded price) (cell : Nat × Nat)
    (insideRow : cell.1 < rows) (insideColumn : cell.2 < cols) : loaded cell.1 cell.2 ≤ price := by
  by_cases within : allowed cell
  · have single : Matching rows cols {cell} :=
      Matching.empty.grown cell.1 cell.2 insideRow insideColumn (by simp) (by simp)
    have below := outpriced.outweighs {cell} single (by simpa using within)
    rw [Finset.sum_singleton] at below
    exact below.le
  · exact (outpriced.barred cell insideRow insideColumn within).le

theorem nonnegative_all (outpriced : Outpriced rows cols allowed loaded price) (cell : Nat × Nat)
    (insideRow : cell.1 < rows) (insideColumn : cell.2 < cols) : 0 ≤ loaded cell.1 cell.2 := by
  by_cases within : allowed cell
  · exact outpriced.nonnegative cell insideRow insideColumn within
  · rw [outpriced.barred cell insideRow insideColumn within]
    exact outpriced.price_sign.le

theorem full_total (outpriced : Outpriced rows cols allowed loaded price)
    (cells : Finset (Nat × Nat)) (matching : Matching rows cols cells) :
    ∑ cell ∈ cells, loaded cell.1 cell.2 =
      ∑ cell ∈ cells.filter allowed, loaded cell.1 cell.2 +
        ((cells.card : ℚ) - (cells.filter allowed).card) * price := by
  have others :
      ∑ cell ∈ cells.filter (¬ allowed ·), loaded cell.1 cell.2 =
        (cells.filter (¬ allowed ·)).card • price := by
    refine Finset.sum_eq_card_nsmul fun cell member => ?_
    obtain ⟨chosen, barred⟩ := Finset.mem_filter.mp member
    exact outpriced.barred cell (matching.inside cell chosen).1
      (matching.inside cell chosen).2 barred
  have count :
      ((cells.filter allowed).card : ℚ) + (cells.filter (¬ allowed ·)).card = cells.card := by
    exact_mod_cast Finset.card_filter_add_card_filter_not (s := cells) allowed
  rw [← Finset.sum_filter_add_sum_filter_not cells allowed, others, nsmul_eq_mul, ← count]
  ring

theorem completed_total (outpriced : Outpriced rows cols allowed loaded price)
    (cells : Finset (Nat × Nat)) (matching : Matching rows cols cells) :
    ∃ whole, Matching rows cols whole ∧ whole.card = min rows cols ∧
      ∑ cell ∈ whole, loaded cell.1 cell.2 ≤
        ∑ cell ∈ cells, loaded cell.1 cell.2 +
          ((min rows cols : ℕ) - (cells.card : ℚ)) * price := by
  obtain ⟨whole, within, full, many⟩ := matching.completed
  have added : ∑ cell ∈ whole \ cells, loaded cell.1 cell.2 ≤ (whole \ cells).card • price :=
    Finset.sum_le_card_nsmul _ _ _ fun cell member => by
      obtain ⟨insideRow, insideColumn⟩ := full.inside cell (Finset.mem_sdiff.mp member).1
      exact outpriced.price_above cell insideRow insideColumn
  have count : ((whole \ cells).card : ℚ) + cells.card = (min rows cols : ℕ) := by
    exact_mod_cast (Finset.card_sdiff_add_card_eq_card within).trans many
  refine ⟨whole, full, many, ?_⟩
  rw [← Finset.sum_sdiff within, ← count, add_sub_cancel_right, add_comm, ← nsmul_eq_mul]
  exact add_le_add le_rfl added

theorem most_if_near (outpriced : Outpriced rows cols allowed loaded price) (slack : ℚ)
    (outweighs : ∀ cells, Matching rows cols cells → (∀ cell ∈ cells, allowed cell) →
      ∑ cell ∈ cells, loaded cell.1 cell.2 + slack < price)
    (stars : Finset (Nat × Nat)) (matching : Matching rows cols stars)
    (full : stars.card = min rows cols)
    (near : ∀ other, Matching rows cols other → other.card = min rows cols →
      ∑ cell ∈ stars, loaded cell.1 cell.2 ≤ ∑ cell ∈ other, loaded cell.1 cell.2 + slack)
    (other : Finset (Nat × Nat)) (matchingToo : Matching rows cols other)
    (within : ∀ cell ∈ other, allowed cell) : other.card ≤ (stars.filter allowed).card := by
  obtain ⟨whole, matchingWhole, many, total⟩ := outpriced.completed_total other matchingToo
  have order := near whole matchingWhole many
  rw [outpriced.full_total stars matching, full] at order
  have sign : 0 ≤ ∑ cell ∈ stars.filter allowed, loaded cell.1 cell.2 :=
      Finset.sum_nonneg fun cell member => by
    obtain ⟨chosen, allowedHere⟩ := Finset.mem_filter.mp member
    exact outpriced.nonnegative cell (matching.inside cell chosen).1
      (matching.inside cell chosen).2 allowedHere
  have outweighed := outweighs other matchingToo within
  refine not_lt.mp fun more => ?_
  have gap : ((stars.filter allowed).card : ℚ) + 1 ≤ other.card := by exact_mod_cast more
  have paid := mul_le_mul_of_nonneg_right gap outpriced.price_sign.le
  linarith

theorem most_then_cheapest (outpriced : Outpriced rows cols allowed loaded price)
    (stars : Finset (Nat × Nat)) (matching : Matching rows cols stars)
    (full : stars.card = min rows cols)
    (cheapest : ∀ other, Matching rows cols other → other.card = min rows cols →
      ∑ cell ∈ stars, loaded cell.1 cell.2 ≤ ∑ cell ∈ other, loaded cell.1 cell.2)
    (other : Finset (Nat × Nat)) (matchingToo : Matching rows cols other)
    (within : ∀ cell ∈ other, allowed cell) :
    other.card ≤ (stars.filter allowed).card ∧
      (other.card = (stars.filter allowed).card →
        ∑ cell ∈ stars.filter allowed, loaded cell.1 cell.2 ≤
          ∑ cell ∈ other, loaded cell.1 cell.2) := by
  refine ⟨?most, fun same => ?cheap⟩
  case most =>
    refine outpriced.most_if_near 0 (fun cells apart allowedCells => ?_) stars matching full
      (fun whole apart many => ?_) other matchingToo within
    · rw [add_zero]
      exact outpriced.outweighs cells apart allowedCells
    · rw [add_zero]
      exact cheapest whole apart many
  case cheap =>
    obtain ⟨whole, matchingWhole, many, total⟩ := outpriced.completed_total other matchingToo
    have order := (cheapest whole matchingWhole many).trans total
    rw [outpriced.full_total stars matching, full, same] at order
    linarith

end Outpriced

end LinearAssignment
