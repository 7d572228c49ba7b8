import LinearAssignment.Proofs.Board.Count

/-! Sets of cells that share no line, and why potentials show one of them to be cheapest: those of
the full side are all paid for, and what is left out on the other side is largest. -/

set_option autoImplicit false

namespace LinearAssignment

/-- Cells of a table no two of which share a row or a column. -/
structure Matching (rows cols : Nat) (cells : Finset (Nat × Nat)) : Prop where
  inside : ∀ cell ∈ cells, cell.1 < rows ∧ cell.2 < cols
  rowsApart : ∀ a ∈ cells, ∀ b ∈ cells, a.1 = b.1 → a = b
  columnsApart : ∀ a ∈ cells, ∀ b ∈ cells, a.2 = b.2 → a = b

namespace Matching

variable {rows cols : Nat} {cells : Finset (Nat × Nat)}

theorem card_rows (matching : Matching rows cols cells) :
    (cells.image Prod.fst).card = cells.card :=
  Finset.card_image_of_injOn fun a member b memberToo same =>
    matching.rowsApart a member b memberToo same

theorem card_columns (matching : Matching rows cols cells) :
    (cells.image Prod.snd).card = cells.card :=
  Finset.card_image_of_injOn fun a member b memberToo same =>
    matching.columnsApart a member b memberToo same

theorem sum_rows (matching : Matching rows cols cells) (p : Nat → ℚ) :
    ∑ cell ∈ cells, p cell.1 = ∑ row ∈ cells.image Prod.fst, p row :=
  (Finset.sum_image fun a member b memberToo same =>
    matching.rowsApart a member b memberToo same).symm

theorem sum_columns (matching : Matching rows cols cells) (q : Nat → ℚ) :
    ∑ cell ∈ cells, q cell.2 = ∑ col ∈ cells.image Prod.snd, q col :=
  (Finset.sum_image fun a member b memberToo same =>
    matching.columnsApart a member b memberToo same).symm

theorem rows_inside (matching : Matching rows cols cells) :
    cells.image Prod.fst ⊆ Finset.range rows := by
  intro row member
  obtain ⟨cell, chosen, rfl⟩ := Finset.mem_image.mp member
  exact Finset.mem_range.mpr (matching.inside cell chosen).1

theorem columns_inside (matching : Matching rows cols cells) :
    cells.image Prod.snd ⊆ Finset.range cols := by
  intro col member
  obtain ⟨cell, chosen, rfl⟩ := Finset.mem_image.mp member
  exact Finset.mem_range.mpr (matching.inside cell chosen).2

theorem every_row (matching : Matching rows cols cells) (full : cells.card = rows) :
    cells.image Prod.fst = Finset.range rows :=
  Finset.eq_of_subset_of_card_le matching.rows_inside
    (by rw [matching.card_rows, full, Finset.card_range])

theorem every_column (matching : Matching rows cols cells) (full : cells.card = cols) :
    cells.image Prod.snd = Finset.range cols :=
  Finset.eq_of_subset_of_card_le matching.columns_inside
    (by rw [matching.card_columns, full, Finset.card_range])

theorem card_bound (matching : Matching rows cols cells) : cells.card ≤ min rows cols := by
  refine le_min ?_ ?_
  · rw [← matching.card_rows]
    simpa using Finset.card_le_card matching.rows_inside
  · rw [← matching.card_columns]
    simpa using Finset.card_le_card matching.columns_inside

theorem card_cells (matching : Matching rows cols cells) : cells.card ≤ rows * cols := by
  refine matching.card_bound.trans ?_
  cases Nat.eq_zero_or_pos cols with
  | inl none => simp [none]
  | inr some => exact (Nat.min_le_left rows cols).trans (Nat.le_mul_of_pos_right rows some)

theorem part (matching : Matching rows cols cells) (fewer : Finset (Nat × Nat))
    (within : fewer ⊆ cells) : Matching rows cols fewer where
  inside := fun cell member => matching.inside cell (within member)
  rowsApart := fun a member b memberToo => matching.rowsApart a (within member) b (within memberToo)
  columnsApart := fun a member b memberToo =>
    matching.columnsApart a (within member) b (within memberToo)

end Matching

theorem sum_without_largest (chosen other : Finset Nat) (q : Nat → ℚ)
    (same : chosen.card = other.card)
    (largest : ∀ i ∈ other \ chosen, ∀ j ∈ chosen \ other, q j ≤ q i) :
    ∑ i ∈ chosen, q i ≤ ∑ i ∈ other, q i := by
  have parts : (chosen \ other).card = (other \ chosen).card := by
    have left := Finset.card_sdiff_add_card_inter chosen other
    have right := Finset.card_sdiff_add_card_inter other chosen
    rw [Finset.inter_comm] at right
    omega
  refine Finset.sum_sdiff_le_sum_sdiff.mp ?_
  cases (chosen \ other).eq_empty_or_nonempty with
  | inl none =>
      have noneToo : other \ chosen = ∅ :=
        Finset.card_eq_zero.mp (by rw [← parts, none, Finset.card_empty])
      rw [none, noneToo]
  | inr some =>
      obtain ⟨top, member, above⟩ := Finset.exists_max_image (chosen \ other) q some
      calc ∑ i ∈ chosen \ other, q i ≤ (chosen \ other).card • q top :=
        Finset.sum_le_card_nsmul _ _ _ above
        _ = (other \ chosen).card • q top := by rw [parts]
        _ ≤ ∑ i ∈ other \ chosen, q i := Finset.card_nsmul_le_sum _ _ _ fun i memberToo =>
          largest i memberToo top member

structure Balanced (rows cols : Nat) (loaded left : Nat → Nat → ℚ) (p q : Nat → ℚ)
    (rowFree columnFree : Nat → Prop) : Prop where
  split : ∀ row col, row < rows → col < cols → left row col = loaded row col - p row - q col
  wide : rows ≤ cols → ∀ col, col < cols → columnFree col → ∀ other, other < cols → q other ≤ q col
  tall : cols < rows → ∀ row, row < rows → rowFree row → ∀ other, other < rows → p other ≤ p row

theorem balanced_total (rows cols : Nat) (loaded left : Nat → Nat → ℚ) (p q : Nat → ℚ)
    (rowFree columnFree : Nat → Prop)
    (balanced : Balanced rows cols loaded left p q rowFree columnFree) (cells : Finset (Nat × Nat))
    (matching : Matching rows cols cells) :
    ∑ cell ∈ cells, loaded cell.1 cell.2 =
      ∑ cell ∈ cells, left cell.1 cell.2 + ∑ row ∈ cells.image Prod.fst, p row +
        ∑ col ∈ cells.image Prod.snd, q col := by
  rw [← matching.sum_rows p, ← matching.sum_columns q, ← Finset.sum_add_distrib,
    ← Finset.sum_add_distrib]
  refine Finset.sum_congr rfl fun cell member => ?_
  obtain ⟨insideRow, insideColumn⟩ := matching.inside cell member
  rw [balanced.split cell.1 cell.2 insideRow insideColumn]
  ring

theorem balanced_near (rows cols : Nat) (loaded left : Nat → Nat → ℚ) (p q : Nat → ℚ)
    (rowFree columnFree : Nat → Prop)
    (balanced : Balanced rows cols loaded left p q rowFree columnFree) (slack : ℚ)
    (above : ∀ row col, row < rows → col < cols → -slack ≤ left row col)
    (stars : Finset (Nat × Nat)) (matching : Matching rows cols stars)
    (full : stars.card = min rows cols) (below : ∀ cell ∈ stars, left cell.1 cell.2 ≤ slack)
    (rowsLeft : ∀ row, row ∉ stars.image Prod.fst → rowFree row)
    (columnsLeft : ∀ col, col ∉ stars.image Prod.snd → columnFree col) (other : Finset (Nat × Nat))
    (matchingToo : Matching rows cols other) (fullToo : other.card = min rows cols) :
    ∑ cell ∈ stars, loaded cell.1 cell.2 ≤
      ∑ cell ∈ other, loaded cell.1 cell.2 + 2 * (min rows cols : ℕ) * slack := by
  rw [balanced_total rows cols loaded left p q rowFree columnFree balanced stars matching,
    balanced_total rows cols loaded left p q rowFree columnFree balanced other matchingToo]
  have least : (min rows cols : ℕ) * -slack ≤ ∑ cell ∈ other, left cell.1 cell.2 := by
    rw [← fullToo, ← nsmul_eq_mul]
    exact Finset.card_nsmul_le_sum _ _ _ fun cell member =>
      above cell.1 cell.2 (matchingToo.inside cell member).1 (matchingToo.inside cell member).2
  have most : ∑ cell ∈ stars, left cell.1 cell.2 ≤ (min rows cols : ℕ) * slack := by
    rw [← full, ← nsmul_eq_mul]
    exact Finset.sum_le_card_nsmul _ _ _ below
  cases le_or_gt rows cols with
  | inl wide =>
      rw [Nat.min_eq_left wide] at full fullToo
      rw [matching.every_row full, matchingToo.every_row fullToo]
      have columns := sum_without_largest (stars.image Prod.snd) (other.image Prod.snd) q
          (by rw [matching.card_columns, matchingToo.card_columns, full, fullToo])
          fun i outside j chosen => by
          obtain ⟨member, left⟩ := Finset.mem_sdiff.mp outside
          exact balanced.wide wide i (Finset.mem_range.mp (matchingToo.columns_inside member))
            (columnsLeft i left) j
            (Finset.mem_range.mp (matching.columns_inside (Finset.mem_sdiff.mp chosen).1))
      linarith
  | inr tall =>
      rw [Nat.min_eq_right tall.le] at full fullToo
      rw [matching.every_column full, matchingToo.every_column fullToo]
      have lines := sum_without_largest (stars.image Prod.fst) (other.image Prod.fst) p
          (by rw [matching.card_rows, matchingToo.card_rows, full, fullToo])
          fun i outside j chosen => by
          obtain ⟨member, left⟩ := Finset.mem_sdiff.mp outside
          exact balanced.tall tall i (Finset.mem_range.mp (matchingToo.rows_inside member))
            (rowsLeft i left) j
            (Finset.mem_range.mp (matching.rows_inside (Finset.mem_sdiff.mp chosen).1))
      linarith

end LinearAssignment
