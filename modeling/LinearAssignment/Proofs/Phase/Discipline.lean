import LinearAssignment.Proofs.Board.Count

/-! How stars, primes and covers hang together. Rows are ranked by when they were covered: a prime
stands in a column whose star was covered before, so that alternating paths lead down in rank. -/

set_option autoImplicit false

namespace LinearAssignment.Board

variable {α : Type}

def prime (b : Board α) (row col : Nat) : Board α :=
  { b with primes := b.primes.setIfInBounds (b.offset row col) true }

def exchange (b : Board α) (row col star : Nat) : Board α :=
  { b.prime row col with
    rowCover := b.rowCover.setIfInBounds row true
    columnCover := b.columnCover.setIfInBounds star false }

theorem prime_primed (b : Board α) (row col : Nat) (sized : b.Sized) (insideRow : row < b.rows)
    (insideColumn : col < b.cols) (r c : Nat) :
    (b.prime row col).Primed r c ↔ (r = row ∧ c = col) ∨ b.Primed r c := by
  refine (marked_set b.rows b.cols b.primes row col true sized.primes insideRow
    insideColumn r c).trans ?_
  by_cases here : r = row ∧ c = col
  · simp [here]
  · simp only [here, if_false, false_or]
    exact Iff.rfl

theorem prime_sized (b : Board α) (row col : Nat) (sized : b.Sized) : (b.prime row col).Sized where
  costs := sized.costs
  stars := sized.stars
  primes := by simpa [prime] using sized.primes
  rowCover := sized.rowCover
  columnCover := sized.columnCover

theorem exchange_sized (b : Board α) (row col star : Nat) (sized : b.Sized) :
    (b.exchange row col star).Sized where
  costs := sized.costs
  stars := sized.stars
  primes := (prime_sized b row col sized).primes
  rowCover := by simpa [exchange, prime] using sized.rowCover
  columnCover := by simpa [exchange, prime] using sized.columnCover

theorem exchange_row_covered (b : Board α) (row col star : Nat) (sized : b.Sized)
    (inside : row < b.rows) (r : Nat) :
    (b.exchange row col star).RowCovered r ↔ r = row ∨ b.RowCovered r := by
  refine (flag_set b.rowCover row true (by rw [sized.rowCover]; exact inside) r).trans ?_
  by_cases here : r = row
  · simp [here]
  · simp only [here, if_false, false_or]
    exact Iff.rfl

theorem exchange_column_covered (b : Board α) (row col star : Nat) (sized : b.Sized)
    (inside : star < b.cols) (c : Nat) :
    (b.exchange row col star).ColumnCovered c ↔ c ≠ star ∧ b.ColumnCovered c := by
  refine (flag_set b.columnCover star false (by rw [sized.columnCover]; exact inside) c).trans ?_
  by_cases here : c = star
  · simp [here]
  · simp only [here, if_false, ne_eq, not_false_eq_true, true_and]
    exact Iff.rfl

theorem exchange_covered_rows (b : Board α) (row col star : Nat) (sized : b.Sized)
    (inside : row < b.rows) (bare : ¬ b.RowCovered row) :
    (b.exchange row col star).coveredRows.card = b.coveredRows.card + 1 := by
  have grown : (b.exchange row col star).coveredRows = insert row b.coveredRows := by
    ext r
    rw [covered_row _ r (exchange_sized b row col star sized), Finset.mem_insert,
      covered_row b r sized, exchange_row_covered b row col star sized inside r]
  rw [grown, Finset.card_insert_of_notMem ((covered_row b row sized).not.mpr bare)]

variable [Cost α]

structure Matched (b : Board α) : Prop extends Independent b where
  sized : b.Sized
  starZero : ∀ row col, b.Starred row col → b.Zero row col

structure Disciplined (b : Board α) : Prop extends Matched b where
  rowCover : ∀ row, b.RowCovered row ↔ (∃ col, b.Starred row col) ∧ ∃ col, b.Primed row col
  columnCover : ∀ col, b.ColumnCovered col ↔ ∃ row, b.Starred row col ∧ ¬ b.RowCovered row
  primeOnce : ∀ row col other, b.Primed row col → b.Primed row other → col = other
  primeZero : ∀ row col, b.Primed row col → b.Zero row col
  primeOpen : ∀ row col, b.Primed row col → ¬ b.ColumnCovered col
  ranked : ∃ rank : Nat → Nat, (∀ row, b.RowCovered row → rank row < b.coveredRows.card) ∧
    ∀ row col other, b.Primed row col → b.Starred other col → rank other < rank row

structure Searching (b : Board α) : Prop extends Disciplined b where
  primeCovered : ∀ row col, b.Primed row col → b.RowCovered row

theorem matched_bound (b : Board α) (matched : b.Matched) : b.starCount ≤ b.shorterSide :=
  star_count_bound b matched.sized matched.toIndependent

theorem star_covered_once (b : Board α) (disciplined : b.Disciplined) (row col : Nat)
    (starred : b.Starred row col) : b.ColumnCovered col ↔ ¬ b.RowCovered row := by
  rw [disciplined.columnCover col]
  refine ⟨fun ⟨other, starredToo, bare⟩ => ?_, fun bare => ⟨row, starred, bare⟩⟩
  rwa [disciplined.columnOnce row other col starred starredToo]

-- Where a bare zero may stand: a star in its column has a covered row, and its own row has no
-- prime.
theorem bare_column (b : Board α) (searching : b.Searching) (row col : Nat) (bare : b.Bare row col)
    (other : Nat) (starred : b.Starred other col) : b.RowCovered other := by
  by_contra uncovered
  exact bare.2.2 ((searching.columnCover col).mpr ⟨other, starred, uncovered⟩)

theorem bare_row (b : Board α) (searching : b.Searching) (row col : Nat) (bare : b.Bare row col)
    (c : Nat) : ¬ b.Primed row c :=
  fun primed => bare.2.1 (searching.primeCovered row c primed)

theorem prime_once (b : Board α) (row col : Nat) (searching : b.Searching) (bare : b.Bare row col)
    (r c other : Nat) (primed : (b.prime row col).Primed r c)
    (primedToo : (b.prime row col).Primed r other) : c = other := by
  have primedThen := prime_primed b row col searching.sized bare.1.1 bare.1.2.1
  have unprimed := bare_row b searching row col bare
  cases (primedThen r c).mp primed with
  | inl facts =>
      obtain ⟨rfl, rfl⟩ := facts
      cases (primedThen r other).mp primedToo with
      | inl facts =>
          obtain ⟨_, same⟩ := facts
          exact same.symm
      | inr beforeToo => exact absurd beforeToo (unprimed other)
  | inr before =>
      cases (primedThen r other).mp primedToo with
      | inl facts =>
          obtain ⟨rfl, rfl⟩ := facts
          exact absurd before (unprimed c)
      | inr beforeToo => exact searching.primeOnce r c other before beforeToo

theorem prime_zero (b : Board α) (row col : Nat) (searching : b.Searching) (bare : b.Bare row col)
    (r c : Nat) (primed : (b.prime row col).Primed r c) : b.Zero r c ∧ ¬ b.ColumnCovered c := by
  cases (prime_primed b row col searching.sized bare.1.1 bare.1.2.1 r c).mp primed with
  | inl facts =>
      obtain ⟨rfl, rfl⟩ := facts
      exact ⟨bare.1, bare.2.2⟩
  | inr before => exact ⟨searching.primeZero r c before, searching.primeOpen r c before⟩

theorem exchange_searching (b : Board α) (row col star : Nat) (searching : b.Searching)
    (bare : b.Bare row col) (starred : b.Starred row star) :
    (b.exchange row col star).Searching := by
  have sized := searching.sized
  have insideRow := bare.1.1
  have insideColumn := bare.1.2.1
  have primedThen := prime_primed b row col sized insideRow insideColumn
  have rowsThen := exchange_row_covered b row col star sized insideRow
  have columnsThen := exchange_column_covered b row col star sized starred.2.1
  have more := exchange_covered_rows b row col star sized insideRow bare.2.1
  have unprimed := bare_row b searching row col bare
  have starOpen : ∀ r, ¬ b.Primed r star := fun r primed =>
    searching.primeOpen r star primed ((searching.columnCover star).mpr ⟨row, starred, bare.2.1⟩)
  refine ⟨⟨⟨⟨searching.rowOnce, searching.columnOnce⟩, exchange_sized b row col star sized,
    searching.starZero⟩, ?rowCover, ?columnCover, prime_once b row col searching bare,
    fun r c primed => (prime_zero b row col searching bare r c primed).1, ?primeOpen, ?ranked⟩,
    ?primeCovered⟩
  case rowCover =>
    intro r
    refine (rowsThen r).trans ⟨?_, ?_⟩
    · rintro (rfl | covered)
      · exact ⟨⟨star, starred⟩, col, (primedThen r col).mpr (Or.inl ⟨rfl, rfl⟩)⟩
      · obtain ⟨hasStar, c, primed⟩ := (searching.rowCover r).mp covered
        exact ⟨hasStar, c, (primedThen r c).mpr (Or.inr primed)⟩
    · rintro ⟨hasStar, c, primed⟩
      cases (primedThen r c).mp primed with
      | inl facts =>
          obtain ⟨here, _⟩ := facts
          exact Or.inl here
      | inr before => exact Or.inr (searching.primeCovered r c before)
  case columnCover =>
    intro c
    refine (columnsThen c).trans ⟨?_, ?_⟩
    · rintro ⟨other, covered⟩
      obtain ⟨r, starredHere, uncovered⟩ := (searching.columnCover c).mp covered
      refine ⟨r, starredHere, fun coveredThen => ?_⟩
      cases (rowsThen r).mp coveredThen with
      | inl same =>
          subst same
          exact other (searching.rowOnce r c star starredHere starred)
      | inr coveredBefore => exact uncovered coveredBefore
    · rintro ⟨r, starredHere, uncovered⟩
      have uncoveredBefore : ¬ b.RowCovered r :=
        fun covered => uncovered ((rowsThen r).mpr (Or.inr covered))
      refine ⟨?_, (searching.columnCover c).mpr ⟨r, starredHere, uncoveredBefore⟩⟩
      rintro rfl
      exact uncovered ((rowsThen r).mpr (Or.inl (searching.columnOnce r row c starredHere starred)))
  case primeOpen =>
    intro r c primed covered
    exact (prime_zero b row col searching bare r c primed).2 ((columnsThen c).mp covered).2
  case ranked =>
    obtain ⟨rank, bounded, falls⟩ := searching.ranked
    refine ⟨Function.update rank row b.coveredRows.card, ?_, ?_⟩
    · intro r covered
      rw [more]
      cases (rowsThen r).mp covered with
      | inl same =>
          subst same
          rw [Function.update_self]
          exact Nat.lt_succ_self _
      | inr before =>
          have other : r ≠ row := fun same => bare.2.1 (same ▸ before)
          rw [Function.update_of_ne other]
          exact Nat.lt_succ_of_lt (bounded r before)
    · intro r c other primed starredThere
      have starredHere : b.Starred other c := starredThere
      cases (primedThen r c).mp primed with
      | inl facts =>
          obtain ⟨rfl, rfl⟩ := facts
          have covered := bare_column b searching r c bare other starredHere
          have apart : other ≠ r := fun same => bare.2.1 (same ▸ covered)
          rw [Function.update_self, Function.update_of_ne apart]
          exact bounded other covered
      | inr before =>
          have apartRow : r ≠ row := fun same => unprimed c (same ▸ before)
          have apartOther : other ≠ row := by
            rintro rfl
            exact starOpen r (searching.rowOnce other c star starredHere starred ▸ before)
          rw [Function.update_of_ne apartRow, Function.update_of_ne apartOther]
          exact falls r c other before starredHere
  case primeCovered =>
    intro r c primed
    cases (primedThen r c).mp primed with
    | inl facts =>
        obtain ⟨here, _⟩ := facts
        exact (rowsThen r).mpr (Or.inl here)
    | inr before => exact (rowsThen r).mpr (Or.inr (searching.primeCovered r c before))

theorem prime_disciplined (b : Board α) (row col : Nat) (searching : b.Searching)
    (bare : b.Bare row col) (loose : ∀ c, ¬ b.Starred row c) : (b.prime row col).Disciplined := by
  have sized := searching.sized
  have primedThen := prime_primed b row col sized bare.1.1 bare.1.2.1
  have unprimed := bare_row b searching row col bare
  refine ⟨⟨⟨searching.rowOnce, searching.columnOnce⟩, prime_sized b row col sized,
    searching.starZero⟩, ?rowCover, searching.columnCover, prime_once b row col searching bare,
    fun r c primed => (prime_zero b row col searching bare r c primed).1, fun r c primed =>
      (prime_zero b row col searching bare r c primed).2, ?ranked⟩
  case rowCover =>
    intro r
    refine (searching.rowCover r).trans ⟨?_, ?_⟩
    · rintro ⟨hasStar, c, primed⟩
      exact ⟨hasStar, c, (primedThen r c).mpr (Or.inr primed)⟩
    · rintro ⟨⟨star, starred⟩, c, primed⟩
      cases (primedThen r c).mp primed with
      | inl facts =>
          obtain ⟨rfl, _⟩ := facts
          exact absurd starred (loose star)
      | inr before => exact ⟨⟨star, starred⟩, c, before⟩
  case ranked =>
    obtain ⟨rank, bounded, falls⟩ := searching.ranked
    refine ⟨Function.update rank row b.coveredRows.card, ?_, ?_⟩
    · intro r covered
      have other : r ≠ row := fun same => bare.2.1 (same ▸ covered)
      rw [Function.update_of_ne other]
      exact bounded r covered
    · intro r c other primed starred
      have apartOther : other ≠ row := fun same => loose c (same ▸ starred)
      rw [Function.update_of_ne apartOther]
      cases (primedThen r c).mp primed with
      | inl facts =>
          obtain ⟨rfl, rfl⟩ := facts
          rw [Function.update_self]
          exact bounded other (bare_column b searching r c bare other starred)
      | inr before =>
          have apartRow : r ≠ row := fun same => unprimed c (same ▸ before)
          rw [Function.update_of_ne apartRow]
          exact falls r c other before starred

end LinearAssignment.Board
