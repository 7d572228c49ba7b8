import LinearAssignment.Phase
import LinearAssignment.Proofs.Phase.Cover

/-! What a search for zeros comes to. Every sweep with an exchange covers one more row, so that
there are no more sweeps than rows. -/

set_option autoImplicit false

namespace LinearAssignment.Board

variable {α : Type}

theorem prime_cell_cases (b : Board α) (row col : Nat) (sized : b.Sized) (insideRow : row < b.rows)
    (insideColumn : col < b.cols) :
    (b.primeCell row col = .ok (b.prime row col, .loose row col) ∧ ∀ c, ¬ b.Starred row c) ∨
      ∃ star, b.primeCell row col = .ok (b.exchange row col star, .exchanged) ∧
        b.Starred row star := by
  have inside := cell_below b.rows b.cols row col insideRow insideColumn
  have primed : b.setPrime row col true = .ok (b.prime row col) := by
    have stored := store_ok b.primes (b.offset row col) true (by rw [sized.primes]; exact inside)
    simp [setPrime, stored, prime]
  have rowStored := store_ok b.rowCover row true (by rw [sized.rowCover]; exact insideRow)
  cases row_mark_cases (b.prime row col) b.stars row sized.stars insideRow with
  | inl facts =>
      obtain ⟨found, absent⟩ := facts
      have sought : (b.prime row col).rowStar? row = .ok none := found
      refine Or.inl ⟨?_, absent⟩
      simp [primeCell, primed, sought]
  | inr facts =>
      obtain ⟨star, found, starred⟩ := facts
      have sought : (b.prime row col).rowStar? row = .ok (some star) := found
      have columnStored :=
        store_ok b.columnCover star false (by rw [sized.columnCover]; exact starred.2.1)
      refine Or.inr ⟨star, ?_, starred⟩
      have rowCoverHere : (b.prime row col).rowCover = b.rowCover := rfl
      have columnCoverHere : (b.prime row col).columnCover = b.columnCover := rfl
      simp [primeCell, primed, sought, coverRow, coverColumn, rowCoverHere, columnCoverHere,
        rowStored, columnStored, exchange]

variable [Cost α]

theorem bare_zero_seen (b : Board α) (row col : Nat) (sized : b.Sized) (insideRow : row < b.rows)
    (insideColumn : col < b.cols) :
    (b.isBareZero row col = .ok true ∧ b.Zero row col ∧ ¬ b.RowCovered row) ∨
      (b.isBareZero row col = .ok false ∧ ¬ (b.Zero row col ∧ ¬ b.RowCovered row)) := by
  have read := fetch_flag b.rowCover row (by rw [sized.rowCover]; exact insideRow)
  by_cases covered : b.RowCovered row
  · refine Or.inr ⟨?_, fun both => both.2 covered⟩
    have set : b.rowCover[row]? = some true := covered
    simp [isBareZero, read, set]
  · have unset : b.rowCover[row]? ≠ some true := covered
    have opened : b.isBareZero row col = b.isZero row col := by
      simp [isBareZero, read, unset]
    rw [opened]
    cases zero_cases b row col sized insideRow insideColumn with
    | inl facts =>
        obtain ⟨seen, zero⟩ := facts
        exact Or.inl ⟨seen, zero, covered⟩
    | inr facts =>
        obtain ⟨seen, other⟩ := facts
        exact Or.inr ⟨seen, fun both => other both.1⟩

theorem search_column_cases (b : Board α) (col : Nat) (sized : b.Sized) (inside : col < b.cols) :
    (b.searchColumn col = .ok (b, .dry) ∧ ∀ row, ¬ b.Bare row col) ∨
      (∃ row, b.searchColumn col = .ok (b.prime row col, .loose row col) ∧ b.Bare row col ∧
        ∀ c, ¬ b.Starred row c) ∨
      ∃ row star, b.searchColumn col = .ok (b.exchange row col star, .exchanged) ∧ b.Bare row col ∧
        b.Starred row star := by
  have read := fetch_flag b.columnCover col (by rw [sized.columnCover]; exact inside)
  by_cases covered : b.ColumnCovered col
  · refine Or.inl ⟨?_, fun row bare => bare.2.2 covered⟩
    have set : b.columnCover[col]? = some true := covered
    simp [searchColumn, read, set]
  · have unset : b.columnCover[col]? ≠ some true := covered
    have sought := seek_cases (b.isBareZero · col)
      (fun row => b.Zero row col ∧ ¬ b.RowCovered row) b.rows ?agrees
    case agrees =>
      intro row before
      cases bare_zero_seen b row col sized before inside with
      | inl facts =>
          obtain ⟨seen, bare⟩ := facts
          simp only [seen, bare, not_false_eq_true, and_self, decide_true]
      | inr facts =>
          obtain ⟨seen, other⟩ := facts
          simp only [seen, other, decide_false]
    rcases sought with ⟨sought, absent⟩ | ⟨row, sought, before, bare, _⟩
    · refine Or.inl ⟨?_, fun row bare => absent row bare.1.1 ⟨bare.1, bare.2.1⟩⟩
      simp [searchColumn, read, unset, sought]
    · have opened : b.searchColumn col = b.primeCell row col := by
        simp [searchColumn, read, unset, sought]
      rw [opened]
      cases prime_cell_cases b row col sized before inside with
      | inl facts =>
          obtain ⟨primed, absent⟩ := facts
          exact Or.inr (Or.inl ⟨row, primed, ⟨bare.1, bare.2, covered⟩, absent⟩)
      | inr facts =>
          obtain ⟨star, primed, starred⟩ := facts
          exact Or.inr (Or.inr ⟨row, star, primed, ⟨bare.1, bare.2, covered⟩, starred⟩)

structure Loose (b : Board α) (row col : Nat) : Prop where
  bare : b.Bare row col
  starless : ∀ c, ¬ b.Starred row c

section

variable (keeps : Board α → Prop) (sized : ∀ b, keeps b → b.Sized)
  (exchanged : ∀ b row col star, keeps b → b.Bare row col → b.Starred row star →
    keeps (b.exchange row col star))

include sized exchanged

theorem sweep_keeps (left : Nat) (b : Board α) (col : Nat) (before : Yield) (kept : keeps b)
    (inside : col + left = b.cols) :
    (sweepFrom before col left b = .ok (b, before) ∧ ∀ c, col ≤ c → ∀ row, ¬ b.Bare row c) ∨
      (∃ found, keeps found ∧ sweepFrom before col left b = .ok (found, .exchanged) ∧
        b.coveredRows.card < found.coveredRows.card) ∨
      ∃ found row c, keeps found ∧ (found = b ∨ b.coveredRows.card < found.coveredRows.card) ∧
        found.Loose row c ∧
        sweepFrom before col left b = .ok (found.prime row c, .loose row c) := by
  induction left generalizing b col before with
  | zero =>
      refine Or.inl ⟨rfl, fun c after row bare => ?_⟩
      have outside := bare.1.2.1
      omega
  | succ n ih =>
      rcases search_column_cases b col (sized b kept) (by omega) with ⟨dry, absent⟩
        | ⟨row, loose, bare, starless⟩ | ⟨row, star, traded, bare, starred⟩
      · have opened : sweepFrom before col (n + 1) b = sweepFrom before (col + 1) n b := by
          simp [sweepFrom, dry]
        rw [opened]
        cases ih b (col + 1) before kept (by omega) with
        | inl facts =>
            obtain ⟨result, rest⟩ := facts
            refine Or.inl ⟨result, fun c after row => ?_⟩
            cases Nat.eq_or_lt_of_le after with
            | inl same =>
                subst same
                exact absent row
            | inr further => exact rest c further row
        | inr later => exact Or.inr later
      · refine Or.inr (Or.inr ⟨b, row, col, kept, Or.inl rfl, ⟨bare, starless⟩, ?_⟩)
        simp [sweepFrom, loose]
      · have opened :
            sweepFrom before col (n + 1) b =
              sweepFrom .exchanged (col + 1) n (b.exchange row col star) := by
          simp [sweepFrom, traded]
        have more := exchange_covered_rows b row col star (sized b kept) bare.1.1 bare.2.1
        have keptThen := exchanged b row col star kept bare starred
        have insideThen : col + 1 + n = (b.exchange row col star).cols := by
          change col + 1 + n = b.cols
          omega
        rw [opened]
        rcases ih (b.exchange row col star) (col + 1) .exchanged keptThen insideThen
          with ⟨result, _⟩ | ⟨found, keptFound, result, grown⟩
          | ⟨found, r, c, keptFound, same, loose, result⟩
        · exact Or.inr (Or.inl ⟨_, keptThen, result, by omega⟩)
        · exact Or.inr (Or.inl ⟨found, keptFound, result, by omega⟩)
        · refine Or.inr (Or.inr ⟨found, r, c, keptFound, Or.inr ?_, loose, result⟩)
          cases same with
          | inl same =>
              subst same
              omega
          | inr grown => omega

-- By induction on the sweeps that are left, of which there are more than uncovered rows.
theorem sweeps_keep (rows : Nat) (fixed : ∀ b, keeps b → b.rows = rows) (sweeps : Nat) (b : Board α)
    (kept : keeps b) (enough : rows < sweeps + b.coveredRows.card) :
    ∃ found, keeps found ∧ (found = b ∨ b.coveredRows.card < found.coveredRows.card) ∧
      ((sweepUpTo sweeps b = .ok (found, .shift) ∧ ∀ row col, ¬ found.Bare row col) ∨
        ∃ row col, found.Loose row col ∧
          sweepUpTo sweeps b = .ok (found.prime row col, .flip row col)) := by
  induction sweeps generalizing b with
  | zero =>
      have few : b.coveredRows.card ≤ b.rows := by
        simpa [coveredRows] using Finset.card_filter_le (Finset.range b.rows) b.RowCovered
      rw [fixed b kept] at few
      omega
  | succ n ih =>
      rcases sweep_keeps keeps sized exchanged b.cols b 0 .dry kept (Nat.zero_add _)
        with ⟨dry, absent⟩ | ⟨next, keptNext, swept, grown⟩
        | ⟨found, row, col, keptFound, same, loose, swept⟩
      · refine ⟨b, kept, Or.inl rfl, Or.inl ⟨?_, fun row col => absent col (Nat.zero_le col) row⟩⟩
        simp [sweepUpTo, sweep, dry]
      · have opened : sweepUpTo (n + 1) b = sweepUpTo n next := by
          simp [sweepUpTo, sweep, swept]
        obtain ⟨found, keptFound, further, outcome⟩ := ih next keptNext (by omega)
        rw [opened]
        refine ⟨found, keptFound, Or.inr ?_, outcome⟩
        cases further with
        | inl same =>
            subst same
            exact grown
        | inr more => exact lt_trans grown more
      · refine ⟨found, keptFound, same, Or.inr ⟨row, col, loose, ?_⟩⟩
        simp [sweepUpTo, sweep, swept]

end

theorem search_outcome (b : Board α) (searching : b.Searching) :
    ∃ found, b.Agrees found ∧ found.Searching ∧
      (found = b ∨ b.coveredRows.card < found.coveredRows.card) ∧
      ((b.search = .ok (found, .shift) ∧ ∀ row col, ¬ found.Bare row col) ∨
        ∃ row col, found.Loose row col ∧ b.search = .ok (found.prime row col, .flip row col)) := by
  have enough : b.rows < b.rowCover.size + 1 + b.coveredRows.card := by
    rw [searching.sized.rowCover]
    omega
  obtain ⟨found, ⟨agrees, kept⟩, grown, outcome⟩ :=
    sweeps_keep (fun found => b.Agrees found ∧ found.Searching) (fun found kept => kept.2.sized)
      (fun found row col star ⟨agrees, kept⟩ bare starred =>
        ⟨⟨agrees.rows, agrees.cols, agrees.costs, agrees.stars⟩,
          exchange_searching found row col star kept bare starred⟩)
      b.rows (fun found kept => kept.1.rows) (b.rowCover.size + 1) b
      ⟨⟨rfl, rfl, rfl, rfl⟩, searching⟩ enough
  exact ⟨found, agrees, kept, grown, outcome⟩

end LinearAssignment.Board
