import LinearAssignment.Phase
import LinearAssignment.Proofs.Phase.Discipline

set_option autoImplicit false

namespace LinearAssignment.Board

variable {α : Type}

structure Agrees (b other : Board α) : Prop where
  rows : other.rows = b.rows
  cols : other.cols = b.cols
  costs : other.costs = b.costs
  stars : other.stars = b.stars

theorem agrees_starred (b other : Board α) (agrees : b.Agrees other) (row col : Nat) :
    other.Starred row col ↔ b.Starred row col := by
  rw [Starred, Starred, agrees.rows, agrees.cols, agrees.stars]

theorem agrees_star_count (b other : Board α) (agrees : b.Agrees other) :
    other.starCount = b.starCount ∧ other.shorterSide = b.shorterSide := by
  rw [starCount, starCount, shorterSide, shorterSide, agrees.rows, agrees.cols, agrees.stars]
  exact ⟨rfl, rfl⟩

theorem cover_if_starred (b : Board α) (sized : b.Sized) (col : Nat) (inside : col < b.cols) :
    ∃ on, b.coverIfStarred col = .ok { b with columnCover := b.columnCover.setIfInBounds col on } ∧
      (on = true ↔ ∃ row, b.Starred row col) := by
  have stored (on : Bool) : store b.columnCover col on = .ok (b.columnCover.setIfInBounds col on) :=
    store_ok b.columnCover col on (by rw [sized.columnCover]; exact inside)
  cases column_star_cases b col sized inside with
  | inl facts =>
      obtain ⟨found, absent⟩ := facts
      refine ⟨false, ?_, by simp [absent]⟩
      simp [coverIfStarred, coverColumn, found, stored]
  | inr facts =>
      obtain ⟨row, found, starred⟩ := facts
      refine ⟨true, ?_, by simpa using ⟨row, starred⟩⟩
      simp [coverIfStarred, coverColumn, found, stored]

theorem cover_starred (b : Board α) (sized : b.Sized) :
    ∃ covers, b.coverStarred = .ok { b with columnCover := covers } ∧ covers.size = b.cols ∧
      ∀ col, covers[col]? = some true ↔ ∃ row, b.Starred row col := by
  have folds := fold_from_keeps (coverIfStarred (α := α))
    (fun i state => ∃ covers, state = { b with columnCover := covers } ∧ covers.size = b.cols ∧
      ∀ col, col < i → (covers[col]? = some true ↔ ∃ row, b.Starred row col))
    0 b.cols b
    ⟨b.columnCover, rfl, sized.columnCover, fun col before => absurd before (Nat.not_lt_zero col)⟩
    ?next
  case next =>
    rintro i _ - before ⟨covers, rfl, size, covered⟩
    have inside : i < b.cols := by omega
    obtain ⟨on, stepped, meaning⟩ := cover_if_starred { b with columnCover := covers }
      ⟨sized.costs, sized.stars, sized.primes, sized.rowCover, size⟩ i inside
    refine ⟨_, stepped, covers.setIfInBounds i on, rfl, by simpa using size, fun col below => ?_⟩
    rw [flag_set covers i on (by rw [size]; exact inside)]
    by_cases here : col = i
    · subst here
      rw [if_pos rfl]
      exact meaning
    · rw [if_neg here]
      exact covered col (by omega)
  obtain ⟨_, folded, covers, rfl, size, covered⟩ := folds
  refine ⟨covers, folded, size, fun col => ?_⟩
  by_cases inside : col < b.cols
  · exact covered col (by omega)
  · have outside : covers[col]? = none := Array.getElem?_eq_none (by omega)
    simp only [outside, reduceCtorEq, false_iff, not_exists]
    exact fun row starred => inside starred.2.1

variable [Cost α]

structure Fresh (b : Board α) : Prop extends Matched b where
  unprimed : ∀ row col, ¬ b.Primed row col
  uncovered : ∀ row, ¬ b.RowCovered row

theorem cover_fresh (b : Board α) (fresh : b.Fresh) :
    ∃ covered, b.coverStarred = .ok covered ∧ b.Agrees covered ∧ covered.Searching ∧
      covered.Fresh := by
  obtain ⟨covers, result, size, columns⟩ := cover_starred b fresh.sized
  have sized : Sized { b with columnCover := covers } :=
    ⟨fresh.sized.costs, fresh.sized.stars, fresh.sized.primes, fresh.sized.rowCover, size⟩
  have matched : Matched { b with columnCover := covers } :=
    ⟨⟨fresh.rowOnce, fresh.columnOnce⟩, sized, fresh.starZero⟩
  refine ⟨_, result, ⟨rfl, rfl, rfl, rfl⟩,
    ⟨⟨matched, ?rowCover, ?columnCover, ?primeOnce, ?primeZero, ?primeOpen, ?ranked⟩,
    ?primeCovered⟩, ⟨matched, fresh.unprimed, fresh.uncovered⟩⟩
  case rowCover =>
    intro row
    exact ⟨fun covered => absurd covered (fresh.uncovered row), fun ⟨_, col, primed⟩ =>
      absurd primed (fresh.unprimed row col)⟩
  case columnCover =>
    intro col
    exact (columns col).trans (exists_congr fun row => (and_iff_left (fresh.uncovered row)).symm)
  case primeOnce => exact fun row col _ primed => absurd primed (fresh.unprimed row col)
  case primeZero => exact fun row col primed => absurd primed (fresh.unprimed row col)
  case primeOpen => exact fun row col primed => absurd primed (fresh.unprimed row col)
  case ranked =>
    exact ⟨fun _ => 0, fun row covered => absurd covered (fresh.uncovered row),
      fun row col _ primed => absurd primed (fresh.unprimed row col)⟩
  case primeCovered => exact fun row col primed => absurd primed (fresh.unprimed row col)

theorem check_fresh (b : Board α) (searching : b.Searching) (fresh : b.Fresh) :
    b.check = .ok (if b.starCount = b.shorterSide then .finished else .search) := by
  have columns : (Finset.range b.cols).filter b.ColumnCovered = b.starredColumns := by
    ext col
    rw [Finset.mem_filter, Finset.mem_range, starred_column, searching.columnCover col]
    refine ⟨fun ⟨_, row, starred, _⟩ => ⟨row, starred⟩, fun ⟨row, starred⟩ => ?_⟩
    exact ⟨starred.2.1, row, starred, fresh.uncovered row⟩
  have same : b.coveredColumnCount = b.starCount := by
    rw [covered_column_count b searching.sized, columns,
      star_count_columns b searching.sized searching.toIndependent]
  simp [check, demand, same]

end LinearAssignment.Board
