import LinearAssignment.Proofs.Board.Count

set_option autoImplicit false

namespace LinearAssignment.Board

variable {α : Type}

def Placed (b after : Board α) (row col : Nat) : Prop :=
  ∀ r c, after.Starred r c ↔ if c = col then r = row else b.Starred r c

theorem placed_column (b after : Board α) (row col r : Nat) (placed : b.Placed after row col) :
    after.Starred r col ↔ r = row := by
  rw [placed r col, if_pos rfl]

theorem placed_elsewhere (b after : Board α) (row col r c : Nat) (placed : b.Placed after row col)
    (other : c ≠ col) : after.Starred r c ↔ b.Starred r c := by
  rw [placed r c, if_neg other]

theorem placed_independent (b after : Board α) (row col : Nat) (placed : b.Placed after row col)
    (independent : b.Independent) (starless : ∀ c, ¬ b.Starred row c) : after.Independent := by
  refine ⟨fun r c other starred starredToo => ?_, fun r other c starred starredToo => ?_⟩
  · by_cases here : c = col
    · subst here
      by_cases hereToo : other = c
      · exact hereToo.symm
      · rw [placed_column b after row c r placed] at starred
        subst starred
        exact absurd ((placed_elsewhere b after r c r other placed hereToo).mp starredToo)
          (starless other)
    · rw [placed_elsewhere b after row col r c placed here] at starred
      by_cases hereToo : other = col
      · subst hereToo
        rw [placed_column b after row other r placed] at starredToo
        subst starredToo
        exact absurd starred (starless c)
      · rw [placed_elsewhere b after row col r other placed hereToo] at starredToo
        exact independent.rowOnce r c other starred starredToo
  · by_cases here : c = col
    · subst here
      rw [placed_column b after row c _ placed] at starred starredToo
      rw [starred, starredToo]
    · rw [placed_elsewhere b after row col _ c placed here] at starred starredToo
      exact independent.columnOnce r other c starred starredToo

def place (b : Board α) (row col : Nat) (on : Bool) : Board α :=
  { b with stars := b.stars.setIfInBounds (b.offset row col) on }

theorem place_sized (b : Board α) (row col : Nat) (on : Bool) (sized : b.Sized) :
    (b.place row col on).Sized where
  costs := sized.costs
  stars := by simpa [place] using sized.stars
  primes := sized.primes
  rowCover := sized.rowCover
  columnCover := sized.columnCover

theorem set_star_ok (b : Board α) (row col : Nat) (on : Bool) (sized : b.Sized)
    (insideRow : row < b.rows) (insideColumn : col < b.cols) :
    b.setStar row col on = .ok (b.place row col on) := by
  have inside := cell_below b.rows b.cols row col insideRow insideColumn
  have stored := store_ok b.stars (b.offset row col) on (by rw [sized.stars]; exact inside)
  simp [setStar, stored, place]

theorem place_first (b : Board α) (row col : Nat) (sized : b.Sized) (insideRow : row < b.rows)
    (insideColumn : col < b.cols) (absent : ∀ r, ¬ b.Starred r col) :
    b.Placed (b.place row col true) row col := by
  intro r c
  refine (marked_set b.rows b.cols b.stars row col true sized.stars insideRow
    insideColumn r c).trans ?_
  by_cases here : c = col
  · subst here
    by_cases same : r = row
    · simp [same]
    · simp only [same, false_and, if_false, if_true, iff_false]
      exact absent r
  · simp only [here, and_false, if_false]
    exact Iff.rfl

theorem place_instead (b : Board α) (row col starRow : Nat) (sized : b.Sized)
    (independent : b.Independent) (insideRow : row < b.rows) (apart : starRow ≠ row)
    (starred : b.Starred starRow col) :
    b.Placed ((b.place row col true).place starRow col false) row col := by
  intro r c
  refine (marked_set b.rows b.cols (b.place row col true).stars starRow col false
    (place_sized b row col true sized).stars starred.1 starred.2.1 r c).trans ?_
  rw [place, offset,
    marked_set b.rows b.cols b.stars row col true sized.stars insideRow starred.2.1 r c]
  by_cases here : c = col
  · subst here
    by_cases same : r = row
    · subst same
      simp [Ne.symm apart]
    · by_cases removed : r = starRow
      · simp [removed, apart]
      · simp only [same, removed, false_and, if_false, if_true, iff_false]
        exact fun starredToo => removed (independent.columnOnce r starRow c starredToo starred)
  · simp only [here, and_false, if_false]
    exact Iff.rfl

theorem placed_added (b after : Board α) (row col : Nat) (placed : b.Placed after row col)
    (absent : ∀ r, ¬ b.Starred r col) (r c : Nat) :
    after.Starred r c ↔ (r = row ∧ c = col) ∨ b.Starred r c := by
  rw [placed r c]
  by_cases here : c = col
  · subst here
    simp [absent r]
  · simp [here]

theorem placed_columns (b after : Board α) (row col : Nat) (placed : b.Placed after row col)
    (c : Nat) (starred : ∃ r, b.Starred r c) : ∃ r, after.Starred r c := by
  obtain ⟨r, starredHere⟩ := starred
  by_cases here : c = col
  · subst here
    exact ⟨row, (placed_column b after row c row placed).mpr rfl⟩
  · exact ⟨r, (placed_elsewhere b after row col r c placed here).mpr starredHere⟩

theorem placed_rows (b after : Board α) (row col r : Nat) (placed : b.Placed after row col) :
    (∃ c, after.Starred r c) ↔ r = row ∨ ∃ c, c ≠ col ∧ b.Starred r c := by
  constructor
  · rintro ⟨c, starredThen⟩
    by_cases here : c = col
    · subst here
      exact Or.inl ((placed_column b after row c r placed).mp starredThen)
    · exact Or.inr ⟨c, here, (placed_elsewhere b after row col r c placed here).mp starredThen⟩
  · rintro (rfl | ⟨c, other, starred⟩)
    · exact ⟨col, (placed_column b after r col r placed).mpr rfl⟩
    · exact ⟨c, (placed_elsewhere b after row col r c placed other).mpr starred⟩

end LinearAssignment.Board
