import Mathlib
import LinearAssignment.Board

set_option autoImplicit false

namespace LinearAssignment

variable {ε α : Type}

theorem seek_cases (test : Nat → Except ε Bool) (passes : Nat → Prop) [DecidablePred passes]
    (left : Nat) (agrees : ∀ i, i < left → test i = .ok (decide (passes i))) :
    (seekFrom test 0 left = .ok none ∧ ∀ i, i < left → ¬ passes i) ∨
      ∃ i, seekFrom test 0 left = .ok (some i) ∧ i < left ∧ passes i ∧ ∀ j, j < i → ¬ passes j := by
  have sought := seek_from_pure test (fun i => decide (passes i)) 0 left fun i _ before =>
    agrees i (by omega)
  cases found : (List.range' 0 left).find? fun i => decide (passes i) with
  | none =>
      rw [found] at sought
      refine Or.inl ⟨sought, fun i before => ?_⟩
      have failed := List.find?_eq_none.mp found i (by simp [before])
      simpa using failed
  | some i =>
      rw [found] at sought
      obtain ⟨passed, member, earlier⟩ := List.find?_range'_eq_some.mp found
      refine Or.inr ⟨i, sought, by simpa using member, by simpa using passed, fun j before => ?_⟩
      simpa using earlier j (Nat.zero_le j) before

theorem flag_set (flags : Array Bool) (i : Nat) (on : Bool) (inside : i < flags.size) (j : Nat) :
    (flags.setIfInBounds i on)[j]? = some true ↔
      if j = i then on = true else flags[j]? = some true := by
  rw [Array.getElem?_setIfInBounds]
  by_cases same : i = j
  · subst same
    simp [inside]
  · simp [same, Ne.symm same]

theorem flag_cleared (flags : Array Bool) (j : Nat) :
    (flags.map fun _ => false)[j]? ≠ some true := by
  simp

theorem flag_count (flags : Array Bool) :
    flags.count true = ((Finset.range flags.size).filter fun i => flags[i]? = some true).card := by
  obtain ⟨flags⟩ := flags
  simp only [List.count_toArray, List.size_toArray, List.getElem?_toArray]
  induction flags using List.reverseRecOn with
  | nil => rfl
  | append_singleton before flag ih =>
      have earlier :
          ((Finset.range before.length).filter fun i => (before ++ [flag])[i]? = some true) =
            (Finset.range before.length).filter fun i => before[i]? = some true := by
        refine Finset.filter_congr fun i member => ?_
        rw [List.getElem?_append_left (Finset.mem_range.mp member)]
      rw [List.length_append, List.length_singleton, Finset.range_add_one, Finset.filter_insert,
        earlier, List.count_append, ih]
      cases flag <;> simp

theorem cell_below (rows cols row col : Nat) (insideRow : row < rows) (insideColumn : col < cols) :
    row + rows * col < rows * cols := by
  have whole : rows * (col + 1) ≤ rows * cols := Nat.mul_le_mul_left rows insideColumn
  rw [Nat.mul_succ] at whole
  omega

theorem cell_row (rows row col : Nat) (inside : row < rows) : (row + rows * col) % rows = row := by
  rw [Nat.add_mul_mod_self_left, Nat.mod_eq_of_lt inside]

theorem cell_column (rows row col : Nat) (inside : row < rows) :
    (row + rows * col) / rows = col := by
  rw [Nat.add_mul_div_left _ _ (by omega), Nat.div_eq_of_lt inside, Nat.zero_add]

theorem cell_apart (rows row col otherRow otherCol : Nat) (inside : row < rows)
    (insideOther : otherRow < rows) :
    row + rows * col = otherRow + rows * otherCol ↔ row = otherRow ∧ col = otherCol := by
  refine ⟨fun same => ?_, fun ⟨sameRow, sameColumn⟩ => by rw [sameRow, sameColumn]⟩
  have rowsAgree := congrArg (· % rows) same
  have columnsAgree := congrArg (· / rows) same
  simp only [cell_row, cell_column, inside, insideOther] at rowsAgree columnsAgree
  exact ⟨rowsAgree, columnsAgree⟩

theorem cell_of_position (rows cols i : Nat) (inside : i < rows * cols) :
    i % rows < rows ∧ i / rows < cols ∧ i % rows + rows * (i / rows) = i := by
  have some : 0 < rows := Nat.pos_of_ne_zero fun none => by simp [none] at inside
  exact ⟨Nat.mod_lt _ some, Nat.div_lt_of_lt_mul inside, Nat.mod_add_div _ _⟩

namespace Board

structure Sized (b : Board α) : Prop where
  costs : b.costs.size = b.rows * b.cols
  stars : b.stars.size = b.rows * b.cols
  primes : b.primes.size = b.rows * b.cols
  rowCover : b.rowCover.size = b.rows
  columnCover : b.columnCover.size = b.cols

def Marked (rows cols : Nat) (marks : Array Bool) (row col : Nat) : Prop :=
  row < rows ∧ col < cols ∧ marks[row + rows * col]? = some true

instance (rows cols : Nat) (marks : Array Bool) (row col : Nat) :
    Decidable (Marked rows cols marks row col) :=
  inferInstanceAs (Decidable (_ ∧ _ ∧ _))

def Starred (b : Board α) (row col : Nat) : Prop := Marked b.rows b.cols b.stars row col

def Primed (b : Board α) (row col : Nat) : Prop := Marked b.rows b.cols b.primes row col

def RowCovered (b : Board α) (row : Nat) : Prop := b.rowCover[row]? = some true

def ColumnCovered (b : Board α) (col : Nat) : Prop := b.columnCover[col]? = some true

def costAt [Cost α] (b : Board α) (row col : Nat) : α := b.costs.getD (b.offset row col) Cost.top

def Zero [Cost α] (b : Board α) (row col : Nat) : Prop :=
  row < b.rows ∧ col < b.cols ∧ ∃ cost, b.costs[b.offset row col]? = some cost ∧ Cost.isZero cost

def Bare [Cost α] (b : Board α) (row col : Nat) : Prop :=
  b.Zero row col ∧ ¬ b.RowCovered row ∧ ¬ b.ColumnCovered col

instance (b : Board α) (row col : Nat) :
    Decidable (b.Starred row col) := inferInstanceAs (Decidable (Marked ..))

instance (b : Board α) (row col : Nat) :
    Decidable (b.Primed row col) := inferInstanceAs (Decidable (Marked ..))

instance [Cost α] (b : Board α) (row col : Nat) : Decidable (b.Zero row col) :=
  decidable_of_iff (row < b.rows ∧ col < b.cols ∧ (b.costs[b.offset row col]?).any Cost.isZero)
    (by simp only [Zero, Option.any_eq_true])

instance (b : Board α) (row : Nat) :
    Decidable (b.RowCovered row) := inferInstanceAs (Decidable (_ = _))

instance (b : Board α) (col : Nat) :
    Decidable (b.ColumnCovered col) := inferInstanceAs (Decidable (_ = _))

theorem marked_set (rows cols : Nat) (marks : Array Bool) (row col : Nat) (on : Bool)
    (size : marks.size = rows * cols) (insideRow : row < rows) (insideColumn : col < cols)
    (r c : Nat) :
    Marked rows cols (marks.setIfInBounds (row + rows * col) on) r c ↔
      if r = row ∧ c = col then on = true else Marked rows cols marks r c := by
  have inside := cell_below rows cols row col insideRow insideColumn
  rw [Marked, flag_set marks _ on (by omega)]
  by_cases here : r = row ∧ c = col
  · obtain ⟨rfl, rfl⟩ := here
    simp [insideRow, insideColumn]
  · by_cases insideOther : r < rows
    · have apart : r + rows * c ≠ row + rows * col :=
        (cell_apart rows r c row col insideOther insideRow).not.mpr here
      rw [if_neg apart, if_neg here, Marked]
    · simp [here, insideOther, Marked]

theorem nothing_marked (rows cols : Nat) (marks : Array Bool) (row col : Nat) :
    ¬ Marked rows cols (marks.map fun _ => false) row col :=
  fun marked => flag_cleared marks _ marked.2.2

theorem fetch_marked (rows cols : Nat) (marks : Array Bool) (row col : Nat)
    (size : marks.size = rows * cols) (insideRow : row < rows) (insideColumn : col < cols) :
    fetch marks (row + rows * col) = .ok (decide (Marked rows cols marks row col)) := by
  have inside := cell_below rows cols row col insideRow insideColumn
  rw [fetch_ok marks _ (by omega)]
  simp [Marked, insideRow, insideColumn,
    Array.getElem?_eq_getElem (show row + rows * col < marks.size by omega)]

theorem fetch_flag (flags : Array Bool) (i : Nat) (inside : i < flags.size) :
    fetch flags i = .ok (decide (flags[i]? = some true)) := by
  rw [fetch_ok flags i inside]
  simp [inside]

theorem row_mark_cases (b : Board α) (marks : Array Bool) (row : Nat)
    (size : marks.size = b.rows * b.cols) (inside : row < b.rows) :
    (b.rowMark? marks row = .ok none ∧ ∀ col, ¬ Marked b.rows b.cols marks row col) ∨
      ∃ col, b.rowMark? marks row = .ok (some col) ∧ Marked b.rows b.cols marks row col := by
  have sought := seek_cases (fun col => fetch marks (b.offset row col))
    (fun col => Marked b.rows b.cols marks row col) b.cols
    fun col before => fetch_marked b.rows b.cols marks row col size inside before
  rcases sought with ⟨sought, absent⟩ | ⟨col, sought, _, marked, _⟩
  · exact Or.inl ⟨sought, fun col marked => absent col marked.2.1 marked⟩
  · exact Or.inr ⟨col, sought, marked⟩

theorem column_star_cases (b : Board α) (col : Nat) (sized : b.Sized) (inside : col < b.cols) :
    (b.columnStar? col = .ok none ∧ ∀ row, ¬ b.Starred row col) ∨
      ∃ row, b.columnStar? col = .ok (some row) ∧ b.Starred row col := by
  have present : b.offset b.rows col ≤ b.stars.size := by
    rw [sized.stars, offset, Nat.add_comm, ← Nat.mul_succ]
    exact Nat.mul_le_mul_left _ inside
  have opened :
      b.columnStar? col = seekFrom (fun row => fetch b.stars (b.offset row col)) 0 b.rows := by
    simp [columnStar?, demand, present]
  rw [opened]
  have sought := seek_cases (fun row => fetch b.stars (b.offset row col))
    (fun row => b.Starred row col) b.rows
    fun row before => fetch_marked b.rows b.cols b.stars row col sized.stars before inside
  rcases sought with ⟨sought, absent⟩ | ⟨row, sought, _, starred, _⟩
  · exact Or.inl ⟨sought, fun row starred => absent row starred.1 starred⟩
  · exact Or.inr ⟨row, sought, starred⟩

theorem cost_read [Cost α] (b : Board α) (row col : Nat) (sized : b.Sized)
    (insideRow : row < b.rows) (insideColumn : col < b.cols) :
    b.costs[b.offset row col]? = some (b.costAt row col) := by
  have inside := cell_below b.rows b.cols row col insideRow insideColumn
  have present : b.offset row col < b.costs.size := by rw [sized.costs]; exact inside
  simp [costAt, Array.getD, present]

theorem zero_cost [Cost α] (b : Board α) (row col : Nat) (sized : b.Sized) :
    b.Zero row col ↔ row < b.rows ∧ col < b.cols ∧ Cost.isZero (b.costAt row col) := by
  refine ⟨fun ⟨insideRow, insideColumn, cost, read, zero⟩ =>
    ?_, fun ⟨insideRow, insideColumn, zero⟩ => ?_⟩
  · rw [cost_read b row col sized insideRow insideColumn] at read
    exact ⟨insideRow, insideColumn, Option.some.inj read ▸ zero⟩
  · exact ⟨insideRow, insideColumn, _, cost_read b row col sized insideRow insideColumn, zero⟩

theorem zero_cases [Cost α] (b : Board α) (row col : Nat) (sized : b.Sized)
    (insideRow : row < b.rows) (insideColumn : col < b.cols) :
    (b.isZero row col = .ok true ∧ b.Zero row col) ∨
      (b.isZero row col = .ok false ∧ ¬ b.Zero row col) := by
  have opened : b.isZero row col = .ok (Cost.isZero (b.costAt row col)) := by
    simp [isZero, fetch, cost_read b row col sized insideRow insideColumn]
  rw [opened, zero_cost b row col sized]
  cases zero : Cost.isZero (b.costAt row col) with
  | true => exact Or.inl ⟨rfl, insideRow, insideColumn, rfl⟩
  | false => exact Or.inr ⟨rfl, fun both => by simp at both⟩

end Board

end LinearAssignment
