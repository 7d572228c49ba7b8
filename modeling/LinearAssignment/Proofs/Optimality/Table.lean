import LinearAssignment.Proofs.Optimality.Search
import LinearAssignment.Proofs.Pricing
import LinearAssignment.Proofs.Report

set_option autoImplicit false

namespace LinearAssignment

def worthOf (values : Array Float) (rows : Nat) (cell : Nat × Nat) : ℚ :=
  Binary64.value (values.getD (cell.1 + rows * cell.2) 0)

def Whole (values : Array Float) : Prop := ∀ v ∈ values, v.isFinite → ∃ n : ℤ, Binary64.value v = n

theorem naturals_whole (values : Array Float) (bound : ℕ) (small : bound < 2 ^ 53)
    (natural : ∀ v ∈ values, v.isFinite → ∃ n : ℕ, n ≤ bound ∧ v = Float.ofNat n) :
    Whole values ∧ ∀ v ∈ values, v.isFinite → 0 ≤ Binary64.value v ∧ Binary64.value v ≤ bound := by
  have each (v : Float) (member : v ∈ values) (finite : v.isFinite) :
      ∃ n : ℕ, n ≤ bound ∧ Binary64.value v = n := by
    obtain ⟨n, below, rfl⟩ := natural v member finite
    exact ⟨n, below, (Binary64.whole_exact n (by omega)).2⟩
  refine ⟨fun v member finite => ?_, fun v member finite => ?_⟩
  · obtain ⟨n, _, same⟩ := each v member finite
    exact ⟨n, by simpa using same⟩
  · obtain ⟨n, below, same⟩ := each v member finite
    rw [same]
    exact ⟨by positivity, by exact_mod_cast below⟩

theorem cell_value (values : Array Float) (rows cols row col : Nat)
    (size : values.size = rows * cols) (insideRow : row < rows) (insideColumn : col < cols) :
    values[row + rows * col]? = some (values.getD (row + rows * col) 0) := by
  have below := cell_below rows cols row col insideRow insideColumn
  simp [Array.getD, size, below]

theorem cell_member (values : Array Float) (rows cols row col : Nat)
    (size : values.size = rows * cols) (insideRow : row < rows) (insideColumn : col < cols) :
    values.getD (row + rows * col) 0 ∈ values :=
  Array.mem_of_getElem? (cell_value values rows cols row col size insideRow insideColumn)

namespace Pricing

def price (options : Options) (values : Array Float) : Float :=
  forbidden
    (if options.maximize then greatestFinite values - leastFinite values
      else greatestFinite values)
    values.size

def settledCost (options : Options) (values : Array Float) (c : Float) : Float :=
  let taken := if options.maximize && c.isFinite then greatestFinite values - c else c
  if values.all Float.isFinite || taken.isFinite then taken else price options values

theorem settled_map (options : Options) (values costs : Array Float) :
    settled options values costs = costs.map (settledCost options values) := by
  have pointwise : ∀ c : Float, settledCost options values c =
      if values.all Float.isFinite then
        (if options.maximize && c.isFinite then greatestFinite values - c else c)
      else if (if options.maximize && c.isFinite then greatestFinite values - c else c).isFinite
        then (if options.maximize && c.isFinite then greatestFinite values - c else c)
      else price options values := by
    intro c
    cases all : values.all Float.isFinite <;> simp [settledCost, all]
  rw [settled, funext pointwise]
  cases maximize : options.maximize <;> cases all : values.all Float.isFinite <;>
    simp [flip, replaceNonFinite, price, maximize, Function.comp_def]

theorem settled_nonfinite (options : Options) (values : Array Float) (v : Float)
    (member : v ∈ values) (infinite : v.isFinite = false) :
    settledCost options values v = price options values := by
  have notAll : values.all Float.isFinite = false := by
    rw [Array.all_eq_false']
    exact ⟨v, member, by simp [infinite]⟩
  simp [settledCost, notAll, infinite]

theorem settled_taken (options : Options) (values : Array Float) (v : Float) (finite : v.isFinite)
    (minimize : options.maximize = false) : settledCost options values v = v := by
  simp [settledCost, minimize, finite]

theorem settled_flipped (options : Options) (values : Array Float) (v : Float) (finite : v.isFinite)
    (maximize : options.maximize = true) (finiteFlipped : (greatestFinite values - v).isFinite) :
    settledCost options values v = greatestFinite values - v := by
  simp [settledCost, maximize, finite, finiteFlipped]

theorem flipped_exact (values : Array Float) (whole : Whole values) (v : Float)
    (member : v ∈ values) (finite : v.isFinite)
    (small : Binary64.value (greatestFinite values) - Binary64.value v ≤ 2 ^ 53) :
    (greatestFinite values - v).isFinite ∧
      (∃ n : ℤ, Binary64.value (greatestFinite values - v) = n) ∧
      Binary64.value (greatestFinite values - v) =
        Binary64.value (greatestFinite values) - Binary64.value v := by
  obtain ⟨n, wholeHere⟩ := whole v member finite
  obtain ⟨finiteGreatest, memberGreatest, above⟩ := greatest_finite values ⟨v, member, finite⟩
  obtain ⟨k, wholeGreatest⟩ := whole _ memberGreatest finiteGreatest
  have aboveHere := above v member finite
  rw [wholeHere, wholeGreatest] at aboveHere small
  have order : n ≤ k := by exact_mod_cast aboveHere
  have bound : k - n ≤ 2 ^ 53 := by exact_mod_cast small
  have difference := Binary64.difference_exact (greatestFinite values) v (k - n) finiteGreatest
    finite (by rw [wholeHere, wholeGreatest]; push_cast; rfl)
    (by rw [abs_of_nonneg (by omega)]; exact bound)
  refine ⟨difference.1, ⟨k - n, difference.2⟩, ?_⟩
  rw [difference.2, wholeHere, wholeGreatest]
  push_cast
  rfl

theorem settled_exact (options : Options) (values : Array Float) (whole : Whole values) (v : Float)
    (member : v ∈ values) (finite : v.isFinite)
    (small : options.maximize = true →
      Binary64.value (greatestFinite values) - Binary64.value v ≤ 2 ^ 53) :
    (settledCost options values v).isFinite ∧
      (∃ n : ℤ, Binary64.value (settledCost options values v) = n) ∧
      Binary64.value (settledCost options values v) =
        if options.maximize then
          Binary64.value (greatestFinite values) - Binary64.value v
        else
          Binary64.value v := by
  cases maximize : options.maximize with
  | false =>
      rw [settled_taken options values v finite maximize]
      exact ⟨finite, whole v member finite, rfl⟩
  | true =>
      have flipped := flipped_exact values whole v member finite (small maximize)
      rw [settled_flipped options values v finite maximize flipped.1]
      exact flipped

end Pricing

namespace Board

theorem loaded_cost (options : Options) (rows cols : Nat) (values : Array Float)
    (size : values.size = rows * cols) (row col : Nat) (insideRow : row < rows)
    (insideColumn : col < cols) :
    (loaded options rows cols values).costAt row col =
      Pricing.settledCost options values (values.getD (row + rows * col) 0) := by
  have read := cell_value values rows cols row col size insideRow insideColumn
  change (Pricing.settled options values values).getD (row + rows * col) Cost.top = _
  rw [Pricing.settled_map, Array.getD_eq_getD_getElem?, Array.getElem?_map, read,
    Option.map_some, Option.getD_some]

theorem outlay_total (options : Options) (rows cols : Nat) (values : Array Float)
    (cells : Finset (Nat × Nat))
    (each : ∀ cell ∈ cells, (loaded options rows cols values).worthAt cell.1 cell.2 =
      if options.maximize then
        Binary64.value (Pricing.greatestFinite values) - worthOf values rows cell
      else
        worthOf values rows cell) :
    ∑ cell ∈ cells, (loaded options rows cols values).worthAt cell.1 cell.2 =
      if options.maximize then
        cells.card • Binary64.value (Pricing.greatestFinite values) -
          ∑ cell ∈ cells, worthOf values rows cell
      else
        ∑ cell ∈ cells, worthOf values rows cell := by
  rw [Finset.sum_congr rfl each]
  cases options.maximize with
  | false => rfl
  | true => simp [Finset.sum_sub_distrib]

theorem chosen_pair (b : Board Float) (values : Array Float) (independent : b.Independent)
    (row col : Nat) :
    (row, col) ∈ b.chosenPairs values ↔
      b.Starred row col ∧ (values.getD (row + b.rows * col) 0).isFinite := by
  simp only [chosenPairs, List.mem_filterMap, List.mem_range, Option.map_eq_some_iff, Prod.mk.injEq]
  constructor
  · rintro ⟨r, _, c, chosen, rfl, rfl⟩
    obtain ⟨star, finite⟩ := Option.filter_eq_some_iff.mp chosen
    exact ⟨(b.star_of_some r c independent).mp star, finite⟩
  · rintro ⟨starred, finite⟩
    exact ⟨row, starred.1, col,
      Option.filter_eq_some_iff.mpr ⟨(b.star_of_some row col independent).mpr starred, finite⟩,
      rfl, rfl⟩

theorem chosen_nodup (b : Board Float) (values : Array Float) : (b.chosenPairs values).Nodup := by
  refine List.nodup_range.filterMap fun row other cell member memberToo => ?_
  obtain ⟨col, _, rfl⟩ := Option.map_eq_some_iff.mp member
  obtain ⟨otherCol, _, same⟩ := Option.map_eq_some_iff.mp memberToo
  exact (Prod.mk.inj same).1.symm

theorem chosen_cells (b : Board Float) (values : Array Float) (independent : b.Independent) :
    (b.chosenPairs values).toFinset =
      b.starCells.filter fun cell => (values.getD (cell.1 + b.rows * cell.2) 0).isFinite := by
  ext ⟨row, col⟩
  rw [List.mem_toFinset, chosen_pair b values independent, Finset.mem_filter, star_cell]

end Board

def Allowed (values : Array Float) (rows : Nat) (cell : Nat × Nat) : Prop :=
  (values.getD (cell.1 + rows * cell.2) 0).isFinite

instance (values : Array Float) (rows : Nat) :
    DecidablePred (Allowed values rows) := fun _ => inferInstanceAs (Decidable (_ = true))

theorem pairs_total (values : Array Float) (rows : Nat) (cells : List (Nat × Nat))
    (nodup : cells.Nodup) :
    ∑ cell ∈ cells.toFinset, worthOf values rows cell = (cells.map (worthOf values rows)).sum :=
  List.sum_toFinset _ nodup

theorem sum_take_bound (values : Array Float) (rows : Nat) (cells : List (Nat × Nat)) (bound : ℚ)
    (each : ∀ cell ∈ cells, |worthOf values rows cell| ≤ bound) (k : Nat) (sign : 0 ≤ bound) :
    |((cells.take k).map (worthOf values rows)).sum| ≤ cells.length * bound := by
  have part :
      |((cells.take k).map (worthOf values rows)).sum| ≤
        ((cells.take k).map fun _ => bound).sum := by
    have within : ∀ cell ∈ cells.take k, |worthOf values rows cell| ≤ bound :=
      fun cell member => each cell (List.mem_of_mem_take member)
    generalize cells.take k = some at within
    induction some with
    | nil => simp
    | cons cell rest ih =>
        simp only [List.map_cons, List.sum_cons]
        have first := within cell List.mem_cons_self
        have later := ih fun other member => within other (List.mem_cons_of_mem _ member)
        exact (abs_add_le _ _).trans (add_le_add first later)
  refine part.trans ?_
  rw [List.map_const', List.sum_replicate, List.length_take, nsmul_eq_mul]
  exact mul_le_mul_of_nonneg_right (by exact_mod_cast Nat.min_le_right k cells.length) sign

-- The induction is on the cells; the total so far is whole, and so are all later ones.
theorem total_exact (values : Array Float) (rows : Nat) (cells : List (Nat × Nat))
    (whole : ∀ cell ∈ cells, (values.getD (cell.1 + rows * cell.2) 0).isFinite ∧
      ∃ n : ℤ, worthOf values rows cell = n)
    (total : Float) (finite : total.isFinite) (n : ℤ) (sofar : Binary64.value total = n)
    (small : ∀ k, |(n : ℚ) + ((cells.take k).map (worthOf values rows)).sum| ≤ 2 ^ 53) :
    (cells.foldl (Assignment.addValue values rows) total).isFinite ∧
      Binary64.value (cells.foldl (Assignment.addValue values rows) total) =
        n + (cells.map (worthOf values rows)).sum := by
  induction cells generalizing total n with
  | nil => exact ⟨finite, by simpa using sofar⟩
  | cons cell rest ih =>
      obtain ⟨finiteCell, k, wholeCell⟩ := whole cell List.mem_cons_self
      have first := small 1
      simp only [List.take_succ_cons, List.take_zero, List.map_cons, List.map_nil, List.sum_cons,
        List.sum_nil, add_zero, wholeCell] at first
      have sum := Binary64.sum_exact total (values.getD (cell.1 + rows * cell.2) 0) (n + k) finite
        finiteCell (by rw [sofar, ← worthOf, wholeCell]; push_cast; rfl) (by exact_mod_cast first)
      have later := ih (fun other member => whole other (List.mem_cons_of_mem _ member))
          (Assignment.addValue values rows total cell) sum.1 (n + k) sum.2 (fun i => by
          have next := small (i + 1)
          simp only [List.take_succ_cons, List.map_cons, List.sum_cons, wholeCell] at next
          push_cast
          rw [add_assoc]
          exact next)
      rw [List.foldl_cons]
      refine ⟨later.1, later.2.trans ?_⟩
      rw [List.map_cons, List.sum_cons, wholeCell]
      push_cast
      ring

end LinearAssignment
