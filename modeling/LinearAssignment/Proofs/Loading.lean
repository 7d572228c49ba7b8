import LinearAssignment.Pricing
import LinearAssignment.Proofs.Outcome
import LinearAssignment.Proofs.Reduction

set_option autoImplicit false

namespace LinearAssignment

namespace Pricing

theorem settled_size (options : Options) (values costs : Array Float) :
    (settled options values costs).size = costs.size := by
  simp only [settled, flip, replaceNonFinite]
  split <;> split <;> simp

end Pricing

namespace Board

variable {α : Type}

def ready (rows cols : Nat) : Board α where
  rows
  cols
  costs := #[]
  stars := Array.replicate (rows * cols) false
  primes := Array.replicate (rows * cols) false
  rowCover := Array.replicate rows false
  columnCover := Array.replicate cols false

theorem unset_flag (n i : Nat) : (Array.replicate n false)[i]? ≠ some true := by
  rw [Array.getElem?_replicate]
  split <;> simp

theorem renew_ok (mem : Memory) (cells : Nat) (put : Array Bool → Board α)
    (addressed : cells ≤ Memory.largestBuffer) (free : cells ≤ mem.available) :
    renew mem cells put = .ok (put (Array.replicate cells false)) := by
  have granted := Memory.request_ok mem cells addressed free
  simp [renew, Memory.blank, granted, Except.map]

theorem renew_inverted (mem : Memory) (cells : Nat) (put : Array Bool → Board α) (b : Board α)
    (result : renew mem cells put = .ok b) : b = put (Array.replicate cells false) := by
  cases granted : mem.request cells with
  | error why => simp [renew, Memory.blank, granted, Except.map] at result
  | ok =>
      rw [renew, Memory.blank, granted] at result
      cases result
      rfl

theorem reset_ok (mem : Memory) (rows cols : Nat) (old : Board α)
    (addressed : 8 * (rows * cols) ≤ Memory.largestBuffer)
    (rowsAddressed : rows ≤ Memory.largestBuffer) (colsAddressed : cols ≤ Memory.largestBuffer)
    (free : 8 * (rows * cols) ≤ mem.available) (rowsFree : rows ≤ mem.available)
    (colsFree : cols ≤ mem.available) : reset mem rows cols old = .ok (ready rows cols) := by
  have small : rows * cols < UInt64.size := by
    simp only [Memory.largestBuffer, UInt64.size] at addressed ⊢
    omega
  have table := Memory.request_ok mem _ addressed free
  have marks (put : Array Bool → Board α) := renew_ok mem (rows * cols) put (by omega) (by omega)
  have rowMarks (put : Array Bool → Board α) := renew_ok mem rows put rowsAddressed rowsFree
  have colMarks (put : Array Bool → Board α) := renew_ok mem cols put colsAddressed colsFree
  simp [reset, word_ok _ small, table, marks, rowMarks, colMarks, ready]

theorem reset_inverted (mem : Memory) (rows cols : Nat) (old b : Board α)
    (result : reset mem rows cols old = .ok b) : b = ready rows cols := by
  obtain ⟨cells, counted, result⟩ := bind_ok _ _ _ result
  obtain ⟨same, _⟩ := word_inverted _ _ (map_error_ok _ _ _ counted)
  obtain ⟨_, _, result⟩ := bind_ok _ _ _ result
  obtain ⟨first, renewed, result⟩ := bind_ok _ _ _ result
  have firstIs := renew_inverted _ _ _ _ renewed
  obtain ⟨second, renewedToo, result⟩ := bind_ok _ _ _ result
  have secondIs := renew_inverted _ _ _ _ renewedToo
  obtain ⟨third, renewedThen, result⟩ := bind_ok _ _ _ result
  have thirdIs := renew_inverted _ _ _ _ renewedThen
  have last := renew_inverted _ _ _ _ result
  subst same firstIs secondIs thirdIs
  exact last

theorem reset_small (mem : Memory) (rows cols : Nat) (old b : Board α)
    (result : reset mem rows cols old = .ok b) : rows * cols < UInt64.size := by
  obtain ⟨cells, counted, _⟩ := bind_ok _ _ _ result
  exact (word_inverted _ _ (map_error_ok _ _ _ counted)).2

theorem load_ok (options : Options) (values : Array Float) (b : Board Float)
    (size : values.size = b.rows * b.cols) (accepted : b.objection? options values = none)
    (priced : values.any Float.isFinite) :
    b.load options values =
      .ok ({ b with costs := Pricing.settled options values (b.costs ++ values) }, true) := by
  have checked : decide (values.size = b.rows * b.cols) = true := decide_eq_true size
  simp only [load, checked, demand, accepted, priced, if_true, lift_ok, ok_bind, pure_ok]

theorem load_unpriced (options : Options) (values : Array Float) (b : Board Float)
    (size : values.size = b.rows * b.cols) (accepted : b.objection? options values = none)
    (unpriced : values.any Float.isFinite = false) : b.load options values = .ok (b, false) := by
  have checked : decide (values.size = b.rows * b.cols) = true := decide_eq_true size
  simp only [load, checked, demand, accepted, unpriced, if_true, lift_ok, ok_bind, pure_ok,
    Bool.false_eq_true, if_false]

theorem load_inverted (options : Options) (values : Array Float) (b loaded : Board Float)
    (result : b.load options values = .ok (loaded, true)) :
    values.size = b.rows * b.cols ∧ b.objection? options values = none ∧ values.any Float.isFinite ∧
      loaded = { b with costs := Pricing.settled options values (b.costs ++ values) } := by
  by_cases size : values.size = b.rows * b.cols
  · cases accepted : b.objection? options values with
    | some why =>
        simp [load, size, demand, accepted, refuse] at result
    | none =>
        by_cases priced : values.any Float.isFinite
        · rw [load_ok options values b size accepted priced] at result
          exact ⟨size, rfl, priced, (Prod.mk.inj (Except.ok.inj result)).1.symm⟩
        · have unpriced : values.any Float.isFinite = false := (Bool.not_eq_true _).mp priced
          rw [load_unpriced options values b size accepted unpriced] at result
          cases result
  · simp [load, size, demand] at result

theorem load_answer (options : Options) (values : Array Float) (b loaded : Board Float)
    (priced : Bool) (result : b.load options values = .ok (loaded, priced)) :
    priced = values.any Float.isFinite := by
  obtain ⟨_, _, result⟩ := bind_ok _ _ _ result
  cases accepted : b.objection? options values with
  | some why =>
      rw [accepted] at result
      cases result
  | none =>
      rw [accepted] at result
      by_cases finite : values.any Float.isFinite
      · rw [if_pos finite] at result
        cases result
        exact finite.symm
      · rw [if_neg finite] at result
        cases result
        exact (Bool.eq_false_iff.mpr finite).symm

def loaded (options : Options) (rows cols : Nat) (values : Array Float) : Board Float :=
  { (ready rows cols : Board Float) with costs := Pricing.settled options values values }

theorem load_ready (options : Options) (rows cols : Nat) (values : Array Float)
    (size : values.size = rows * cols)
    (accepted : objection? options values (ready rows cols) = none)
    (priced : values.any Float.isFinite) :
    (ready rows cols).load options values = .ok (loaded options rows cols values, true) := by
  rw [load_ok options values (ready rows cols) size accepted priced]
  simp [loaded, ready]

theorem ready_loaded (options : Options) (rows cols : Nat) (values : Array Float)
    (board : Board Float) (loads : (ready rows cols).load options values = .ok (board, true)) :
    values.size = rows * cols ∧ objection? options values (ready rows cols) = none ∧
      values.any Float.isFinite ∧ board = loaded options rows cols values := by
  obtain ⟨size, accepted, priced, same⟩ := load_inverted options values _ board loads
  refine ⟨size, accepted, priced, ?_⟩
  rw [same, loaded]
  simp [ready]

def Prepared (options : Options) (rows cols : Nat) (values : Array Float) (start : Board Float) :
    Prop :=
  ∃ mem old empty full, reset mem rows cols old = .ok empty ∧
    empty.load options values = .ok (full, true) ∧ full.reduce = .ok start

theorem ready_unmarked (rows cols : Nat) (costs : Array α) (size : costs.size = rows * cols) :
    Unmarked { (ready rows cols : Board α) with costs } where
  sized := ⟨size, by simp [ready], by simp [ready], by simp [ready], by simp [ready]⟩
  unstarred := fun _ _ starred => unset_flag _ _ starred.2.2
  unprimed := fun _ _ primed => unset_flag _ _ primed.2.2
  rowsOpen := fun _ => unset_flag _ _
  columnsOpen := fun _ => unset_flag _ _

theorem loaded_unmarked (options : Options) (rows cols : Nat) (values : Array Float)
    (size : values.size = rows * cols) : (loaded options rows cols values).Unmarked :=
  ready_unmarked rows cols _ ((Pricing.settled_size options values values).trans size)

theorem prepared_reduced (options : Options) (rows cols : Nat) (values : Array Float)
    (start : Board Float) (prepared : Prepared options rows cols values start) :
    values.size = rows * cols ∧ values.any Float.isFinite ∧
      (loaded options rows cols values).reduce = .ok start := by
  obtain ⟨mem, old, empty, full, reset, load, reduce⟩ := prepared
  have emptyIs := reset_inverted mem rows cols old empty reset
  subst emptyIs
  obtain ⟨size, _, priced, same⟩ := ready_loaded options rows cols values full load
  exact ⟨size, priced, same ▸ reduce⟩

theorem prepared_cells (options : Options) (rows cols : Nat) (values : Array Float)
    (start : Board Float) (prepared : Prepared options rows cols values start) :
    0 < rows ∧ 0 < cols := by
  obtain ⟨size, priced, _⟩ := prepared_reduced options rows cols values start prepared
  obtain ⟨i, inside, _⟩ := Array.any_eq_true.mp priced
  rw [size] at inside
  exact ⟨Nat.pos_of_mul_pos_right (by omega : 0 < rows * cols),
    Nat.pos_of_mul_pos_left (by omega : 0 < rows * cols)⟩

theorem prepared_fresh (options : Options) (rows cols : Nat) (values : Array Float)
    (start : Board Float) (prepared : Prepared options rows cols values start) :
    (loaded options rows cols values).lowerLines.Starring start ∧ start.Fresh := by
  obtain ⟨size, _, reduce⟩ := prepared_reduced options rows cols values start prepared
  exact reduced_known _ start (loaded_unmarked options rows cols values size) reduce

theorem prepared_exists (options : Options) (rows cols : Nat) (values : Array Float)
    (size : values.size = rows * cols) (accepted : options.forbidNonFinite = true)
    (priced : values.any Float.isFinite)
    (addressed : 8 * (rows * cols) + rows + cols ≤ Memory.largestBuffer) :
    ∃ start, Prepared options rows cols values start ∧
      start.costs = (loaded options rows cols values).lowerLines.costs := by
  obtain ⟨start, reduce, starring, _⟩ := reduced _ (loaded_unmarked options rows cols values size)
  have reset := reset_ok ⟨8 * (rows * cols) + rows + cols⟩ rows cols (blank : Board Float)
    (by omega) (by omega) (by omega) (by simp only; omega) (by simp only; omega)
    (by simp only; omega)
  have load := load_ready options rows cols values size (by simp [objection?, accepted]) priced
  exact ⟨start, ⟨_, blank, _, _, reset, load, reduce⟩, starring.costs⟩

-- The first zeros of both rows share a column, so that a search has to shift before it flips.
theorem square_prepared :
    ∃ start, Prepared {} 2 2 #[1, 2, 2, 4] start ∧ start.costs = #[0, 0, 1, 2] ∧
      ∀ cost ∈ start.costs, cost.isFinite := by
  obtain ⟨start, prepared, costs⟩ :=
    prepared_exists {} 2 2 #[1, 2, 2, 4] (by decide) rfl (by decide +kernel) (by decide)
  have lowered : (loaded {} 2 2 #[1, 2, 2, 4]).lowerLines.costs = #[0, 0, 1, 2] := by
    decide +kernel
  rw [lowered] at costs
  refine ⟨start, prepared, costs, ?_⟩
  rw [costs]
  decide +kernel

end Board

end LinearAssignment
