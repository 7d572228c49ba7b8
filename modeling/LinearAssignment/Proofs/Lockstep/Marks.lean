import LinearAssignment.Phase
import LinearAssignment.Reduction

set_option autoImplicit false

namespace LinearAssignment

variable {ε δ η β γ φ ψ : Type}

def Alike (R : β → γ → Prop) : Except ε β → Except δ γ → Prop
  | .ok b, .ok c => R b c
  | .error _, .error _ => True
  | _, _ => False

namespace Alike

theorem same (result : Except ε β) : Alike Eq result result := by
  cases result with
  | ok b => exact (rfl : b = b)
  | error why => trivial

theorem ok_right (R : β → γ → Prop) (x : Except ε β) (y : Except δ γ) (alike : Alike R x y) (b : β)
    (ok : x = .ok b) : ∃ c, y = .ok c ∧ R b c := by
  subst ok
  cases y with
  | ok c => exact ⟨c, rfl, alike⟩
  | error why => exact alike.elim

theorem bind (R : β → γ → Prop) (S : φ → ψ → Prop) (x : Except ε β) (y : Except δ γ)
    (f : β → Except ε φ) (g : γ → Except δ ψ) (first : Alike R x y)
    (later : ∀ b c, R b c → Alike S (f b) (g c)) : Alike S (x >>= f) (y >>= g) := by
  cases x with
  | ok b =>
      cases y with
      | ok c => exact later b c first
      | error why => exact first.elim
  | error why =>
      cases y with
      | ok c => exact first.elim
      | error other => trivial

theorem bind_same (S : φ → ψ → Prop) (x : Except ε β) (f : β → Except ε φ) (g : β → Except ε ψ)
    (later : ∀ b, Alike S (f b) (g b)) : Alike S (x >>= f) (x >>= g) := by
  apply bind Eq S x x f g (same x)
  rintro b _ rfl
  exact later b

theorem map_error (R : β → γ → Prop) (x : Except ε β) (y : Except δ γ) (f : ε → η) (g : δ → η)
    (alike : Alike R x y) : Alike R (x.mapError f) (y.mapError g) := by
  cases x <;> cases y <;> exact alike

theorem fold (R : β → γ → Prop) (step : β → Nat → Except ε β) (other : γ → Nat → Except δ γ)
    (start left : Nat) (steps : ∀ i b c, R b c → Alike R (step b i) (other c i)) (b : β) (c : γ)
    (first : R b c) : Alike R (foldFrom step start left b) (foldFrom other start left c) := by
  induction left generalizing start b c with
  | zero => exact first
  | succ n ih =>
      exact bind R R _ _ _ _ (steps start b c first) fun b c related => ih (start + 1) b c related

theorem seek (test other : Nat → Except ε Bool) (start left : Nat)
    (tests : ∀ i, Alike Eq (test i) (other i)) :
    Alike Eq (seekFrom test start left) (seekFrom other start left) := by
  induction left generalizing start with
  | zero => exact (rfl : (none : Option Nat) = none)
  | succ n ih =>
      apply bind Eq Eq _ _ _ _ (tests start)
      rintro passed _ rfl
      cases passed with
      | true => exact (rfl : some start = some start)
      | false => exact ih (start + 1)

end Alike

end LinearAssignment

namespace LinearAssignment.Board

variable {α : Type} [Cost α]

def Twins (b c : Board α) : Prop :=
  ∃ costs, c = { b with costs } ∧ costs.map Cost.isZero = b.costs.map Cost.isZero

def TwinsWith {γ : Type} (x y : Board α × γ) : Prop := x.1.Twins y.1 ∧ x.2 = y.2

theorem twins_changed (b after : Board α) (costs : Array α)
    (zeros : costs.map Cost.isZero = b.costs.map Cost.isZero) (same : after.costs = b.costs) :
    after.Twins { after with costs } := ⟨costs, rfl, same ▸ zeros⟩

theorem twins_zero (b c : Board α) (twins : b.Twins c) (row col : Nat) :
    Alike Eq (b.isZero row col) (c.isZero row col) := by
  obtain ⟨costs, rfl, zeros⟩ := twins
  have here := congrArg (fun flags => flags[b.offset row col]?) zeros
  simp only [Array.getElem?_map] at here
  change Alike Eq (fetch b.costs (b.offset row col) >>= fun cost => .ok (Cost.isZero cost))
    (fetch costs (b.offset row col) >>= fun cost => .ok (Cost.isZero cost))
  rw [fetch, fetch]
  cases read : b.costs[b.offset row col]? <;> cases other :
    costs[b.offset row col]? <;> simp_all [Alike]

theorem twins_star (b c : Board α) (twins : b.Twins c) (row col : Nat) (on : Bool) :
    Alike Twins (b.setStar row col on) (c.setStar row col on) := by
  obtain ⟨costs, rfl, zeros⟩ := twins
  exact Alike.bind_same _ (store b.stars (b.offset row col) on) _ _ fun stars =>
    twins_changed b { b with stars } costs zeros rfl

theorem twins_prime (b c : Board α) (twins : b.Twins c) (row col : Nat) (on : Bool) :
    Alike Twins (b.setPrime row col on) (c.setPrime row col on) := by
  obtain ⟨costs, rfl, zeros⟩ := twins
  exact Alike.bind_same _ (store b.primes (b.offset row col) on) _ _ fun primes =>
    twins_changed b { b with primes } costs zeros rfl

theorem twins_cover_row (b c : Board α) (twins : b.Twins c) (row : Nat) (on : Bool) :
    Alike Twins (b.coverRow row on) (c.coverRow row on) := by
  obtain ⟨costs, rfl, zeros⟩ := twins
  exact Alike.bind_same _ (store b.rowCover row on) _ _ fun rowCover =>
    twins_changed b { b with rowCover } costs zeros rfl

theorem twins_cover_column (b c : Board α) (twins : b.Twins c) (col : Nat) (on : Bool) :
    Alike Twins (b.coverColumn col on) (c.coverColumn col on) := by
  obtain ⟨costs, rfl, zeros⟩ := twins
  exact Alike.bind_same _ (store b.columnCover col on) _ _ fun columnCover =>
    twins_changed b { b with columnCover } costs zeros rfl

theorem twins_uncovered (b c : Board α) (twins : b.Twins c) :
    b.uncoverRows.Twins c.uncoverRows := by
  obtain ⟨costs, rfl, zeros⟩ := twins
  exact twins_changed b b.uncoverRows costs zeros rfl

theorem twins_erased (b c : Board α) (twins : b.Twins c) : b.erasePrimes.Twins c.erasePrimes := by
  obtain ⟨costs, rfl, zeros⟩ := twins
  exact twins_changed b b.erasePrimes costs zeros rfl

theorem twins_row_star (b c : Board α) (twins : b.Twins c) (row : Nat) :
    c.rowStar? row = b.rowStar? row := by
  obtain ⟨costs, rfl, _⟩ := twins
  rfl

theorem twins_row_prime (b c : Board α) (twins : b.Twins c) (row : Nat) :
    c.rowPrime? row = b.rowPrime? row := by
  obtain ⟨costs, rfl, _⟩ := twins
  rfl

theorem twins_column_star (b c : Board α) (twins : b.Twins c) (col : Nat) :
    c.columnStar? col = b.columnStar? col := by
  obtain ⟨costs, rfl, _⟩ := twins
  rfl

theorem twins_covers (b c : Board α) (twins : b.Twins c) :
    c.rowCover = b.rowCover ∧ c.columnCover = b.columnCover := by
  obtain ⟨costs, rfl, _⟩ := twins
  exact ⟨rfl, rfl⟩

theorem twins_size (b c : Board α) (twins : b.Twins c) : c.rows = b.rows ∧ c.cols = b.cols := by
  obtain ⟨costs, rfl, _⟩ := twins
  exact ⟨rfl, rfl⟩

theorem twins_bound (b c : Board α) (twins : b.Twins c) : c.phaseBound = b.phaseBound := by
  obtain ⟨costs, rfl, _⟩ := twins
  rfl

theorem twins_free (b c : Board α) (twins : b.Twins c) (row col : Nat) (covers : Array Bool)
    (i : Nat) :
    Alike Eq
      (do if ← b.isZero row col then return !(← fetch covers i) else return false :
        Except Fault Bool)
      (do if ← c.isZero row col then return !(← fetch covers i) else return false :
        Except Fault Bool) := by
  apply Alike.bind Eq Eq _ _ _ _ (twins_zero b c twins row col)
  rintro zero _ rfl
  exact Alike.same _

theorem twins_star_in_row (row : Nat) (b c : Board α) (twins : b.Twins c) :
    Alike Twins (b.starInRow row) (c.starInRow row) := by
  obtain ⟨_, covers⟩ := twins_covers b c twins
  obtain ⟨_, cols⟩ := twins_size b c twins
  rw [starInRow, starInRow, covers, cols]
  apply Alike.bind Eq Twins _ _ _ _ (Alike.seek _ _ _ _ fun col =>
    twins_free b c twins row col b.columnCover col)
  rintro found _ rfl
  cases found with
  | none => exact twins
  | some col =>
      apply Alike.bind Twins Twins _ _ _ _ (twins_star b c twins row col true)
      exact fun b c twins => twins_cover_column b c twins col true

theorem twins_star_in_column (col : Nat) (b c : Board α) (twins : b.Twins c) :
    Alike Twins (b.starInColumn col) (c.starInColumn col) := by
  obtain ⟨covers, _⟩ := twins_covers b c twins
  obtain ⟨rows, _⟩ := twins_size b c twins
  rw [starInColumn, starInColumn, covers, rows]
  apply Alike.bind Eq Twins _ _ _ _ (Alike.seek _ _ _ _ fun row =>
    twins_free b c twins row col b.rowCover row)
  rintro found _ rfl
  cases found with
  | none => exact twins
  | some row =>
      apply Alike.bind Twins Twins _ _ _ _ (twins_star b c twins row col true)
      intro b c twins
      apply Alike.bind Twins Twins _ _ _ _ (twins_cover_column b c twins col true)
      exact fun b c twins => twins_cover_row b c twins row true

theorem twins_star_lines (b c : Board α) (twins : b.Twins c) :
    Alike Twins b.starLines c.starLines := by
  obtain ⟨rows, cols⟩ := twins_size b c twins
  rw [starLines, starLines, isWide, isWide, rows, cols]
  by_cases wide : b.rows ≤ b.cols
  · simp only [wide, decide_true, if_true]
    exact Alike.fold Twins _ _ _ _ twins_star_in_row b c twins
  · simp only [wide, decide_false, Bool.false_eq_true, if_false]
    apply Alike.bind Twins Twins _ _ _ _ (Alike.fold Twins _ _ _ _ twins_star_in_column b c twins)
    exact fun b c twins => twins_uncovered b c twins

theorem twins_cover_starred (b c : Board α) (twins : b.Twins c) :
    Alike Twins b.coverStarred c.coverStarred := by
  rw [coverStarred, coverStarred, (twins_size b c twins).2]
  apply Alike.fold Twins _ _ _ _ _ b c twins
  intro col b c twins
  rw [coverIfStarred, coverIfStarred, twins_column_star b c twins]
  exact Alike.bind_same Twins (b.columnStar? col) _ _ fun star =>
    twins_cover_column b c twins col star.isSome

theorem twins_check (b c : Board α) (twins : b.Twins c) : c.check = b.check := by
  obtain ⟨costs, rfl, _⟩ := twins
  rfl

theorem twins_bare (b c : Board α) (twins : b.Twins c) (row col : Nat) :
    Alike Eq (b.isBareZero row col) (c.isBareZero row col) := by
  rw [isBareZero, isBareZero, (twins_covers b c twins).1]
  apply Alike.bind_same Eq (fetch b.rowCover row)
  intro covered
  cases covered with
  | true => exact (rfl : false = false)
  | false => exact twins_zero b c twins row col

theorem twins_prime_cell (b c : Board α) (twins : b.Twins c) (row col : Nat) :
    Alike TwinsWith (b.primeCell row col) (c.primeCell row col) := by
  apply Alike.bind Twins TwinsWith _ _ _ _ (twins_prime b c twins row col true)
  intro b c twins
  rw [twins_row_star b c twins row]
  apply Alike.bind_same TwinsWith (b.rowStar? row)
  intro star
  cases star with
  | none => exact ⟨twins, rfl⟩
  | some starCol =>
      apply Alike.bind Twins TwinsWith _ _ _ _ (twins_cover_row b c twins row true)
      intro b c twins
      apply Alike.bind Twins TwinsWith _ _ _ _ (twins_cover_column b c twins starCol false)
      exact fun b c twins => ⟨twins, rfl⟩

theorem twins_search_column (b c : Board α) (twins : b.Twins c) (col : Nat) :
    Alike TwinsWith (b.searchColumn col) (c.searchColumn col) := by
  rw [searchColumn, searchColumn, (twins_covers b c twins).2, (twins_size b c twins).1]
  apply Alike.bind_same TwinsWith (fetch b.columnCover col)
  intro covered
  cases covered with
  | true => exact ⟨twins, rfl⟩
  | false =>
      apply Alike.bind Eq TwinsWith _ _ _ _ (Alike.seek _ _ _ _ fun row =>
        twins_bare b c twins row col)
      rintro found _ rfl
      cases found with
      | none => exact ⟨twins, rfl⟩
      | some row => exact twins_prime_cell b c twins row col

theorem twins_sweep (before : Yield) (col left : Nat) (b c : Board α) (twins : b.Twins c) :
    Alike TwinsWith (sweepFrom before col left b) (sweepFrom before col left c) := by
  induction left generalizing before col b c with
  | zero => exact ⟨twins, rfl⟩
  | succ n ih =>
      apply Alike.bind TwinsWith TwinsWith _ _ _ _ (twins_search_column b c twins col)
      rintro ⟨b, found⟩ ⟨c, _⟩ ⟨twins, rfl⟩
      cases found with
      | dry => exact ih before (col + 1) b c twins
      | exchanged => exact ih .exchanged (col + 1) b c twins
      | loose row col => exact ⟨twins, rfl⟩

theorem twins_search (b c : Board α) (twins : b.Twins c) : Alike TwinsWith b.search c.search := by
  rw [search, search, (twins_covers b c twins).1]
  generalize b.rowCover.size + 1 = sweeps
  induction sweeps generalizing b c with
  | zero => trivial
  | succ n ih =>
      rw [sweepUpTo, sweepUpTo, sweep, sweep, (twins_size b c twins).2]
      apply Alike.bind TwinsWith TwinsWith _ _ _ _ (twins_sweep .dry 0 b.cols b c twins)
      rintro ⟨b, found⟩ ⟨c, _⟩ ⟨twins, rfl⟩
      cases found with
      | dry => exact ⟨twins, rfl⟩
      | exchanged => exact ih b c twins
      | loose row col => exact ⟨twins, rfl⟩

theorem twins_flip_from (cells row col : Nat) (b c : Board α) (twins : b.Twins c) :
    Alike Twins (flipFrom cells row col b) (flipFrom cells row col c) := by
  induction cells generalizing row col b c with
  | zero => trivial
  | succ n ih =>
      rw [flipFrom, flipFrom, twins_column_star b c twins]
      apply Alike.bind_same Twins (liftM (b.columnStar? col))
      intro star
      apply Alike.bind Twins Twins _ _ _ _
        (Alike.map_error _ _ _ _ _ (twins_star b c twins row col true))
      intro b c twins
      cases star with
      | none => exact twins
      | some starRow =>
          apply Alike.bind Twins Twins _ _ _ _
            (Alike.map_error _ _ _ _ _ (twins_star b c twins starRow col false))
          intro b c twins
          rw [twins_row_prime b c twins]
          apply Alike.bind_same Twins (liftM (b.rowPrime? starRow))
          intro prime
          cases prime with
          | none => trivial
          | some primeCol => exact ih starRow primeCol b c twins

theorem twins_flip (b c : Board α) (twins : b.Twins c) (row col : Nat) :
    Alike Twins (b.flip row col) (c.flip row col) := by
  have bound : c.pathBound = b.pathBound := by
    obtain ⟨costs, rfl, _⟩ := twins
    rfl
  rw [flip, flip, bound]
  apply Alike.bind Twins Twins _ _ _ _ (twins_flip_from b.pathBound row col b c twins)
  exact fun b c twins => twins_uncovered _ _ (twins_erased b c twins)

theorem twins_step (phase : Phase) (still : phase ≠ .shift) (b c : Board α) (twins : b.Twins c) :
    Alike TwinsWith (b.step phase) (c.step phase) := by
  cases phase with
  | cover =>
      apply Alike.bind Twins TwinsWith _ _ _ _
        (Alike.map_error _ _ _ _ _ (twins_cover_starred b c twins))
      exact fun b c twins => ⟨twins, rfl⟩
  | check =>
      rw [step, step, twins_check b c twins]
      exact Alike.bind_same TwinsWith (liftM b.check) _ _ fun next => ⟨twins, rfl⟩
  | search => exact Alike.map_error _ _ _ _ _ (twins_search b c twins)
  | flip row col =>
      apply Alike.bind Twins TwinsWith _ _ _ _ (twins_flip b c twins row col)
      exact fun b c twins => ⟨twins, rfl⟩
  | shift => exact absurd rfl still
  | finished => exact ⟨twins, rfl⟩

end LinearAssignment.Board
