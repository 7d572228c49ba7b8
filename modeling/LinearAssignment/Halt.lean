import LinearAssignment.Fault

/-! What a request can be refused for. An operation on a state of type `σ` ends early with a
refusal, which says what it leaves of the state, or with a fault, which leaves nothing. -/

set_option autoImplicit false

namespace LinearAssignment

inductive NonFinite where
  | infinity
  | negativeInfinity
  | notANumber
deriving DecidableEq

namespace NonFinite

def of (value : Float) : NonFinite :=
  if value.isNaN then .notANumber else if 0 < value then .infinity else .negativeInfinity

def text : NonFinite → String
  | infinity => "inf"
  | negativeInfinity => "-inf"
  | notANumber => "NaN"

end NonFinite

inductive Error where
  | tooManyRows (rows limit : Nat)
  | tooManyColumns (cols limit : Nat)
  | tableTooLarge
  | tableShortage (why : Shortage)
  | markShortage (cells : Nat) (why : Shortage)
  | reportShortage (why : Shortage)
  | cellOutside
  | cellOutOfOrder
  | columnLength (given rows : Nat)
  | columnOutside (column cols : Nat)
  | columnOutOfOrder
  | tableLength (rows cols given : Nat)
  | incomplete (given expected : Nat)
  | nonFinite (kind : NonFinite) (row col : Nat)
  | nothingUncovered
  | noPartner (row col : Nat)
  | columnDoesNotFit (column : Nat)
  | rowCountDoesNotFit
deriving DecidableEq

def Error.message : Error → String
  | tooManyRows rows limit => s!"Condition failed: `num_rows < I::max_value()` ({rows} vs {limit})"
  | tooManyColumns cols limit =>
      s!"Condition failed: `num_cols < I::max_value()` ({cols} vs {limit})"
  | tableTooLarge => "cost matrix size overflows usize"
  | tableShortage why => s!"unable to allocate cost matrix: {why.message}"
  | markShortage cells why => s!"unable to allocate {cells} working cells: {why.message}"
  | reportShortage why => s!"unable to allocate assignment vector: {why.message}"
  | cellOutside => "Condition failed: `row_usize < num_rows && column < self.num_cols()`"
  | cellOutOfOrder => "values must be added in column-major order"
  | columnLength given rows => s!"Condition failed: `values.len() == num_rows` ({given} vs {rows})"
  | columnOutside column cols =>
      s!"Condition failed: `column < self.num_cols()` ({column} vs {cols})"
  | columnOutOfOrder => "columns must be added in order"
  | tableLength rows cols given => s!"expected {rows}x{cols} values, got {given}"
  | incomplete given expected => s!"cost matrix is incomplete: {given} of {expected} values"
  | nonFinite kind row col => s!"non-finite cost {kind.text} at row {row}, column {col}"
  | nothingUncovered => "no uncovered cost left to update"
  | noPartner row col => s!"starred zero at ({row}, {col}) has no primed partner"
  | columnDoesNotFit column => s!"column {column} does not fit index type"
  | rowCountDoesNotFit => "row count does not fit index type"

inductive Halt (σ : Type) where
  | fault (why : Fault)
  | refused (left : σ) (why : Error)
deriving DecidableEq

namespace Halt

variable {σ τ : Type}

def map (f : σ → τ) : Halt σ → Halt τ
  | fault why => .fault why
  | refused left why => .refused (f left) why

end Halt

variable {σ τ ε β : Type}

instance : MonadLift (Except Fault) (Except (Halt σ)) where
  monadLift result := result.mapError .fault

@[simp] theorem lift_ok (b : β) :
    (liftM (Except.ok b : Except Fault β) : Except (Halt σ) β) = .ok b := rfl

@[simp] theorem lift_error (why : Fault) :
    (liftM (Except.error why : Except Fault β) : Except (Halt σ) β) = .error (.fault why) := rfl

def refuse (left : σ) (why : Error) : Except (Halt σ) β := .error (.refused left why)

def require (condition : Bool) (left : σ) (why : Error) : Except (Halt σ) Unit :=
  if condition then .ok () else refuse left why

def refuseOn (left : σ) (cause : ε → Error) (result : Except ε β) : Except (Halt σ) β :=
  result.mapError fun why => .refused left (cause why)

@[simp] theorem refuse_on_ok (left : σ) (cause : ε → Error) (b : β) :
    refuseOn left cause (.ok b) = .ok b := rfl

@[simp] theorem refuse_on_error (left : σ) (cause : ε → Error) (why : ε) :
    (refuseOn left cause (.error why) : Except (Halt σ) β) = .error (.refused left (cause why)) :=
  rfl

def within (whole : σ → τ) (result : Except (Halt σ) β) : Except (Halt τ) β :=
  result.mapError (Halt.map whole)

@[simp] theorem within_ok (whole : σ → τ) (b : β) : within whole (.ok b) = .ok b := rfl

@[simp] theorem within_error (whole : σ → τ) (halt : Halt σ) :
    (within whole (.error halt) : Except (Halt τ) β) = .error (halt.map whole) := rfl

end LinearAssignment
