/-! Checked access, checked counting, requests for buffers and loops that may break off. A fault
leaves nothing of the computation that met it. -/

set_option autoImplicit false

namespace LinearAssignment

inductive Fault where
  | outOfRange
  | overflow
  | outOfMemory
  | noRows
  | brokenCondition
  -- A loop ran longer than it does on any input on which it ends.
  | endless
deriving DecidableEq

-- Sizes and positions are kept in 64 bits.
def word (n : Nat) : Except Fault Nat :=
  if n < UInt64.size then .ok n else .error .overflow

def demand (condition : Bool) (why : Fault) : Except Fault Unit :=
  if condition then .ok () else .error why

section Access

variable {α β ε δ : Type}

@[simp] theorem ok_bind (a : α) (next : α → Except ε β) : (Except.ok a >>= next) = next a := rfl

@[simp] theorem error_bind (why : ε) (next : α → Except ε β) :
    (Except.error why >>= next) = .error why := rfl

@[simp] theorem pure_ok (a : α) : (pure a : Except ε α) = .ok a := rfl

@[simp] theorem ok_map_error (f : ε → δ) (a : α) : (Except.ok a).mapError f = .ok a := rfl

@[simp] theorem error_map_error (f : ε → δ) (why : ε) :
    (Except.error why : Except ε α).mapError f = .error (f why) := rfl

def fetch (cells : Array α) (i : Nat) : Except Fault α :=
  match cells[i]? with
  | some cell => .ok cell
  | none => .error .outOfRange

def store (cells : Array α) (i : Nat) (cell : α) : Except Fault (Array α) :=
  if i < cells.size then .ok (cells.setIfInBounds i cell) else .error .outOfRange

theorem word_ok (n : Nat) (small : n < UInt64.size) : word n = .ok n := if_pos small

theorem fetch_ok (cells : Array α) (i : Nat) (inside : i < cells.size) :
    fetch cells i = .ok cells[i] := by
  simp [fetch, inside]

theorem store_ok (cells : Array α) (i : Nat) (cell : α) (inside : i < cells.size) :
    store cells i cell = .ok (cells.setIfInBounds i cell) := if_pos inside

end Access

inductive Shortage where
  | beyondLimit
  | unavailable
deriving DecidableEq

def Shortage.message : Shortage → String
  | .beyondLimit =>
      "memory allocation failed because the computed capacity exceeded the collection's maximum"
  | .unavailable => "memory allocation failed because the memory allocator returned an error"

structure Memory where
  available : Nat

namespace Memory

def largestBuffer : Nat := UInt64.size / 2 - 1

def request (mem : Memory) (bytes : Nat) : Except Shortage Unit :=
  if largestBuffer < bytes then .error .beyondLimit
  else if mem.available < bytes then .error .unavailable
  else .ok ()

def insist (mem : Memory) (bytes : Nat) : Except Fault Unit :=
  (mem.request bytes).mapError fun _ => .outOfMemory

def blank (mem : Memory) (cells : Nat) : Except Shortage (Array Bool) :=
  (mem.request cells).map fun _ => Array.replicate cells false

theorem request_ok (mem : Memory) (bytes : Nat) (addressed : bytes ≤ largestBuffer)
    (free : bytes ≤ mem.available) : mem.request bytes = .ok () := by
  rw [request, if_neg (by omega), if_neg (by omega)]

end Memory

section Scan

variable {ε α : Type}

def seekFrom (test : Nat → Except ε Bool) (start : Nat) : Nat → Except ε (Option Nat)
  | 0 => .ok none
  | left + 1 => do
    if ← test start then
      return some start
    else
      seekFrom test (start + 1) left

def foldFrom (step : α → Nat → Except ε α) (start : Nat) : Nat → α → Except ε α
  | 0, state => .ok state
  | left + 1, state => do foldFrom step (start + 1) left (← step state start)

theorem seek_from_pure (test : Nat → Except ε Bool) (passes : Nat → Bool) (start left : Nat)
    (agrees : ∀ i, start ≤ i → i < start + left → test i = .ok (passes i)) :
    seekFrom test start left = .ok ((List.range' start left).find? passes) := by
  induction left generalizing start with
  | zero => rfl
  | succ n ih =>
      have head := agrees start (Nat.le_refl _) (by omega)
      have rest := ih (start + 1) fun i after before => agrees i (by omega) (by omega)
      rw [seekFrom, List.range'_succ, List.find?_cons, head, rest]
      cases passes start <;> rfl

theorem fold_from_keeps (step : α → Nat → Except ε α) (keeps : Nat → α → Prop)
    (start left : Nat) (state : α) (first : keeps start state)
    (next : ∀ i s, start ≤ i → i < start + left → keeps i s →
      ∃ t, step s i = .ok t ∧ keeps (i + 1) t) :
    ∃ t, foldFrom step start left state = .ok t ∧ keeps (start + left) t := by
  induction left generalizing start state with
  | zero => exact ⟨state, rfl, first⟩
  | succ n ih =>
      obtain ⟨middle, stepped, kept⟩ := next start state (Nat.le_refl _) (by omega) first
      obtain ⟨last, folded, done⟩ := ih (start + 1) middle kept
        fun i s after before => next i s (by omega) (by omega)
      refine ⟨last, ?_, ?_⟩
      · rw [foldFrom, stepped]
        exact folded
      · rwa [Nat.add_right_comm, Nat.add_assoc] at done

end Scan

end LinearAssignment
