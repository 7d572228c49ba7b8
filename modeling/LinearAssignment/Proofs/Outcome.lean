import LinearAssignment.Halt

set_option autoImplicit false

namespace LinearAssignment

variable {ε σ τ β γ : Type}

theorem bind_ok (first : Except ε β) (next : β → Except ε γ) (c : γ)
    (result : first >>= next = .ok c) : ∃ b, first = .ok b ∧ next b = .ok c := by
  cases first with
  | error why => cases result
  | ok b => exact ⟨b, rfl, result⟩

theorem bind_error (first : Except ε β) (next : β → Except ε γ) (why : ε)
    (result : first >>= next = .error why) :
    first = .error why ∨ ∃ b, first = .ok b ∧ next b = .error why := by
  match first, result with
  | .ok b, result => exact Or.inr ⟨b, rfl, result⟩
  | .error _, result => exact Or.inl (by cases result; rfl)

theorem map_error_ok (f : ε → σ) (result : Except ε β) (b : β)
    (accepted : result.mapError f = .ok b) : result = .ok b := by
  cases result with
  | error why => cases accepted
  | ok same =>
      cases accepted
      rfl

theorem word_inverted (n counted : Nat) (result : word n = .ok counted) :
    counted = n ∧ n < UInt64.size := by
  by_cases small : n < UInt64.size
  · rw [word_ok n small] at result
    exact ⟨(Except.ok.inj result).symm, small⟩
  · rw [word, if_neg small] at result
    cases result

namespace Halt

def left? : Except (Halt σ) σ → Option σ
  | .ok s => some s
  | .error (.refused s _) => some s
  | .error (.fault _) => none

def embed (whole : σ → τ) (result : Except (Halt σ) σ) : Except (Halt τ) τ :=
  within whole (result.map whole)

def Keeps (kept : σ → Prop) (given : β → Prop) : Except (Halt σ) β → Prop
  | .ok b => given b
  | .error (.refused s _) => kept s
  | .error (.fault _) => True

-- A refusal does not come from a computation without a state, but from what follows it.
theorem lift_then_refused (first : Except Fault β) (next : β → Except (Halt σ) γ) (left : σ)
    (why : Error)
    (refused : ((liftM first : Except (Halt σ) β) >>= next) = .error (.refused left why)) :
    ∃ b, next b = .error (.refused left why) := by
  cases first with
  | ok b => exact ⟨b, refused⟩
  | error fault => cases refused

theorem require_then_refused (condition : Bool) (s left : σ) (cause why : Error)
    (next : Unit → Except (Halt σ) γ)
    (refused : (require condition s cause >>= next) = .error (.refused left why)) :
    why = cause ∨ next () = .error (.refused left why) := by
  cases condition with
  | true => exact Or.inr refused
  | false =>
      cases refused
      exact Or.inl rfl

theorem left_kept (kept : σ → Prop) (result : Except (Halt σ) σ) (s : σ)
    (keeps : Keeps kept kept result) (left : left? result = some s) : kept s := by
  match result with
  | .ok t =>
      cases left
      exact keeps
  | .error (.refused t why) =>
      cases left
      exact keeps
  | .error (.fault why) => cases left

theorem keeps_more (less more : σ → Prop) (result : Except (Halt σ) σ)
    (keeps : Keeps less less result) (implies : ∀ s, less s → more s) : Keeps more more result := by
  match result with
  | .ok s => exact implies s keeps
  | .error (.refused s why) => exact implies s keeps
  | .error (.fault why) => trivial

theorem embed_keeps (kept : τ → Prop) (whole : σ → τ) (result : Except (Halt σ) σ)
    (keeps : Keeps (fun s => kept (whole s)) (fun s => kept (whole s)) result) :
    Keeps kept kept (embed whole result) := by
  match result with
  | .ok s => exact keeps
  | .error (.refused s why) => exact keeps
  | .error (.fault why) => trivial

variable (kept : σ → Prop) (given : β → Prop) (done : γ → Prop)

theorem bind_keeps (first : Except (Halt σ) β) (next : β → Except (Halt σ) γ)
    (keeps : Keeps kept given first) (later : ∀ b, given b → Keeps kept done (next b)) :
    Keeps kept done (first >>= next) := by
  match first with
  | .ok b => exact later b keeps
  | .error (.refused s why) => exact keeps
  | .error (.fault why) => trivial

theorem require_then (condition : Bool) (s : σ) (why : Error) (next : Unit → Except (Halt σ) γ)
    (holds : kept s) (later : condition = true → Keeps kept done (next ())) :
    Keeps kept done (require condition s why >>= next) := by
  cases condition with
  | true => exact later rfl
  | false => exact holds

theorem refuse_on_then (s : σ) (cause : ε → Error) (result : Except ε β)
    (next : β → Except (Halt σ) γ) (holds : kept s) (later : ∀ b, Keeps kept done (next b)) :
    Keeps kept done (refuseOn s cause result >>= next) := by
  cases result with
  | ok b => exact later b
  | error why => exact holds

theorem fault_then (result : Except Fault β) (next : β → Except (Halt σ) γ)
    (later : ∀ b, Keeps kept done (next b)) :
    Keeps kept done ((liftM result : Except (Halt σ) β) >>= next) := by
  cases result with
  | ok b => exact later b
  | error why => trivial

theorem within_keeps (part : τ → Prop) (whole : τ → σ) (result : Except (Halt τ) β)
    (keeps : Keeps part given result) (holds : ∀ t, part t → kept (whole t)) :
    Keeps kept given (within whole result) := by
  match result with
  | .ok b => exact keeps
  | .error (.refused t why) => exact holds t keeps
  | .error (.fault why) => trivial

theorem within_then (whole : τ → σ) (result : Except (Halt τ) β) (next : β → Except (Halt σ) γ)
    (holds : ∀ t, kept (whole t)) (later : ∀ b, Keeps kept done (next b)) :
    Keeps kept done (within whole result >>= next) := by
  match result with
  | .ok b => exact later b
  | .error (.refused t why) => exact holds t
  | .error (.fault why) => trivial

def Unfaulted (result : Except (Halt σ) β) : Prop := ∀ why, result ≠ .error (.fault why)

theorem unfaulted_ok (result : Except (Halt σ) β) (b : β) (ok : result = .ok b) :
    Unfaulted result := by
  subst ok
  intro why broken
  cases broken

theorem unfaulted_refused (result : Except (Halt σ) β) (left : σ) (why : Error)
    (refused : result = .error (.refused left why)) : Unfaulted result := by
  subst refused
  intro cause broken
  cases broken

theorem bind_unfaulted (first : Except (Halt σ) β) (next : β → Except (Halt σ) γ)
    (holds : Unfaulted first) (later : ∀ b, first = .ok b → Unfaulted (next b)) :
    Unfaulted (first >>= next) := by
  intro why broken
  cases bind_error _ _ _ broken with
  | inl early => exact holds why early
  | inr facts =>
      obtain ⟨b, ok, broken⟩ := facts
      exact later b ok why broken

theorem within_unfaulted (whole : τ → σ) (result : Except (Halt τ) β) (holds : Unfaulted result) :
    Unfaulted (within whole result) := by
  match result with
  | .ok b => exact unfaulted_ok _ b rfl
  | .error (.refused t why) => exact unfaulted_refused _ (whole t) why rfl
  | .error (.fault why) => exact absurd rfl (holds why)

theorem require_unfaulted (condition : Bool) (s : σ) (why : Error) :
    Unfaulted (require condition s why) := by
  cases condition with
  | true => exact unfaulted_ok _ () rfl
  | false => exact unfaulted_refused _ s why rfl

theorem refuse_on_unfaulted (s : σ) (cause : ε → Error) (result : Except ε β) :
    Unfaulted (refuseOn s cause result) := by
  cases result with
  | ok b => exact unfaulted_ok _ b rfl
  | error why => exact unfaulted_refused _ s (cause why) rfl

end Halt

end LinearAssignment
