import Mathlib

set_option autoImplicit false

namespace LinearAssignment

def FreeZero (zero taken : Nat → Nat → Prop) (line cross : Nat) : Prop :=
  zero line cross ∧ ∀ earlier, earlier < line → ¬ taken earlier cross

def FirstFit (zero taken : Nat → Nat → Prop) (lines : Nat) : Prop :=
  ∀ line cross, taken line cross ↔ line < lines ∧ FreeZero zero taken line cross ∧
    ∀ other, other < cross → ¬ FreeZero zero taken line other

variable {zero taken after : Nat → Nat → Prop} {lines : Nat}

theorem first_fit_start (untaken : ∀ line cross, ¬ taken line cross) : FirstFit zero taken 0 :=
  fun line cross => iff_of_false (untaken line cross) fun facts => Nat.not_lt_zero line facts.1

theorem first_fit_before (fit : FirstFit zero taken lines) (line cross : Nat)
    (here : taken line cross) : line < lines :=
  ((fit line cross).mp here).1

theorem free_zero_kept (zero : Nat → Nat → Prop) (cross : Nat)
    (added : ∀ l c, after l c ↔ (l = lines ∧ c = cross) ∨ taken l c) (line other : Nat)
    (before : line ≤ lines) : FreeZero zero after line other ↔ FreeZero zero taken line other := by
  refine and_congr_right fun _ => forall₂_congr fun earlier order =>
    not_congr ((added earlier other).trans ?_)
  exact or_iff_right fun same => by omega

theorem first_fit_passed (fit : FirstFit zero taken lines)
    (none : ∀ cross, ¬ FreeZero zero taken lines cross) : FirstFit zero taken (lines + 1) := by
  intro line cross
  refine (fit line cross).trans ⟨fun ⟨before, rest⟩ => ⟨by omega, rest⟩,
    fun ⟨before, free, first⟩ => ⟨?_, free, first⟩⟩
  have other : line ≠ lines := fun same => none cross (same ▸ free)
  omega

theorem first_fit_placed (fit : FirstFit zero taken lines) (cross : Nat)
    (free : FreeZero zero taken lines cross)
    (first : ∀ other, other < cross → ¬ FreeZero zero taken lines other)
    (added : ∀ l c, after l c ↔ (l = lines ∧ c = cross) ∨ taken l c) :
    FirstFit zero after (lines + 1) := by
  have kept := free_zero_kept zero cross added
  intro line other
  rw [added line other]
  constructor
  · rintro (⟨rfl, rfl⟩ | here)
    · exact ⟨Nat.lt_succ_self line, (kept line other le_rfl).mpr free, fun c order =>
        (kept line c le_rfl).not.mpr (first c order)⟩
    · obtain ⟨before, freeHere, firstHere⟩ := (fit line other).mp here
      exact ⟨by omega, (kept line other before.le).mpr freeHere, fun c order =>
        (kept line c before.le).not.mpr (firstHere c order)⟩
  · rintro ⟨before, freeHere, firstHere⟩
    have within : line ≤ lines := Nat.le_of_lt_succ before
    rw [kept line other within] at freeHere
    replace firstHere (c : Nat) (order : c < other) :=
      (kept line c within).not.mp (firstHere c order)
    cases within.lt_or_eq with
    | inl earlier => exact Or.inr ((fit line other).mpr ⟨earlier, freeHere, firstHere⟩)
    | inr same =>
        subst same
        refine Or.inl ⟨rfl, le_antisymm ?_ ?_⟩
        · exact not_lt.mp fun order => firstHere cross order free
        · exact not_lt.mp fun order => first other order freeHere

theorem first_fit_maximal (fit : FirstFit zero taken lines) (line cross : Nat)
    (inside : line < lines) (here : zero line cross) :
    (∃ other, taken line other) ∨ ∃ earlier, taken earlier cross := by
  classical
  by_cases free : FreeZero zero taken line cross
  · have some : ∃ other, FreeZero zero taken line other := ⟨cross, free⟩
    exact Or.inl ⟨Nat.find some, (fit line _).mpr ⟨inside, Nat.find_spec some, fun other order =>
      Nat.find_min some order⟩⟩
  · obtain ⟨earlier, _, takenThere⟩ : ∃ earlier, earlier < line ∧ taken earlier cross := by
      by_contra untaken
      exact free ⟨here, fun earlier order takenThere => untaken ⟨earlier, order, takenThere⟩⟩
    exact Or.inr ⟨earlier, takenThere⟩

-- The zeros decide what is taken: the induction is on the line, whose free zeros are told by the
-- lines before it.
theorem first_fit_unique (fit : FirstFit zero taken lines) (fitToo : FirstFit zero after lines)
    (line cross : Nat) : taken line cross ↔ after line cross := by
  induction line using Nat.strong_induction_on generalizing cross with
  | h line ih =>
      have free (other : Nat) : FreeZero zero taken line other ↔ FreeZero zero after line other :=
        and_congr_right fun _ => forall₂_congr fun earlier order =>
          not_congr (ih earlier order other)
      rw [fit line cross, fitToo line cross, free cross]
      simp only [free]

end LinearAssignment
