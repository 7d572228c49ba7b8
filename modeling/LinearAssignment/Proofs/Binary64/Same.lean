import LinearAssignment.Proofs.Binary64.Arithmetic

/-! Doubles that are the same up to the sign of zero; whatever is computed from them is the same
again. -/

set_option autoImplicit false

namespace LinearAssignment.Binary64

open Float.Model Float.Model.UnpackedFloat

def Same (x y : Float) : Prop := (x == y) = true ∨ x.isNaN = true ∧ y.isNaN = true

def SameUnpacked (a b : UnpackedFloat) : Prop := a = b ∨ (∃ s, a = .zero s) ∧ ∃ t, b = .zero t

theorem compare_equal (a b : UnpackedFloat) :
    a.compare b = some .eq ↔ a.isNaN = false ∧ SameUnpacked a b := by
  cases a with
  | notANumber => simp [UnpackedFloat.compare, UnpackedFloat.isNaN]
  | infinity s =>
      cases b <;> cases s <;> try cases ‹Sign›
      all_goals simp [UnpackedFloat.compare, UnpackedFloat.isNaN, SameUnpacked, compare]
  | zero s =>
      cases b <;> try cases ‹Sign›
      all_goals simp [UnpackedFloat.compare, UnpackedFloat.isNaN, SameUnpacked]
  | finite s m e positive =>
      cases b <;> cases s <;> try cases ‹Sign›
      all_goals simp [UnpackedFloat.compare, UnpackedFloat.isNaN, SameUnpacked, and_comm]

theorem same_unpacked (x y : Float) :
    Same x y ↔ SameUnpacked x.toModel.unpack y.toModel.unpack := by
  change (x.toModel.unpack.compare y.toModel.unpack == some .eq) = true ∨
    x.toModel.unpack.isNaN = true ∧ y.toModel.unpack.isNaN = true ↔ _
  rw [beq_iff_eq, compare_equal]
  generalize x.toModel.unpack = a
  generalize y.toModel.unpack = b
  cases a <;> cases b <;> simp [UnpackedFloat.isNaN, SameUnpacked]

theorem same_refl (x : Float) : Same x x := (same_unpacked x x).mpr (Or.inl rfl)

theorem same_symm (x y : Float) (same : Same x y) : Same y x := by
  rw [same_unpacked] at same ⊢
  exact same.imp Eq.symm And.symm

theorem same_of_height (x y : Float) (numberX : x.isNaN = false) (numberY : y.isNaN = false)
    (level : height x = height y) : Same x y := by
  refine (same_unpacked x y).mpr ((compare_equal _ _).mp ?_).2
  rw [compare_level _ _ (unpacked_canonical x) (unpacked_canonical y) numberX numberY]
  exact congrArg some (compare_eq_iff_eq.mpr level)

section

variable {x y : Float} (same : Same x y)

include same

theorem same_height : height x = height y := by
  rw [same_unpacked] at same
  change level x.toModel.unpack = level y.toModel.unpack
  rcases same with same | ⟨⟨s, zeroX⟩, t, zeroY⟩
  · rw [same]
  · rw [zeroX, zeroY]
    rfl

theorem same_number : x.isNaN = y.isNaN := by
  rw [same_unpacked] at same
  change x.toModel.unpack.isNaN = y.toModel.unpack.isNaN
  rcases same with same | ⟨⟨s, zeroX⟩, t, zeroY⟩
  · rw [same]
  · rw [zeroX, zeroY]
    rfl

theorem same_finite : x.isFinite = y.isFinite := by
  rw [same_unpacked] at same
  change x.toModel.unpack.isFinite = y.toModel.unpack.isFinite
  rcases same with same | ⟨⟨s, zeroX⟩, t, zeroY⟩
  · rw [same]
  · rw [zeroX, zeroY]
    rfl

theorem same_zero : (x == 0) = (y == 0) := by
  rw [same_unpacked] at same
  change (x.toModel.unpack.compare (.zero .positive) == some .eq) =
    (y.toModel.unpack.compare (.zero .positive) == some .eq)
  rcases same with same | ⟨⟨s, zeroX⟩, t, zeroY⟩
  · rw [same]
  · rw [zeroX, zeroY]
    rfl

end

theorem reread_same (a b : UnpackedFloat) (same : SameUnpacked a b) :
    SameUnpacked (reread a) (reread b) := by
  rcases same with rfl | ⟨⟨s, rfl⟩, t, rfl⟩
  · exact Or.inl rfl
  · exact Or.inr ⟨⟨s, unpack_pack _ trivial⟩, t, unpack_pack _ trivial⟩

section

variable {a b c d : UnpackedFloat} (first : SameUnpacked a b) (second : SameUnpacked c d)

include first second

theorem compare_same : a.compare c = b.compare d := by
  rcases first with rfl | ⟨⟨s, rfl⟩, t, rfl⟩ <;> rcases second with rfl | ⟨⟨u, rfl⟩, v, rfl⟩
  · rfl
  · cases a <;> try cases ‹Sign›
    all_goals rfl
  · cases c <;> try cases ‹Sign›
    all_goals rfl
  · rfl

theorem sub_same :
    SameUnpacked (UnpackedFloat.sub Format.binary64 a c)
      (UnpackedFloat.sub Format.binary64 b d) := by
  have zeros (s t : Sign) : ∃ u, UnpackedFloat.sub Format.binary64 (.zero s) (.zero t) =
      .zero u := by
    cases s <;> cases t <;> exact ⟨_, rfl⟩
  rcases first with rfl | ⟨⟨s, rfl⟩, t, rfl⟩ <;> rcases second with rfl | ⟨⟨u, rfl⟩, v, rfl⟩
  · exact Or.inl rfl
  · cases a with
    | zero s => exact Or.inr ⟨zeros s u, zeros s v⟩
    | _ => exact Or.inl rfl
  · cases c with
    | zero u => exact Or.inr ⟨zeros s u, zeros t u⟩
    | _ => exact Or.inl rfl
  · exact Or.inr ⟨zeros s u, zeros t v⟩

theorem mul_same :
    SameUnpacked (UnpackedFloat.mul Format.binary64 a c)
      (UnpackedFloat.mul Format.binary64 b d) := by
  rcases first with rfl | ⟨⟨s, rfl⟩, t, rfl⟩ <;> rcases second with rfl | ⟨⟨u, rfl⟩, v, rfl⟩
  · exact Or.inl rfl
  · cases a with
    | zero s => exact Or.inr ⟨⟨_, rfl⟩, _, rfl⟩
    | finite s m e positive => exact Or.inr ⟨⟨_, rfl⟩, _, rfl⟩
    | _ => exact Or.inl rfl
  · cases c with
    | zero u => exact Or.inr ⟨⟨_, rfl⟩, _, rfl⟩
    | finite u m e positive => exact Or.inr ⟨⟨_, rfl⟩, _, rfl⟩
    | _ => exact Or.inl rfl
  · exact Or.inr ⟨⟨_, rfl⟩, _, rfl⟩

end

section

variable {x y u v : Float} (first : Same x y) (second : Same u v)

include first second

theorem same_less : x < u ↔ y < v := by
  rw [less_unpacked, less_unpacked,
    compare_same ((same_unpacked x y).mp first) ((same_unpacked u v).mp second)]

theorem same_difference : Same (x - u) (y - v) :=
  (same_unpacked _ _).mpr
    (reread_same _ _ (sub_same ((same_unpacked x y).mp first) ((same_unpacked u v).mp second)))

theorem same_product : Same (x * u) (y * v) :=
  (same_unpacked _ _).mpr
    (reread_same _ _ (mul_same ((same_unpacked x y).mp first) ((same_unpacked u v).mp second)))

end

end LinearAssignment.Binary64
