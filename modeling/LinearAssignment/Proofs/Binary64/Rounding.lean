import LinearAssignment.Proofs.Binary64.Format

set_option autoImplicit false

namespace LinearAssignment.Binary64

open Float.Model Float.Model.UnpackedFloat

theorem shift_right (m k : Nat) :
    (ExtendedMantissa.ofMantissaAndAccuracy m .exact >>> k).mantissa = m / 2 ^ k ∧
      ((ExtendedMantissa.ofMantissaAndAccuracy m .exact >>> k).roundBit ||
        (ExtendedMantissa.ofMantissaAndAccuracy m .exact >>> k).stickyBit) =
        decide (m % 2 ^ k ≠ 0) := by
  induction k with
  | zero =>
      simp [HShiftRight.hShiftRight, Nat.repeat, ExtendedMantissa.ofMantissaAndAccuracy,
        Nat.mod_one]
  | succ k ih =>
      have unfolded :
          ExtendedMantissa.ofMantissaAndAccuracy m .exact >>> (k + 1) =
            (ExtendedMantissa.ofMantissaAndAccuracy m .exact >>> k).shiftRightOne :=
        rfl
      rw [unfolded]
      simp only [ExtendedMantissa.shiftRightOne, ih.1, ih.2]
      refine ⟨by rw [Nat.div_div_eq_div_mul, pow_succ], ?_⟩
      have split : m % 2 ^ (k + 1) = m % 2 ^ k + 2 ^ k * (m / 2 ^ k % 2) := by
        rw [pow_succ, Nat.mod_mul]
      have power : 0 < 2 ^ k := by positivity
      have bit := Nat.mod_two_eq_zero_or_one (m / 2 ^ k)
      rw [split]
      cases bit with
      | inl even => simp [even]
      | inr odd => simp [odd]

def roundOff (m k : Nat) : Nat :=
  (ExtendedMantissa.ofMantissaAndAccuracy m .exact >>> k).roundedMantissa

theorem rounded_mantissa_near (em : ExtendedMantissa) :
    em.mantissa ≤ em.roundedMantissa ∧ em.roundedMantissa ≤ em.mantissa + 1 ∧
      ((em.roundBit || em.stickyBit) = false → em.roundedMantissa = em.mantissa) := by
  obtain ⟨m, round, sticky⟩ := em
  have parity := Nat.mod_two_eq_zero_or_one m
  cases round <;> cases sticky <;>
    simp [ExtendedMantissa.roundedMantissa, ExtendedMantissa.accuracy, Accuracy.roundToNearestEven]
  omega

theorem round_off_lower (m k n : Nat) (below : n * 2 ^ k ≤ m) : n ≤ roundOff m k := by
  have near := (rounded_mantissa_near (ExtendedMantissa.ofMantissaAndAccuracy m .exact >>> k)).1
  rw [(shift_right m k).1] at near
  exact ((Nat.le_div_iff_mul_le (by positivity)).mpr below).trans near

theorem round_off_upper (m k n : Nat) (above : m ≤ n * 2 ^ k) : roundOff m k ≤ n := by
  have near := rounded_mantissa_near (ExtendedMantissa.ofMantissaAndAccuracy m .exact >>> k)
  obtain ⟨quotient, bits⟩ := shift_right m k
  rw [quotient, bits] at near
  have power : 0 < 2 ^ k := by positivity
  by_cases whole : m % 2 ^ k = 0
  · have exactly : roundOff m k = m / 2 ^ k := near.2.2 (by simp [whole])
    rw [exactly]
    exact Nat.div_le_of_le_mul (by rwa [Nat.mul_comm])
  · have strict : m / 2 ^ k < n := by
      rw [Nat.div_lt_iff_lt_mul power]
      refine lt_of_le_of_ne above ?_
      intro same
      exact whole (by rw [same, Nat.mul_mod_left])
    exact near.2.1.trans strict

-- A rounded mantissa of 54 bits is 2 ^ 53 and loses a last zero.
def settled (s : Sign) (r : Nat) (t : Int) : UnpackedFloat :=
  if zero : r = 0 then .zero s
  else if r < 2 ^ 53 then .finite s r t (Nat.pos_of_ne_zero zero)
  else .finite s (2 ^ 52) (t + 1) (by norm_num)

def target (m : Nat) (e : Int) : Int := max (m.log2 + 1 + e - 53) (-1074)

theorem shift_to_target (m : Nat) (e : Int) (below : e ≤ target m e) :
    (shiftToTargetExponent Format.binary64 m e .exact).1.roundedMantissa =
        roundOff m (target m e - e).toNat ∧
      (shiftToTargetExponent Format.binary64 m e .exact).2 = target m e := by
  refine ⟨rfl, ?_⟩
  change e + ((target m e - e).toNat : Int) = target m e
  omega

theorem shift_kept (r : Nat) (t : Int) (small : r < 2 ^ 53) (low : -1074 ≤ t) :
    shiftToTargetExponent Format.binary64 r t .exact = (⟨r, false, false⟩, t) := by
  have bits : r.log2 < 53 := by
    by_cases zero : r = 0
    · simp [zero]
    · exact (Nat.log2_lt zero).mpr small
  have still : (target r t - t).toNat = 0 := by
    unfold target
    omega
  change (ExtendedMantissa.ofMantissaAndAccuracy r .exact >>> (target r t - t).toNat,
    t + ((target r t - t).toNat : Int)) = _
  rw [still]
  simp [HShiftRight.hShiftRight, Nat.repeat, ExtendedMantissa.ofMantissaAndAccuracy]

theorem shift_carried (t : Int) (low : -1074 ≤ t) :
    shiftToTargetExponent Format.binary64 (2 ^ 53) t .exact = (⟨2 ^ 52, false, false⟩, t + 1) := by
  have one : (target (2 ^ 53) t - t).toNat = 1 := by
    unfold target
    rw [Nat.log2_two_pow]
    omega
  change (ExtendedMantissa.ofMantissaAndAccuracy (2 ^ 53) .exact >>> (target (2 ^ 53) t - t).toNat,
    t + ((target (2 ^ 53) t - t).toNat : Int)) = _
  rw [one]
  rfl

theorem round_off_bits (m : Nat) (e : Int) (below : e ≤ target m e) :
    roundOff m (target m e - e).toNat ≤ 2 ^ 53 := by
  apply round_off_upper
  have bits : m < 2 ^ (m.log2 + 1) := Nat.lt_log2_self
  have enough : m.log2 + 1 ≤ 53 + (target m e - e).toNat := by
    unfold target at below ⊢
    omega
  rw [← pow_add]
  exact (bits.trans_le (Nat.pow_le_pow_right (by norm_num) enough)).le

theorem round_with_accuracy (s : Sign) (m : Nat) (e : Int) (below : e ≤ target m e) :
    roundWithAccuracy Format.binary64 s m e .exact =
      settled s (roundOff m (target m e - e).toNat) (target m e) := by
  obtain ⟨mantissa, exponent⟩ := shift_to_target m e below
  have low : -1074 ≤ target m e := le_max_right _ _
  have bits := round_off_bits m e below
  unfold roundWithAccuracy
  generalize shiftToTargetExponent Format.binary64 m e .exact = first at mantissa exponent ⊢
  obtain ⟨em, t⟩ := first
  dsimp only at mantissa exponent ⊢
  rw [mantissa, exponent]
  cases bits.lt_or_eq with
  | inl small =>
      rw [shift_kept _ _ small low]
      simp only [settled, if_pos small]
  | inr carried =>
      rw [carried, shift_carried _ low]
      simp [settled]

end LinearAssignment.Binary64
