import LinearAssignment.Proofs.Binary64.Rounding

set_option autoImplicit false

namespace LinearAssignment.Binary64

open Float.Model Float.Model.UnpackedFloat

def OnGrid (w : ℚ) : Prop := ∃ (j : ℕ) (f : ℤ), j < 2 ^ 53 ∧ -1074 ≤ f ∧ f ≤ 971 ∧ w = j * 2 ^ f

theorem two_zpow_split (t e : ℤ) (k : ℕ) (apart : t = e + k) : (2 : ℚ) ^ t = 2 ^ k * 2 ^ e := by
  rw [apart, zpow_add₀ (by norm_num), zpow_natCast, mul_comm]

-- Below the last place of the target the grid is finer, but all of it lies below the leading bit.
theorem grid_far (m j : ℕ) (e f : ℤ) (positive : 0 < m) (below : e ≤ target m e)
    (small : j < 2 ^ 53) (fine : f < target m e) (low : -1074 ≤ f) :
    2 ^ 52 ≤ roundOff m (target m e - e).toNat ∧ (j : ℚ) * 2 ^ f < 2 ^ 52 * 2 ^ target m e ∧
      2 ^ 52 * (2 : ℚ) ^ target m e ≤ m * 2 ^ e := by
  obtain ⟨k, apart⟩ : ∃ k : ℕ, target m e = e + k := ⟨(target m e - e).toNat, by omega⟩
  have bits : m.log2 = 52 + k := by
    unfold target at apart fine
    omega
  have leading : 2 ^ 52 * 2 ^ k ≤ m := by
    rw [← pow_add, ← bits]
    exact Nat.log2_self_le positive.ne'
  have shift : (target m e - e).toNat = k := by omega
  refine ⟨round_off_lower m _ _ (by rwa [shift]), ?_, ?_⟩
  · have step : (2 : ℚ) ^ (f + 1) ≤ 2 ^ target m e := zpow_le_zpow_right₀ (by norm_num) (by omega)
    rw [zpow_add_one₀ (by norm_num)] at step
    have bound : (j : ℚ) < 2 ^ 53 := by exact_mod_cast small
    have power : (0 : ℚ) < 2 ^ f := by positivity
    nlinarith
  · rw [two_zpow_split _ e k apart, ← mul_assoc]
    have cast : ((2 ^ 52 * 2 ^ k : ℕ) : ℚ) ≤ m := by exact_mod_cast leading
    push_cast at cast
    exact mul_le_mul_of_nonneg_right cast (by positivity)

theorem grid_near (m j : ℕ) (e f : ℤ) (below : e ≤ target m e) (coarse : target m e ≤ f) :
    ∃ n : ℕ, (j : ℚ) * 2 ^ f = n * 2 ^ target m e ∧
      ((j : ℚ) * 2 ^ f ≤ m * 2 ^ e ↔ n * 2 ^ (target m e - e).toNat ≤ m) ∧
      ((m : ℚ) * 2 ^ e ≤ j * 2 ^ f ↔ m ≤ n * 2 ^ (target m e - e).toNat) := by
  have whole : (j : ℚ) * 2 ^ f = (j * 2 ^ (f - target m e).toNat : ℕ) * 2 ^ target m e := by
    rw [two_zpow_split f (target m e) (f - target m e).toNat (by omega)]
    push_cast
    ring
  have scale := two_zpow_split (target m e) e (target m e - e).toNat (by omega)
  have power : (0 : ℚ) < 2 ^ e := by positivity
  refine ⟨j * 2 ^ (f - target m e).toNat, whole, ?_, ?_⟩
  · rw [whole, scale, ← mul_assoc, mul_le_mul_iff_left₀ power]
    exact_mod_cast Iff.rfl
  · rw [whole, scale, ← mul_assoc, mul_le_mul_iff_left₀ power]
    exact_mod_cast Iff.rfl

theorem round_off_between (m : ℕ) (e : ℤ) (w : ℚ) (positive : 0 < m) (below : e ≤ target m e)
    (grid : OnGrid w) :
    (w ≤ m * 2 ^ e → w ≤ roundOff m (target m e - e).toNat * 2 ^ target m e) ∧
      ((m : ℚ) * 2 ^ e ≤ w → roundOff m (target m e - e).toNat * 2 ^ target m e ≤ w) := by
  obtain ⟨j, f, small, low, _, rfl⟩ := grid
  have power : (0 : ℚ) < 2 ^ target m e := by positivity
  by_cases coarse : target m e ≤ f
  · obtain ⟨n, whole, lower, upper⟩ := grid_near m j e f below coarse
    rw [lower, upper, whole]
    constructor
    · intro under
      have kept : (n : ℚ) ≤ roundOff m (target m e - e).toNat := by
        exact_mod_cast round_off_lower m _ n under
      exact mul_le_mul_of_nonneg_right kept power.le
    · intro above
      have kept : (roundOff m (target m e - e).toNat : ℚ) ≤ n := by
        exact_mod_cast round_off_upper m _ n above
      exact mul_le_mul_of_nonneg_right kept power.le
  · obtain ⟨leading, beneath, value⟩ := grid_far m j e f positive below small (by omega) low
    constructor
    · intro _
      have kept : (2 : ℚ) ^ 52 ≤ roundOff m (target m e - e).toNat := by exact_mod_cast leading
      exact beneath.le.trans (mul_le_mul_of_nonneg_right kept power.le)
    · intro above
      exact absurd (value.trans above) (not_le.mpr beneath)

def worth : UnpackedFloat → ℚ
  | .finite s m e _ => s.apply m * 2 ^ e
  | _ => 0

def reread (u : UnpackedFloat) : UnpackedFloat :=
  UnpackedFloat.unpack Format.binary64 (UnpackedFloat.pack Format.binary64 u)

theorem worth_settled (s : Sign) (r : ℕ) (t : ℤ) (bits : r ≤ 2 ^ 53) :
    worth (settled s r t) = s.apply r * 2 ^ t := by
  unfold settled
  split
  · rename_i zero
    cases s <;> simp [worth, zero, Sign.apply]
  · split
    · rfl
    · have full : r = 2 ^ 53 := by omega
      rw [worth, full, zpow_add_one₀ (by norm_num)]
      cases s <;> norm_num [Sign.apply] <;> ring

theorem below_ceiling (j : ℕ) (f c : ℤ) (small : j < 2 ^ 53) (high : f ≤ c) :
    (j : ℚ) * 2 ^ f < 2 ^ 53 * 2 ^ c := by
  have bound : (j : ℚ) < 2 ^ 53 := by exact_mod_cast small
  have power : (2 : ℚ) ^ f ≤ 2 ^ c := zpow_le_zpow_right₀ (by norm_num) high
  calc (j : ℚ) * 2 ^ f ≤ j * 2 ^ c := mul_le_mul_of_nonneg_left power (by positivity)
    _ < 2 ^ 53 * 2 ^ c := mul_lt_mul_of_pos_right bound (by positivity)

theorem above_ceiling (r : ℕ) (t c : ℤ) (large : 2 ^ 52 ≤ r ∧ c < t ∨ 2 ^ 53 ≤ r ∧ c ≤ t) :
    (2 : ℚ) ^ 53 * 2 ^ c ≤ r * 2 ^ t := by
  cases large with
  | inl facts =>
      obtain ⟨leading, high⟩ := facts
      have bound : (2 : ℚ) ^ 52 ≤ r := by exact_mod_cast leading
      have power : (2 : ℚ) ^ (c + 1) ≤ 2 ^ t := zpow_le_zpow_right₀ (by norm_num) (by omega)
      rw [zpow_add_one₀ (by norm_num)] at power
      calc (2 : ℚ) ^ 53 * 2 ^ c = (2 : ℚ) ^ 52 * ((2 : ℚ) ^ c * 2) := by ring
        _ ≤ (r : ℚ) * (2 : ℚ) ^ t := mul_le_mul bound power (by positivity) (by positivity)
  | inr facts =>
      obtain ⟨leading, high⟩ := facts
      have bound : (2 : ℚ) ^ 53 ≤ r := by exact_mod_cast leading
      have power : (2 : ℚ) ^ c ≤ 2 ^ t := zpow_le_zpow_right₀ (by norm_num) high
      exact mul_le_mul bound power (by positivity) (by positivity)

theorem settled_reread (s : Sign) (r : ℕ) (t : ℤ) (bits : r ≤ 2 ^ 53) (low : -1074 ≤ t)
    (normal : 2 ^ 52 ≤ r ∨ t = -1074) :
    reread (settled s r t) = settled s r t ∨
      reread (settled s r t) = .infinity s ∧ ∀ w, OnGrid w → w < r * 2 ^ t := by
  have beyond (large : 2 ^ 52 ≤ r ∧ 971 < t ∨ 2 ^ 53 ≤ r ∧ 971 ≤ t) (w : ℚ) (grid : OnGrid w) :
      w < r * 2 ^ t := by
    obtain ⟨j, f, small, _, high, rfl⟩ := grid
    exact (below_ceiling j f 971 small high).trans_le (above_ceiling r t 971 large)
  by_cases zero : r = 0
  · left
    simp only [settled, zero, dif_pos]
    exact unpack_pack _ trivial
  by_cases small : r < 2 ^ 53
  · simp only [settled, zero, dif_neg, not_false_iff, small, if_pos]
    by_cases high : t ≤ 971
    · left
      exact unpack_pack _ ⟨small, low, high, normal⟩
    · right
      exact ⟨unpack_overflow s r t _ (by omega),
        beyond (Or.inl ⟨normal.resolve_right (by omega), by omega⟩)⟩
  · simp only [settled, zero, dif_neg, not_false_iff, small, if_neg]
    by_cases high : t + 1 ≤ 971
    · left
      exact unpack_pack _ ⟨by norm_num, by omega, high, Or.inl le_rfl⟩
    · right
      exact ⟨unpack_overflow s _ _ _ (by omega), beyond (Or.inr ⟨by omega, by omega⟩)⟩

def RoundsTo (s : Sign) (v : ℚ) (u : UnpackedFloat) : Prop :=
  (u = .infinity s ∧ ∀ w, OnGrid w → w < v) ∨ ∃ q : ℚ, 0 ≤ q ∧ u.isFinite ∧
    worth u = (s.apply 1 : ℤ) * q ∧ ∀ w, OnGrid w → (w ≤ v → w ≤ q) ∧ (v ≤ w → q ≤ w)

theorem settled_finite (s : Sign) (r : ℕ) (t : ℤ) : (settled s r t).isFinite := by
  unfold settled
  split
  · rfl
  · split <;> rfl

theorem target_scaled (m k : ℕ) (e : ℤ) (positive : 0 < m) :
    target (m <<< k) (e - k) = target m e := by
  have bits : (m * 2 ^ k).log2 = m.log2 + k := by
    rw [Nat.log2_eq_iff (by positivity)]
    have lower := Nat.mul_le_mul_right (2 ^ k) (Nat.log2_self_le positive.ne')
    have upper :=
      Nat.mul_lt_mul_of_pos_right (Nat.lt_log2_self (n := m)) (show 0 < 2 ^ k by positivity)
    rw [← pow_add] at lower upper
    exact ⟨lower, by rwa [show m.log2 + k + 1 = m.log2 + 1 + k by omega]⟩
  rw [target, target, Nat.shiftLeft_eq, bits]
  push_cast
  congr 1
  ring

theorem rounds_accurately (s : Sign) (m : ℕ) (e : ℤ) (positive : 0 < m) (below : e ≤ target m e) :
    RoundsTo s (m * 2 ^ e) (reread (roundWithAccuracy Format.binary64 s m e .exact)) := by
  have bits := round_off_bits m e below
  have between := fun w grid => round_off_between m e w positive below grid
  have low : -1074 ≤ target m e := le_max_right _ _
  have normal : 2 ^ 52 ≤ roundOff m (target m e - e).toNat ∨ target m e = -1074 := by
    by_cases lowest : target m e = -1074
    · exact Or.inr lowest
    · left
      exact (grid_far m 0 e (target m e - 1) positive below (by norm_num) (by omega) (by omega)).1
  rw [round_with_accuracy s m e below]
  cases settled_reread s _ _ bits low normal with
  | inl kept =>
      right
      rw [kept]
      refine ⟨roundOff m (target m e - e).toNat * 2 ^ target m e, by positivity,
        settled_finite _ _ _, ?_, between⟩
      rw [worth_settled s _ _ bits]
      cases s <;> simp [Sign.apply]
  | inr facts =>
      obtain ⟨overflow, beyond⟩ := facts
      left
      refine ⟨overflow, fun w grid => ?_⟩
      by_contra above
      exact absurd ((between w grid).2 (not_lt.mp above)) (not_le.mpr (beyond w grid))

theorem rounds (s : Sign) (m : ℕ) (e : ℤ) (positive : 0 < m) :
    RoundsTo s (m * 2 ^ e) (reread (UnpackedFloat.round Format.binary64 s m e)) := by
  change RoundsTo s (m * 2 ^ e) (reread (roundWithAccuracy Format.binary64 s
    (m <<< (e - target m e).toNat) (e - ((e - target m e).toNat : ℤ)) .exact))
  have aligned := target_scaled m (e - target m e).toNat e positive
  have exact :
      ((m <<< (e - target m e).toNat : ℕ) : ℚ) * 2 ^ (e - ((e - target m e).toNat : ℤ)) =
        m * 2 ^ e := by
    rw [Nat.shiftLeft_eq,
      two_zpow_split e (e - ((e - target m e).toNat : ℤ)) (e - target m e).toNat (by omega)]
    push_cast
    ring
  rw [← exact]
  apply rounds_accurately
  · rw [Nat.shiftLeft_eq]
    positivity
  · rw [aligned]
    omega

def level : UnpackedFloat → WithBot (WithTop ℚ)
  | .infinity .negative => ⊥
  | .infinity .positive => ⊤
  | u => (worth u : WithTop ℚ)

theorem level_finite (u : UnpackedFloat) (finite : u.isFinite) :
    level u = (worth u : WithTop ℚ) := by
  cases u with
  | infinity s => simp [UnpackedFloat.isFinite] at finite
  | notANumber => rfl
  | zero s => rfl
  | finite s m e positive => rfl

def Representable (w : ℚ) : Prop := OnGrid |w|

def Follows (v : ℚ) (u : UnpackedFloat) : Prop :=
  u.isNaN = false ∧ ∀ w, Representable w →
    (w ≤ v → ((w : WithTop ℚ) : WithBot (WithTop ℚ)) ≤ level u) ∧
    (v ≤ w → level u ≤ ((w : WithTop ℚ) : WithBot (WithTop ℚ)))

theorem follows_of_rounds (s : Sign) (v : ℚ) (u : UnpackedFloat) (size : 0 ≤ v)
    (rounded : RoundsTo s v u) : Follows ((s.apply 1 : ℤ) * v) u := by
  cases rounded with
  | inl facts =>
      obtain ⟨rfl, beyond⟩ := facts
      refine ⟨rfl, fun w grid => ?_⟩
      cases s with
      | positive =>
          refine ⟨fun _ => le_top, fun above => ?_⟩
          simp only [Sign.apply, Int.cast_one, one_mul] at above
          have inside := beyond _ grid
          rw [abs_of_nonneg (size.trans above)] at inside
          exact absurd above (not_le.mpr inside)
      | negative =>
          refine ⟨fun under => ?_, fun _ => bot_le⟩
          simp only [Sign.apply, Int.cast_neg, Int.cast_one, neg_mul, one_mul] at under
          have inside := beyond _ grid
          rw [abs_of_nonpos (by linarith)] at inside
          linarith
  | inr facts =>
      obtain ⟨q, nonneg, finite, worthEq, between⟩ := facts
      refine ⟨by cases u <;> simp_all [UnpackedFloat.isFinite, UnpackedFloat.isNaN], fun w grid =>
        ?_⟩
      rw [level_finite u finite, WithBot.coe_le_coe, WithBot.coe_le_coe, WithTop.coe_le_coe,
        WithTop.coe_le_coe, worthEq]
      obtain ⟨lower, upper⟩ := between _ grid
      cases s with
      | positive =>
          simp only [Sign.apply, Int.cast_one, one_mul]
          cases le_total 0 w with
          | inl positive =>
              rw [abs_of_nonneg positive] at lower upper
              exact ⟨lower, upper⟩
          | inr negative =>
              refine ⟨fun _ => negative.trans nonneg, fun above => ?_⟩
              have zero : w = 0 := le_antisymm negative (size.trans above)
              subst zero
              simpa using upper (by simpa using above)
      | negative =>
          simp only [Sign.apply, Int.cast_neg, Int.cast_one, neg_mul, one_mul]
          cases le_total 0 w with
          | inl positive =>
              refine ⟨fun under => ?_, fun _ => by linarith⟩
              have zero : w = 0 := le_antisymm (by linarith) positive
              subst zero
              have := upper (by simp; linarith)
              simp at this
              linarith
          | inr negative =>
              rw [abs_of_nonpos negative] at lower upper
              exact ⟨fun under => by linarith [upper (by linarith)],
                fun above => by linarith [lower (by linarith)]⟩

end LinearAssignment.Binary64
