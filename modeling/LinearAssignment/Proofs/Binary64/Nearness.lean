import LinearAssignment.Proofs.Binary64.Arithmetic

set_option autoImplicit false

namespace LinearAssignment.Binary64

open Float.Model Float.Model.UnpackedFloat

def spacing : ℚ := 1 / 2 ^ 52

theorem ceiling_value : value sixteenthOfLargest = (2 ^ 53 - 1) * 2 ^ (967 : ℤ) := by
  have opened : sixteenthOfLargest.toModel.unpack =
    .finite .positive (2 ^ 53 - 1) 967 (by norm_num) := rfl
  rw [value, opened]
  simp only [worth, UnpackedFloat.Sign.apply]
  norm_num

theorem multiple_on_grid (m : ℕ) (e : ℤ) (low : -1074 ≤ e) (few : m ≤ 2 ^ 53)
    (high : (m : ℚ) * 2 ^ e ≤ 8 * value sixteenthOfLargest) : OnGrid (m * 2 ^ e) := by
  by_cases coarse : 970 < e
  · obtain ⟨k, rfl⟩ : ∃ k : ℕ, e = 970 + k := ⟨(e - 970).toNat, by omega⟩
    have split : (2 : ℚ) ^ (970 + k : ℤ) = 2 ^ k * 2 ^ (970 : ℤ) := two_zpow_split _ _ k (by omega)
    have scale : (2 : ℚ) ^ (970 : ℤ) = 2 ^ 3 * 2 ^ (967 : ℤ) := two_zpow_split _ _ 3 (by norm_num)
    have power : (0 : ℚ) < 2 ^ (967 : ℤ) := by positivity
    have small : m * 2 ^ k < 2 ^ 53 := by
      rw [split, scale, ceiling_value] at high
      have bound : ((m * 2 ^ k : ℕ) : ℚ) * (8 * 2 ^ (967 : ℤ)) < 2 ^ 53 * (8 * 2 ^ (967 : ℤ)) := by
        generalize (2 : ℚ) ^ (967 : ℤ) = unit at high power ⊢
        push_cast
        linarith
      exact_mod_cast lt_of_mul_lt_mul_right bound (by positivity)
    refine ⟨m * 2 ^ k, 970, small, by norm_num, by norm_num, ?_⟩
    rw [split, Nat.cast_mul, Nat.cast_pow, Nat.cast_ofNat, mul_assoc]
  · by_cases full : m = 2 ^ 53
    · refine ⟨2 ^ 52, e + 1, by norm_num, by omega, by omega, ?_⟩
      rw [full, two_zpow_split (e + 1) e 1 (by norm_num), ← mul_assoc]
      norm_num
    · exact ⟨m, e, by omega, low, by omega, rfl⟩

theorem representable_multiple (n e : ℤ) (low : -1074 ≤ e) (few : |n| ≤ 2 ^ 53)
    (high : |(n : ℚ) * 2 ^ e| ≤ 8 * value sixteenthOfLargest) : Representable (n * 2 ^ e) := by
  have size : |(n : ℚ) * 2 ^ e| = (n.natAbs : ℚ) * 2 ^ e := by
    rw [abs_mul, abs_of_pos (show (0 : ℚ) < 2 ^ e by positivity), Nat.cast_natAbs, Int.cast_abs]
  rw [size] at high
  rw [Representable, size]
  rw [Int.abs_eq_natAbs] at few
  exact multiple_on_grid n.natAbs e low (by omega) high

def grain : ℚ := 2 ^ (-1074 : ℤ)

def OnGrain (v : ℚ) : Prop := ∃ n : ℤ, v = n * grain

theorem value_on_grain (x : Float) (finite : x.isFinite) : OnGrain (value x) := by
  obtain ⟨j, f, _, low, _, same⟩ := representable_value x finite
  have split : (2 : ℚ) ^ f = 2 ^ (f + 1074).toNat * grain := two_zpow_split f (-1074) _ (by omega)
  rw [split, ← mul_assoc] at same
  cases abs_choice (value x) with
  | inl positive => exact ⟨j * 2 ^ (f + 1074).toNat, by rw [← positive, same]; push_cast; rfl⟩
  | inr negative =>
      exact ⟨-(j * 2 ^ (f + 1074).toNat), by
        rw [neg_eq_iff_eq_neg.mp negative.symm, same]; push_cast; ring⟩

theorem whole_on_grain (n : ℤ) : OnGrain n := by
  obtain ⟨k, unit⟩ : ∃ k : ℕ, (2 : ℚ) ^ k * grain = 1 :=
    ⟨1074, (two_zpow_split 0 (-1074) 1074 (by norm_num)).symm.trans (zpow_zero 2)⟩
  refine ⟨n * 2 ^ k, ?_⟩
  push_cast
  rw [mul_assoc, unit, mul_one]

theorem difference_positive (x y : Float) (finiteX : x.isFinite) (finiteY : y.isFinite)
    (less : value y < value x) : 0 < x - y := by
  obtain ⟨number, sides⟩ := difference_follows x y finiteX finiteY
  have positive : 0 < grain := by rw [grain]; positivity
  obtain ⟨n, left⟩ := value_on_grain x finiteX
  obtain ⟨k, right⟩ := value_on_grain y finiteY
  have step : grain ≤ value x - value y := by
    rw [left, right] at less ⊢
    have order : k + 1 ≤ n := by exact_mod_cast lt_of_mul_lt_mul_right less positive.le
    have scaled : ((k + 1 : ℤ) : ℚ) * grain ≤ n * grain :=
      mul_le_mul_of_nonneg_right (by exact_mod_cast order) positive.le
    push_cast at scaled
    linarith
  have representable : Representable grain := by
    rw [Representable, abs_of_pos positive]
    exact ⟨1, -1074, by norm_num, by norm_num, by norm_num, by rw [Nat.cast_one, one_mul]; rfl⟩
  rw [less_iff 0 _ rfl number, height_finite 0 finite_zero, value_zero]
  exact lt_of_lt_of_le (by exact_mod_cast positive) ((sides grain representable).1 step)

theorem neighbours (k : ℕ) (high : (k : ℚ) * grain ≤ 4 * value sixteenthOfLargest) :
    ∃ lower upper : ℚ, OnGrid lower ∧ OnGrid upper ∧ lower ≤ k * grain ∧ k * grain ≤ upper ∧
      upper - lower ≤ spacing * (k * grain) := by
  by_cases small : k < 2 ^ 53
  · have here : OnGrid (k * grain) := ⟨k, -1074, small, by norm_num, by norm_num, rfl⟩
    refine ⟨_, _, here, here, le_rfl, le_rfl, ?_⟩
    rw [sub_self, spacing, grain]
    positivity
  · have some : k ≠ 0 := by omega
    have bits : 53 ≤ k.log2 := (Nat.le_log2 some).mpr (not_lt.mp small)
    obtain ⟨t, exponent⟩ : ∃ t, k.log2 = 52 + t := ⟨k.log2 - 52, by omega⟩
    have lead : 2 ^ 52 ≤ k / 2 ^ t := (Nat.le_div_iff_mul_le (by positivity)).mpr (by
      rw [← pow_add, ← exponent]
      exact Nat.log2_self_le some)
    have few : k / 2 ^ t < 2 ^ 53 := (Nat.div_lt_iff_lt_mul (by positivity)).mpr (by
      rw [← pow_add, show 53 + t = k.log2 + 1 by omega]
      exact Nat.lt_log2_self)
    have split : (2 : ℚ) ^ (-1074 + t : ℤ) = 2 ^ t * grain := two_zpow_split _ _ t (by omega)
    have positive : 0 < grain := by rw [grain]; positivity
    have below : k / 2 ^ t * 2 ^ t ≤ k := Nat.div_mul_le_self k _
    have above : k ≤ (k / 2 ^ t + 1) * 2 ^ t := by
      rw [Nat.mul_comm]
      exact (Nat.lt_mul_div_succ k (by positivity)).le
    have double : (k / 2 ^ t + 1) * 2 ^ t ≤ 2 * k := by nlinarith
    generalize k / 2 ^ t = j at lead few below above double
    have belowHere : (j : ℚ) * 2 ^ t * grain ≤ k * grain :=
      mul_le_mul_of_nonneg_right (by exact_mod_cast below) positive.le
    have aboveHere : (k : ℚ) * grain ≤ ((j + 1 : ℕ) : ℚ) * 2 ^ t * grain :=
      mul_le_mul_of_nonneg_right (by exact_mod_cast above) positive.le
    have doubleHere : ((j + 1 : ℕ) : ℚ) * 2 ^ t * grain ≤ 2 * (k * grain) := by
      rw [← mul_assoc]
      exact mul_le_mul_of_nonneg_right (by exact_mod_cast double) positive.le
    have leadHere : (2 : ℚ) ^ 52 * (2 ^ t * grain) ≤ k * grain := by
      refine le_trans ?_ belowHere
      rw [mul_assoc]
      exact mul_le_mul_of_nonneg_right (by exact_mod_cast lead) (by positivity)
    refine ⟨j * 2 ^ (-1074 + t : ℤ), (j + 1 : ℕ) * 2 ^ (-1074 + t : ℤ),
      multiple_on_grid j _ (by omega) few.le ?_, multiple_on_grid (j + 1) _ (by omega) few ?_, ?_,
      ?_, ?_⟩
    all_goals rw [split, ← mul_assoc]
    · linarith
    · linarith
    · exact belowHere
    · exact aboveHere
    · rw [← mul_assoc, spacing]
      push_cast
      linarith

theorem on_grid_signs (w : ℚ) (grid : OnGrid w) : Representable w ∧ Representable (-w) := by
  have sign : 0 ≤ w := by
    obtain ⟨j, f, _, _, _, rfl⟩ := grid
    positivity
  rw [Representable, Representable, abs_neg, abs_of_nonneg sign]
  exact ⟨grid, grid⟩

theorem follows_near (x : Float) (v : ℚ) (follows : Follows v x.toModel.unpack)
    (onGrain : OnGrain v) (high : |v| ≤ 4 * value sixteenthOfLargest) :
    x.isFinite ∧ |value x - v| ≤ spacing * |v| := by
  obtain ⟨n, rfl⟩ := onGrain
  have positive : 0 < grain := by rw [grain]; positivity
  have size : |(n : ℚ) * grain| = n.natAbs * grain := by
    rw [abs_mul, abs_of_pos positive, Nat.cast_natAbs, Int.cast_abs]
  rw [size] at high ⊢
  obtain ⟨lower, upper, lowerOn, upperOn, below, above, gap⟩ := neighbours n.natAbs high
  cases Int.natAbs_eq n with
  | inl plus =>
      have same : (n : ℚ) * grain = n.natAbs * grain := by rw [plus]; push_cast; simp
      rw [same] at follows ⊢
      obtain ⟨finite, atLeast, atMost⟩ :=
        follows_between x _ lower upper follows (on_grid_signs lower lowerOn).1
          (on_grid_signs upper upperOn).1 below above
      exact ⟨finite, abs_le.mpr ⟨by linarith, by linarith⟩⟩
  | inr minus =>
      have same : (n : ℚ) * grain = -(n.natAbs * grain) := by rw [minus]; push_cast; simp
      rw [same] at follows ⊢
      obtain ⟨finite, atLeast, atMost⟩ := follows_between x _ (-upper) (-lower) follows
        (on_grid_signs upper upperOn).2 (on_grid_signs lower lowerOn).2 (by linarith) (by linarith)
      exact ⟨finite, abs_le.mpr ⟨by linarith, by linarith⟩⟩

theorem sum_near (x y : Float) (finiteX : x.isFinite) (finiteY : y.isFinite)
    (high : |value x + value y| ≤ 4 * value sixteenthOfLargest) :
    (x + y).isFinite ∧ |value (x + y) - (value x + value y)| ≤ spacing * |value x + value y| := by
  obtain ⟨n, left⟩ := value_on_grain x finiteX
  obtain ⟨k, right⟩ := value_on_grain y finiteY
  exact follows_near _ _ (sum_follows x y finiteX finiteY)
    ⟨n + k, by rw [left, right]; push_cast; ring⟩ high

theorem difference_near (x y : Float) (finiteX : x.isFinite) (finiteY : y.isFinite)
    (high : |value x - value y| ≤ 4 * value sixteenthOfLargest) :
    (x - y).isFinite ∧ |value (x - y) - (value x - value y)| ≤ spacing * |value x - value y| := by
  obtain ⟨n, left⟩ := value_on_grain x finiteX
  obtain ⟨k, right⟩ := value_on_grain y finiteY
  exact follows_near _ _ (difference_follows x y finiteX finiteY)
    ⟨n - k, by rw [left, right]; push_cast; ring⟩ high

theorem product_near (x y : Float) (finiteX : x.isFinite) (finiteY : y.isFinite)
    (whole : (∃ n : ℤ, value x = n) ∨ ∃ n : ℤ, value y = n)
    (high : |value x * value y| ≤ 4 * value sixteenthOfLargest) :
    (x * y).isFinite ∧ |value (x * y) - value x * value y| ≤ spacing * |value x * value y| := by
  refine follows_near _ _ (product_follows x y finiteX finiteY) ?_ high
  cases whole with
  | inl left =>
      obtain ⟨n, left⟩ := left
      obtain ⟨k, right⟩ := value_on_grain y finiteY
      exact ⟨n * k, by rw [left, right]; push_cast; ring⟩
  | inr right =>
      obtain ⟨n, right⟩ := right
      obtain ⟨k, left⟩ := value_on_grain x finiteX
      exact ⟨k * n, by rw [left, right]; push_cast; ring⟩

theorem large_whole (x : Float) (finite : x.isFinite) (large : 2 ^ 53 ≤ value x) :
    ∃ n : ℤ, value x = n := by
  obtain ⟨j, f, few, _, _, same⟩ := representable_value x finite
  rw [abs_of_nonneg (le_trans (by norm_num) large)] at same
  by_cases whole : 0 ≤ f
  · obtain ⟨k, rfl⟩ := Int.eq_ofNat_of_zero_le whole
    exact ⟨j * 2 ^ k, by rw [same]; push_cast; rfl⟩
  · exfalso
    have power : (2 : ℚ) ^ f ≤ 1 := zpow_le_one_of_nonpos₀ (by norm_num) (by omega)
    have small : (j : ℚ) * 2 ^ f ≤ j := mul_le_of_le_one_right (by positivity) power
    have fewHere : (j : ℚ) < 2 ^ 53 := by exact_mod_cast few
    linarith

theorem natural_near (n : ℕ) (high : (n : ℚ) ≤ 4 * value sixteenthOfLargest) :
    (Float.ofNat n).isFinite ∧ |value (Float.ofNat n) - n| ≤ spacing * n ∧
      ∃ z : ℤ, value (Float.ofNat n) = z := by
  by_cases small : n < 2 ^ 53
  · obtain ⟨finite, same⟩ := whole_exact n small
    refine ⟨finite, ?_, n, by rw [same]; simp⟩
    rw [same, sub_self, abs_zero, spacing]
    positivity
  · have size : |(n : ℚ)| = n := abs_of_nonneg (by positivity)
    obtain ⟨finite, near⟩ :=
      follows_near _ _ (natural_follows n) (by exact_mod_cast whole_on_grain n)
        (by rw [size]; exact high)
    rw [size] at near
    have base := representable_whole (2 ^ 53) (by norm_num)
    have above := ((natural_follows n).2 _ base).1 (by exact_mod_cast not_lt.mp small)
    change _ ≤ height (Float.ofNat n) at above
    rw [height_finite _ finite] at above
    exact ⟨finite, near, large_whole _ finite (by exact_mod_cast above)⟩

end LinearAssignment.Binary64
