import LinearAssignment.Proofs.Binary64.Operations

set_option autoImplicit false

namespace LinearAssignment.Binary64

open Float.Model Float.Model.UnpackedFloat

def value (x : Float) : ℚ := worth x.toModel.unpack

-- Infinities have a place in the order as well, and what is not a number is put at zero.
def height (x : Float) : WithBot (WithTop ℚ) := level x.toModel.unpack

theorem unpacked_canonical (x : Float) : Canonical x.toModel.unpack := unpack_canonical _

theorem value_zero : value 0 = 0 := rfl

theorem height_infinity : height infinity = ⊤ := rfl

theorem finite_zero : (0 : Float).isFinite := rfl

theorem infinity_number : infinity.isNaN = false := rfl

theorem height_finite (x : Float) (finite : x.isFinite) :
    height x = ((value x : WithTop ℚ) : WithBot (WithTop ℚ)) :=
  level_finite _ finite

theorem finite_number (x : Float) (finite : x.isFinite) : x.isNaN = false := by
  change x.toModel.unpack.isFinite = true at finite
  change x.toModel.unpack.isNaN = false
  cases unpacked : x.toModel.unpack <;> simp_all [UnpackedFloat.isFinite, UnpackedFloat.isNaN]

theorem finite_of_height (x : Float) (lower upper : ℚ) (number : x.isNaN = false)
    (above : ((lower : WithTop ℚ) : WithBot (WithTop ℚ)) ≤ height x)
    (below : height x ≤ ((upper : WithTop ℚ) : WithBot (WithTop ℚ))) : x.isFinite := by
  change x.toModel.unpack.isNaN = false at number
  change _ ≤ level x.toModel.unpack at above
  change level x.toModel.unpack ≤ _ at below
  change x.toModel.unpack.isFinite = true
  cases unpacked : x.toModel.unpack with
  | notANumber => simp [unpacked, UnpackedFloat.isNaN] at number
  | infinity s => cases s <;> simp [unpacked, level] at above below
  | zero s => rfl
  | finite s m e positive => rfl

theorem top_or_finite (x : Float) (number : x.isNaN = false) (lower : ℚ)
    (above : ((lower : WithTop ℚ) : WithBot (WithTop ℚ)) ≤ height x) :
    x.toModel.unpack = .infinity .positive ∨ x.isFinite ∧ lower ≤ value x := by
  change x.toModel.unpack.isNaN = false at number
  change _ ≤ level x.toModel.unpack at above
  change _ ∨ x.toModel.unpack.isFinite = true ∧ lower ≤ worth x.toModel.unpack
  cases unpacked : x.toModel.unpack with
  | notANumber => simp [unpacked, UnpackedFloat.isNaN] at number
  | infinity s =>
      cases s with
      | positive => exact Or.inl rfl
      | negative => simp [unpacked, level] at above
  | zero s =>
      rw [unpacked, level_finite _ rfl] at above
      exact Or.inr ⟨rfl, by exact_mod_cast above⟩
  | finite s m e positive =>
      rw [unpacked, level_finite _ rfl] at above
      exact Or.inr ⟨rfl, by exact_mod_cast above⟩

theorem representable_value (x : Float) (finite : x.isFinite) : Representable (value x) := by
  change x.toModel.unpack.isFinite = true at finite
  have canonical := unpacked_canonical x
  change OnGrid |worth x.toModel.unpack|
  cases unpacked : x.toModel.unpack with
  | notANumber => simp [unpacked, UnpackedFloat.isFinite] at finite
  | infinity s => simp [unpacked, UnpackedFloat.isFinite] at finite
  | zero s => exact ⟨0, 0, by norm_num, by norm_num, by norm_num, by simp [worth]⟩
  | finite s m e positive =>
      rw [unpacked] at canonical
      have power : (0 : ℚ) < 2 ^ e := by positivity
      refine ⟨m, e, canonical.1, canonical.2.1, canonical.2.2.1, ?_⟩
      cases s <;> simp [worth, Sign.apply, abs_mul, abs_of_pos power]

theorem representable_whole (n : ℤ) (small : |n| ≤ 2 ^ 53) : Representable n := by
  cases small.lt_or_eq with
  | inl less =>
      rw [Int.abs_eq_natAbs] at less
      refine ⟨n.natAbs, 0, by omega, by norm_num, by norm_num, ?_⟩
      simp [Nat.cast_natAbs]
  | inr full =>
      refine ⟨2 ^ 52, 1, by norm_num, by norm_num, by norm_num, ?_⟩
      rw [← Int.cast_abs, full]
      norm_num

theorem follows_exact (x : Float) (v : ℚ) (follows : Follows v x.toModel.unpack)
    (representable : Representable v) : x.isFinite ∧ value x = v := by
  obtain ⟨number, sides⟩ := follows
  obtain ⟨above, below⟩ := sides v representable
  have finite := finite_of_height x v v number (above le_rfl) (below le_rfl)
  have same : height x = ((v : WithTop ℚ) : WithBot (WithTop ℚ)) :=
    le_antisymm (below le_rfl) (above le_rfl)
  rw [height_finite x finite] at same
  exact ⟨finite, by exact_mod_cast same⟩

theorem follows_between (x : Float) (v lower upper : ℚ) (follows : Follows v x.toModel.unpack)
    (lowerOn : Representable lower) (upperOn : Representable upper) (above : lower ≤ v)
    (below : v ≤ upper) : x.isFinite ∧ lower ≤ value x ∧ value x ≤ upper := by
  obtain ⟨number, sides⟩ := follows
  have low := (sides lower lowerOn).1 above
  have high := (sides upper upperOn).2 below
  have finite := finite_of_height x lower upper number low high
  change _ ≤ height x at low
  change height x ≤ _ at high
  rw [height_finite x finite] at low high
  exact ⟨finite, by exact_mod_cast low, by exact_mod_cast high⟩

theorem sum_follows (x y : Float) (finiteX : x.isFinite) (finiteY : y.isFinite) :
    Follows (value x + value y) (x + y).toModel.unpack :=
  add_follows _ _ (unpacked_canonical x) (unpacked_canonical y) finiteX finiteY

theorem difference_follows (x y : Float) (finiteX : x.isFinite) (finiteY : y.isFinite) :
    Follows (value x - value y) (x - y).toModel.unpack :=
  sub_follows _ _ (unpacked_canonical x) (unpacked_canonical y) finiteX finiteY

theorem product_follows (x y : Float) (finiteX : x.isFinite) (finiteY : y.isFinite) :
    Follows (value x * value y) (x * y).toModel.unpack :=
  mul_follows _ _ (unpacked_canonical x) (unpacked_canonical y) finiteX finiteY

theorem less_unpacked (x y : Float) :
    x < y ↔ x.toModel.unpack.compare y.toModel.unpack = some .lt :=
  (decide_eq_true_iff (p := UnpackedFloat.lt x.toModel.unpack y.toModel.unpack = true)).trans
    beq_iff_eq

theorem less_iff (x y : Float) (numberX : x.isNaN = false) (numberY : y.isNaN = false) :
    x < y ↔ height x < height y := by
  rw [less_unpacked,
    compare_level _ _ (unpacked_canonical x) (unpacked_canonical y) numberX numberY]
  simp [height, compare_lt_iff_lt]

theorem at_most_iff (x y : Float) (numberX : x.isNaN = false) (numberY : y.isNaN = false) :
    x ≤ y ↔ height x ≤ height y := by
  have unpacked : x ≤ y ↔ (x.toModel.unpack.compare y.toModel.unpack).any Ordering.isLE = true :=
    decide_eq_true_iff (p := UnpackedFloat.le x.toModel.unpack y.toModel.unpack = true)
  rw [unpacked, compare_level _ _ (unpacked_canonical x) (unpacked_canonical y) numberX numberY,
    Option.any_some]
  exact Ordering.isLE_iff_ne_gt.trans compare_le_iff_le

theorem less_numbers (x y : Float) (less : x < y) : x.isNaN = false ∧ y.isNaN = false := by
  rw [less_unpacked] at less
  change x.toModel.unpack.isNaN = false ∧ y.toModel.unpack.isNaN = false
  generalize x.toModel.unpack = a at less
  generalize y.toModel.unpack = b at less
  cases a <;> cases b <;> simp_all [UnpackedFloat.compare, UnpackedFloat.isNaN]

theorem less_irrefl (x : Float) : ¬ x < x := by
  intro less
  have number := (less_numbers x x less).1
  rw [less_iff x x number number] at less
  exact lt_irrefl _ less

theorem less_trans (x y z : Float) (first : x < y) (second : y < z) : x < z := by
  obtain ⟨numberX, numberY⟩ := less_numbers x y first
  have numberZ := (less_numbers y z second).2
  rw [less_iff x y numberX numberY] at first
  rw [less_iff y z numberY numberZ] at second
  exact (less_iff x z numberX numberZ).mpr (lt_trans first second)

theorem lower_cases (least c : Float) :
    (Cost.lower least c = least ∧ ¬ c < least) ∨ (Cost.lower least c = c ∧ c < least) := by
  by_cases less : c < least
  · exact Or.inr ⟨if_pos (decide_eq_true less), less⟩
  · exact Or.inl ⟨if_neg (by simpa [Cost.less] using less), less⟩

theorem not_below_lower (least c : Float) :
    ¬ c < Cost.lower least c ∧ ∀ x, ¬ x < least → ¬ x < Cost.lower least c := by
  cases lower_cases least c with
  | inl facts =>
      obtain ⟨same, notLess⟩ := facts
      rw [same]
      exact ⟨notLess, fun x above => above⟩
  | inr facts =>
      obtain ⟨same, less⟩ := facts
      rw [same]
      exact ⟨less_irrefl c, fun x above below => above (less_trans x c least below less)⟩

theorem zero_iff (x : Float) : (x == 0) = true ↔ x.isFinite ∧ value x = 0 := by
  change (x.toModel.unpack.compare (.zero .positive) == some Ordering.eq) = true ↔
    x.toModel.unpack.isFinite = true ∧ worth x.toModel.unpack = 0
  have canonical := unpacked_canonical x
  generalize x.toModel.unpack = a at canonical
  by_cases finite : a.isFinite
  · rw [compare_finite a (.zero .positive) canonical trivial finite rfl]
    simp [finite, worth]
  · cases a with
    | infinity s => cases s <;> simp [UnpackedFloat.compare, UnpackedFloat.isFinite]
    | _ => simp_all [UnpackedFloat.compare, UnpackedFloat.isFinite]

theorem reread_special (s : Sign) :
    reread .notANumber = .notANumber ∧ reread (.infinity s) = .infinity s :=
  ⟨unpack_pack _ trivial, unpack_pack _ trivial⟩

theorem difference_finite (x y : Float) (finite : (x - y).isFinite) : x.isFinite ∧ y.isFinite := by
  change (reread (UnpackedFloat.sub Format.binary64 x.toModel.unpack y.toModel.unpack)).isFinite =
    true at finite
  change x.toModel.unpack.isFinite = true ∧ y.toModel.unpack.isFinite = true
  generalize x.toModel.unpack = a at finite
  generalize y.toModel.unpack = b at finite
  have nan := (reread_special .positive).1
  have endless (s : Sign) := (reread_special s).2
  cases a <;> cases b <;> simp only [UnpackedFloat.sub, nan, endless] at finite <;>
    (try split at finite) <;> simp_all [UnpackedFloat.isFinite]

theorem infinity_shifted (x y : Float) (top : x.toModel.unpack = .infinity .positive)
    (finite : y.isFinite) :
    (x + y).toModel.unpack = .infinity .positive ∧
      (x - y).toModel.unpack = .infinity .positive := by
  change y.toModel.unpack.isFinite = true at finite
  change reread (UnpackedFloat.add Format.binary64 x.toModel.unpack y.toModel.unpack) = _ ∧
    reread (UnpackedFloat.sub Format.binary64 x.toModel.unpack y.toModel.unpack) = _
  rw [top]
  generalize y.toModel.unpack = b at finite
  cases b <;> simp_all [UnpackedFloat.add, UnpackedFloat.sub,
    UnpackedFloat.isFinite, reread_special]

theorem sum_number (x y : Float) (number : (x + y).isNaN = false) : x.isNaN = false := by
  change (reread (UnpackedFloat.add Format.binary64 x.toModel.unpack y.toModel.unpack)).isNaN =
    false at number
  change x.toModel.unpack.isNaN = false
  have nan := (reread_special .positive).1
  cases unpacked : x.toModel.unpack with
  | notANumber =>
      cases other : y.toModel.unpack <;> simp [unpacked, other, UnpackedFloat.add, nan,
        UnpackedFloat.isNaN] at number
  | _ => rfl

theorem difference_number (x y : Float) (number : (x - y).isNaN = false) :
    x.isNaN = false ∧
      ¬ (x.toModel.unpack = .infinity .positive ∧ y.toModel.unpack = .infinity .positive) := by
  change (reread (UnpackedFloat.sub Format.binary64 x.toModel.unpack y.toModel.unpack)).isNaN =
    false at number
  change x.toModel.unpack.isNaN = false ∧ _
  have nan := (reread_special .positive).1
  constructor
  · cases unpacked : x.toModel.unpack with
    | notANumber =>
        cases other : y.toModel.unpack <;> simp [unpacked, other, UnpackedFloat.sub, nan,
          UnpackedFloat.isNaN] at number
    | _ => rfl
  · intro both
    simp [both, UnpackedFloat.sub, nan, UnpackedFloat.isNaN] at number

theorem sum_exact (x y : Float) (n : ℤ) (finiteX : x.isFinite) (finiteY : y.isFinite)
    (sum : value x + value y = n) (small : |n| ≤ 2 ^ 53) : (x + y).isFinite ∧ value (x + y) = n :=
  follows_exact _ _ (sum ▸ sum_follows x y finiteX finiteY) (representable_whole n small)

theorem difference_exact (x y : Float) (n : ℤ) (finiteX : x.isFinite) (finiteY : y.isFinite)
    (difference : value x - value y = n) (small : |n| ≤ 2 ^ 53) :
    (x - y).isFinite ∧ value (x - y) = n :=
  follows_exact _ _ (difference ▸ difference_follows x y finiteX finiteY)
    (representable_whole n small)

theorem product_exact (x y : Float) (n : ℤ) (finiteX : x.isFinite) (finiteY : y.isFinite)
    (product : value x * value y = n) (small : |n| ≤ 2 ^ 53) :
    (x * y).isFinite ∧ value (x * y) = n :=
  follows_exact _ _ (product ▸ product_follows x y finiteX finiteY) (representable_whole n small)

theorem less_finite_iff (x y : Float) (finiteX : x.isFinite) (finiteY : y.isFinite) :
    x < y ↔ value x < value y := by
  rw [less_iff x y (finite_number x finiteX) (finite_number y finiteY), height_finite x finiteX,
    height_finite y finiteY]
  exact_mod_cast Iff.rfl

theorem positive_iff (x : Float) (finite : x.isFinite) : 0 < x ↔ 0 < value x := by
  rw [less_finite_iff 0 x finite_zero finite, value_zero]

theorem self_difference_zero (h : Float) (finite : h.isFinite) : ((h - h) == 0) = true := by
  obtain ⟨finiteDifference, same⟩ := difference_exact h h 0 finite finite (by simp) (by norm_num)
  exact (zero_iff _).mpr ⟨finiteDifference, by simpa using same⟩

theorem zero_raised_lowered (x h : Float) (zero : (x == 0) = true) (finite : h.isFinite) :
    ((x + h - h) == 0) = true := by
  obtain ⟨finiteX, zeroX⟩ := (zero_iff x).mp zero
  have raised := sum_follows x h finiteX finite
  rw [zeroX, zero_add] at raised
  obtain ⟨finiteSum, same⟩ := follows_exact _ _ raised (representable_value h finite)
  obtain ⟨finiteDifference, none⟩ :=
    difference_exact (x + h) h 0 finiteSum finite (by simp [same]) (by norm_num)
  exact (zero_iff _).mpr ⟨finiteDifference, by simpa using none⟩

def Nonnegative (x : Float) : Prop := x.isNaN = false ∧ 0 ≤ height x

theorem nonnegative_finite (x : Float) (finite : x.isFinite) : Nonnegative x ↔ 0 ≤ value x := by
  rw [Nonnegative, height_finite x finite]
  refine ⟨fun both => by exact_mod_cast both.2, fun sign =>
    ⟨finite_number x finite, by exact_mod_cast sign⟩⟩

theorem nonnegative_cases (x : Float) (nonneg : Nonnegative x) :
    x.toModel.unpack = .infinity .positive ∨ x.isFinite ∧ 0 ≤ value x :=
  top_or_finite x nonneg.1 0 nonneg.2

theorem infinity_highest (x : Float) (top : x.toModel.unpack = .infinity .positive) :
    x.isNaN = false ∧ height x = ⊤ := by
  change x.toModel.unpack.isNaN = false ∧ level x.toModel.unpack = ⊤
  rw [top]
  exact ⟨rfl, rfl⟩

theorem raised_above (x h : Float) (nonneg : Nonnegative x) (finite : h.isFinite) :
    (x + h).isNaN = false ∧ height h ≤ height (x + h) := by
  cases nonnegative_cases x nonneg with
  | inl top =>
      obtain ⟨number, highest⟩ := infinity_highest _ (infinity_shifted x h top finite).1
      exact ⟨number, by rw [highest]; exact le_top⟩
  | inr facts =>
      obtain ⟨finiteX, sign⟩ := facts
      obtain ⟨number, sides⟩ := sum_follows x h finiteX finite
      refine ⟨number, ?_⟩
      rw [height_finite h finite]
      exact (sides (value h) (representable_value h finite)).1 (by linarith)

theorem lowered_nonnegative (x h : Float) (number : x.isNaN = false) (finite : h.isFinite)
    (below : height h ≤ height x) : Nonnegative (x - h) := by
  rw [height_finite h finite] at below
  cases top_or_finite x number (value h) below with
  | inl top =>
      obtain ⟨numberDifference, highest⟩ := infinity_highest _ (infinity_shifted x h top finite).2
      exact ⟨numberDifference, by rw [highest]; exact le_top⟩
  | inr facts =>
      obtain ⟨finiteX, larger⟩ := facts
      obtain ⟨numberDifference, sides⟩ := difference_follows x h finiteX finite
      have zero := representable_whole 0 (by norm_num)
      rw [Int.cast_zero] at zero
      exact ⟨numberDifference, (sides 0 zero).1 (by linarith)⟩

theorem lowered_at_most (x h : Float) (nonneg : Nonnegative x) (finite : h.isFinite)
    (sign : 0 ≤ value h) : height (x - h) ≤ height x := by
  cases nonnegative_cases x nonneg with
  | inl top =>
      rw [(infinity_highest x top).2]
      exact le_top
  | inr facts =>
      obtain ⟨finiteX, _⟩ := facts
      obtain ⟨_, sides⟩ := difference_follows x h finiteX finite
      rw [height_finite x finiteX]
      exact (sides (value x) (representable_value x finiteX)).2 (by linarith)

theorem lowered_finite (x h : Float) (finiteX : x.isFinite) (finite : h.isFinite)
    (sign : 0 ≤ value h) (below : value h ≤ value x) : (x - h).isFinite := by
  have zero := representable_whole 0 (by norm_num)
  rw [Int.cast_zero] at zero
  exact (follows_between _ _ 0 (value x) (difference_follows x h finiteX finite) zero
    (representable_value x finiteX) (by linarith) (by linarith)).1

theorem word_exact (n : ℕ) (small : n < 2 ^ 53) :
    n.toUInt64.toFloat.isFinite ∧ value n.toUInt64.toFloat = n := by
  have same : n.toUInt64.toNat = n := UInt64.toNat_ofNat_of_lt' (lt_trans small (by norm_num))
  have follows : Follows ((n : ℤ) * 2 ^ (0 : ℤ)) n.toUInt64.toFloat.toModel.unpack := by
    have rounded := normalize_follows (n : ℤ) 0
    have opened :
        n.toUInt64.toFloat.toModel.unpack =
          reread (normalize Format.binary64 (n : ℤ) 0 .positive) := by
      change reread (normalize Format.binary64 (n.toUInt64.toNat : ℤ) 0 .positive) = _
      rw [same]
    rw [opened]
    exact rounded
  have scaled : ((n : ℤ) : ℚ) * 2 ^ (0 : ℤ) = ((n : ℤ) : ℚ) := by simp
  rw [scaled] at follows
  have exact :=
    follows_exact _ _ follows
      (representable_whole n (by rw [Nat.abs_cast]; exact_mod_cast small.le))
  exact ⟨exact.1, by simpa using exact.2⟩

theorem one_exact :
    (Float.ofBits 0x3FF0000000000000).isFinite ∧ value (Float.ofBits 0x3FF0000000000000) = 1 := by
  refine ⟨rfl, ?_⟩
  have opened : (Float.ofBits 0x3FF0000000000000).toModel.unpack =
    .finite .positive (2 ^ 52) (-52) (by positivity) := rfl
  rw [value, opened]
  norm_num [worth, Sign.apply]

theorem whole_exact (n : ℕ) (small : n < 2 ^ 53) :
    (Float.ofNat n).isFinite ∧ value (Float.ofNat n) = n := by
  obtain ⟨finite, same⟩ := word_exact n small
  obtain ⟨finiteOne, sameOne⟩ := one_exact
  have opened : Float.ofNat n = n.toUInt64.toFloat * Float.ofBits 0x3FF0000000000000 := by
    change Float.ofScientific n false 0 = _
    rw [Float.ofScientific, dif_pos ⟨small, by norm_num⟩]
    rfl
  rw [opened]
  have product := product_exact _ _ (n : ℤ) finite finiteOne (by rw [same, sameOne]; simp)
    (by rw [Nat.abs_cast]; exact_mod_cast small.le)
  exact ⟨product.1, by simpa using product.2⟩

theorem natural_follows (n : ℕ) : Follows n (Float.ofNat n).toModel.unpack := by
  by_cases small : n < 2 ^ 53
  · obtain ⟨finite, same⟩ := whole_exact n small
    have self := follows_self _ (unpacked_canonical (Float.ofNat n)) finite
    rw [show worth (Float.ofNat n).toModel.unpack = n from same,
      show reread (Float.ofNat n).toModel.unpack = (Float.ofNat n).toModel.unpack
      from unpack_pack _ (unpacked_canonical _)] at self
    exact self
  · have positive : 0 < n := by omega
    have opened :
        (Float.ofNat n).toModel.unpack =
          reread (roundWithAccuracy Format.binary64 .positive (n <<< 53)
            (0 - (53 : ℕ)) .exact) := by
      change (Float.ofScientific n false 0).toModel.unpack = _
      rw [Float.ofScientific, dif_neg (fun both => small both.1)]
      change reread (UnpackedFloat.ofScientific Format.binary64 n 0) = _
      rw [UnpackedFloat.ofScientific, dif_neg positive.ne', if_neg (by decide),
        if_neg (not_lt.mpr (neg_nonpos.mpr (by positivity))), if_pos le_rfl]
      change reread
        (roundWithAccuracy Format.binary64 .positive (n <<< 53 * 1) (0 - (53 : ℕ)) .exact) = _
      rw [mul_one]
    have aligned := target_scaled n 53 0 positive
    have bits : 53 ≤ n.log2 := (Nat.le_log2 positive.ne').mpr (not_lt.mp small)
    have rounded := rounds_accurately .positive (n <<< 53) (0 - (53 : ℕ))
      (by rw [Nat.shiftLeft_eq]; positivity) (by rw [aligned, target]; omega)
    have exact : ((n <<< 53 : ℕ) : ℚ) * 2 ^ ((0 : ℤ) - (53 : ℕ)) = n := by
      rw [Nat.shiftLeft_eq]
      push_cast
      field_simp
      norm_num
    rw [exact] at rounded
    rw [opened]
    simpa [Sign.apply] using follows_of_rounds .positive n _ (by positivity) rounded

theorem natural_large (n : ℕ) (some : 0 < n) :
    0 < Float.ofNat n ∧ ((1 : ℚ) : WithTop ℚ) ≤ height (Float.ofNat n) := by
  obtain ⟨number, sides⟩ := natural_follows n
  have representable := representable_whole 1 (by norm_num)
  rw [Int.cast_one] at representable
  have large : ((1 : ℚ) : WithTop ℚ) ≤ height (Float.ofNat n) :=
    (sides 1 representable).1 (by exact_mod_cast some)
  refine ⟨(less_iff 0 _ rfl number).mpr (lt_of_lt_of_le ?_ large), large⟩
  rw [height_finite 0 finite_zero, value_zero]
  norm_cast

theorem positive_cases (x : Float) (positive : 0 < x) :
    x.toModel.unpack = .infinity .positive ∨
      ∃ m e some, x.toModel.unpack = .finite .positive m e some := by
  have number := (less_numbers 0 x positive).2
  have high : ((0 : ℚ) : WithTop ℚ) < height x := (less_iff 0 x rfl number).mp positive
  cases top_or_finite x number 0 high.le with
  | inl top => exact Or.inl top
  | inr facts =>
      have sign := (positive_iff x facts.1).mp positive
      change 0 < worth x.toModel.unpack at sign
      cases unpacked : x.toModel.unpack with
      | finite s m e some =>
          cases s with
          | positive => exact Or.inr ⟨m, e, some, rfl⟩
          | negative =>
              rw [unpacked] at sign
              exact absurd sign (finite_negative m e some).le.not_gt
      | _ => simp [unpacked, worth] at sign

theorem positive_height (x : Float) (positive : 0 < x) :
    x.isNaN = false ∧ ((0 : ℚ) : WithTop ℚ) < height x := by
  have number := (less_numbers 0 x positive).2
  exact ⟨number, (less_iff 0 x rfl number).mp positive⟩

theorem bounded_finite (x c : Float) (finite : c.isFinite) (positive : 0 < x) (less : x < c) :
    x.isFinite := by
  obtain ⟨number, above⟩ := positive_height x positive
  have below := (less_iff x c number (finite_number c finite)).mp less
  rw [height_finite c finite] at below
  exact finite_of_height x 0 (value c) number above.le below.le

theorem follows_less (x c : Float) (v : ℚ) (follows : Follows v x.toModel.unpack)
    (finite : c.isFinite) (less : x < c) : v < value c := by
  by_contra above
  have high := (follows.2 (value c) (representable_value c finite)).1 (not_lt.mp above)
  have low := (less_iff x c follows.1 (finite_number c finite)).mp less
  rw [height_finite c finite] at low
  exact absurd high (not_le.mpr low)

theorem product_large (x y : Float) (positiveX : 0 < x) (positiveY : 0 < y) :
    (x * y).isNaN = false ∧ (((1 : ℚ) : WithTop ℚ) ≤ height x → height y ≤ height (x * y)) ∧
      (((1 : ℚ) : WithTop ℚ) ≤ height y → height x ≤ height (x * y)) := by
  have product :
      (x * y).toModel.unpack =
        reread (UnpackedFloat.mul Format.binary64 x.toModel.unpack y.toModel.unpack) :=
    rfl
  have top := (reread_special .positive).2
  have endless (infinite : (x * y).toModel.unpack = .infinity .positive) :
      (x * y).isNaN = false ∧ (((1 : ℚ) : WithTop ℚ) ≤ height x → height y ≤ height (x * y)) ∧
        (((1 : ℚ) : WithTop ℚ) ≤ height y → height x ≤ height (x * y)) := by
    obtain ⟨number, highest⟩ := infinity_highest _ infinite
    rw [highest]
    exact ⟨number, fun _ => le_top, fun _ => le_top⟩
  cases positive_cases x positiveX with
  | inl infiniteX =>
      apply endless
      cases positive_cases y positiveY with
      | inl infiniteY =>
          rw [product, infiniteX, infiniteY]
          exact top
      | inr facts =>
          obtain ⟨n, f, someY, finiteY⟩ := facts
          rw [product, infiniteX, finiteY]
          exact top
  | inr facts =>
      obtain ⟨m, e, someX, unpackedX⟩ := facts
      cases positive_cases y positiveY with
      | inl infiniteY =>
          apply endless
          rw [product, unpackedX, infiniteY]
          exact top
      | inr facts =>
          obtain ⟨n, f, someY, unpackedY⟩ := facts
          have finiteX : x.isFinite := congrArg UnpackedFloat.isFinite unpackedX
          have finiteY : y.isFinite := congrArg UnpackedFloat.isFinite unpackedY
          have signX := (positive_iff x finiteX).mp positiveX
          have signY := (positive_iff y finiteY).mp positiveY
          obtain ⟨number, sides⟩ := product_follows x y finiteX finiteY
          rw [height_finite x finiteX, height_finite y finiteY]
          refine ⟨number, fun large => (sides _ (representable_value y finiteY)).1 ?_,
            fun large => (sides _ (representable_value x finiteX)).1 ?_⟩
          · have large : 1 ≤ value x := by exact_mod_cast large
            nlinarith
          · have large : 1 ≤ value y := by exact_mod_cast large
            nlinarith

theorem product_positive (x y : Float) (positiveX : 0 < x) (positiveY : 0 < y)
    (large : ((1 : ℚ) : WithTop ℚ) ≤ height x ∨ ((1 : ℚ) : WithTop ℚ) ≤ height y) : 0 < x * y := by
  obtain ⟨number, aboveY, aboveX⟩ := product_large x y positiveX positiveY
  rw [less_iff 0 _ rfl number]
  cases large with
  | inl large => exact lt_of_lt_of_le (positive_height y positiveY).2 (aboveY large)
  | inr large => exact lt_of_lt_of_le (positive_height x positiveX).2 (aboveX large)

end LinearAssignment.Binary64
