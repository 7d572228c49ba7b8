import LinearAssignment.Proofs.Binary64.Value

set_option autoImplicit false

namespace LinearAssignment.Binary64

open Float.Model Float.Model.UnpackedFloat

theorem follows_self (u : UnpackedFloat) (canonical : Canonical u) (finite : u.isFinite) :
    Follows (worth u) (reread u) := by
  have same : reread u = u := unpack_pack u canonical
  rw [same]
  refine ⟨by cases u <;> simp_all [UnpackedFloat.isFinite, UnpackedFloat.isNaN], fun w _ => ?_⟩
  rw [level_finite u finite]
  exact ⟨fun below => by exact_mod_cast below, fun above => by exact_mod_cast above⟩

theorem normalize_follows (z e : ℤ) :
    Follows (z * 2 ^ e) (reread (normalize Format.binary64 z e .positive)) := by
  unfold UnpackedFloat.normalize
  rcases lt_trichotomy z 0 with negative | rfl | positive
  · rw [Int.compare_eq_lt.mpr negative]
    have size : ((-z).toNat : ℚ) = -z := by
      have cast : ((-z).toNat : ℤ) = -z := Int.toNat_of_nonneg (by omega)
      exact_mod_cast cast
    have rounded :=
      follows_of_rounds .negative _ _ (by positivity) (rounds .negative (-z).toNat e (by omega))
    rw [size] at rounded
    simpa [Sign.apply] using rounded
  · have rounded := follows_self (.zero .positive) trivial rfl
    simpa [worth] using rounded
  · rw [Int.compare_eq_gt.mpr positive]
    have size : (z.toNat : ℚ) = z := by
      have cast : (z.toNat : ℤ) = z := Int.toNat_of_nonneg positive.le
      exact_mod_cast cast
    have rounded :=
      follows_of_rounds .positive _ _ (by positivity) (rounds .positive z.toNat e (by omega))
    rw [size] at rounded
    simpa [Sign.apply] using rounded

theorem aligned_worth (s : Sign) (m : ℕ) (e t : ℤ) (below : t ≤ e) :
    ((s.apply ((decreaseExponent m e t).1 : ℤ) : ℤ) : ℚ) * 2 ^ t = s.apply (m : ℤ) * 2 ^ e := by
  have scale := two_zpow_split e t (e - t).toNat (by omega)
  rw [scale]
  simp only [decreaseExponent, Nat.shiftLeft_eq]
  cases s <;> simp [Sign.apply] <;> ring

theorem add_follows (a b : UnpackedFloat) (canonicalA : Canonical a) (canonicalB : Canonical b)
    (finiteA : a.isFinite) (finiteB : b.isFinite) :
    Follows (worth a + worth b) (reread (UnpackedFloat.add Format.binary64 a b)) := by
  cases a with
  | notANumber => simp [UnpackedFloat.isFinite] at finiteA
  | infinity s => simp [UnpackedFloat.isFinite] at finiteA
  | zero s =>
      cases b with
      | notANumber => simp [UnpackedFloat.isFinite] at finiteB
      | infinity t => simp [UnpackedFloat.isFinite] at finiteB
      | zero t =>
          simp only [worth, add_zero, UnpackedFloat.add]
          split <;> exact follows_self (.zero _) trivial rfl
      | finite t m e positive =>
          simp only [worth, zero_add, UnpackedFloat.add]
          exact follows_self (.finite t m e positive) canonicalB rfl
  | finite s m e positive =>
      cases b with
      | notANumber => simp [UnpackedFloat.isFinite] at finiteB
      | infinity t => simp [UnpackedFloat.isFinite] at finiteB
      | zero t =>
          simp only [worth, add_zero, UnpackedFloat.add]
          exact follows_self (.finite s m e positive) canonicalA rfl
      | finite t n f positiveB =>
          have sum :=
            normalize_follows
              (s.apply (decreaseExponent m e (min e f)).1 +
                t.apply (decreaseExponent n f (min e f)).1)
              (min e f)
          rw [Int.cast_add, add_mul, aligned_worth s m e _ (min_le_left e f),
            aligned_worth t n f _ (min_le_right e f)] at sum
          exact sum

theorem sub_as_add (spec : Format) (a b : UnpackedFloat) :
    UnpackedFloat.sub spec a b = UnpackedFloat.add spec a b.neg := by
  have apply_neg (s : Sign) (n : ℤ) : (-s).apply n = -s.apply n := by
    cases s
    · exact (neg_neg n).symm
    · rfl
  cases a <;> cases b <;> simp [UnpackedFloat.sub, UnpackedFloat.add, UnpackedFloat.neg,
    apply_neg, sub_eq_add_neg]

theorem worth_neg (u : UnpackedFloat) : worth u.neg = -worth u := by
  cases u with
  | finite s m e positive => cases s <;> simp [UnpackedFloat.neg, worth, Sign.apply]
  | _ => simp [UnpackedFloat.neg, worth]

theorem sub_follows (a b : UnpackedFloat) (canonicalA : Canonical a) (canonicalB : Canonical b)
    (finiteA : a.isFinite) (finiteB : b.isFinite) :
    Follows (worth a - worth b) (reread (UnpackedFloat.sub Format.binary64 a b)) := by
  rw [sub_as_add, sub_eq_add_neg, ← worth_neg]
  apply add_follows a b.neg canonicalA _ finiteA
  · cases b <;> simp_all [UnpackedFloat.neg, UnpackedFloat.isFinite]
  · cases b with
    | finite s m e positive => exact canonicalB
    | _ => trivial

theorem worth_sign (s : Sign) (m : ℕ) (e : ℤ) (positive : 0 < m) :
    worth (.finite s m e positive) = (s.apply 1 : ℤ) * (m * 2 ^ e) := by
  cases s <;> simp [worth, Sign.apply]

theorem sign_product (s t : Sign) : (s * t).apply 1 = s.apply 1 * t.apply 1 := by
  cases s <;> cases t <;> rfl

theorem product_below_target (m n : ℕ) (e f : ℤ) (positiveM : 0 < m) (positiveN : 0 < n)
    (normalM : 2 ^ 52 ≤ m ∨ e = -1074) (normalN : 2 ^ 52 ≤ n ∨ f = -1074) :
    e + f ≤ target (m * n) (e + f) := by
  unfold target
  by_cases wide : 2 ^ 52 ≤ m * n
  · have bits := (Nat.le_log2 (by positivity)).mpr wide
    omega
  · have left : m ≤ m * n := Nat.le_mul_of_pos_right m positiveN
    have right : n ≤ m * n := Nat.le_mul_of_pos_left n positiveM
    omega

theorem mul_follows (a b : UnpackedFloat) (canonicalA : Canonical a) (canonicalB : Canonical b)
    (finiteA : a.isFinite) (finiteB : b.isFinite) :
    Follows (worth a * worth b) (reread (UnpackedFloat.mul Format.binary64 a b)) := by
  have zero (s : Sign) : Follows 0 (reread (.zero s)) := follows_self (.zero s) trivial rfl
  cases a with
  | notANumber => simp [UnpackedFloat.isFinite] at finiteA
  | infinity s => simp [UnpackedFloat.isFinite] at finiteA
  | zero s =>
      cases b with
      | notANumber => simp [UnpackedFloat.isFinite] at finiteB
      | infinity t => simp [UnpackedFloat.isFinite] at finiteB
      | zero t => simpa [worth, UnpackedFloat.mul] using zero (s * t)
      | finite t n f positiveB => simpa [worth, UnpackedFloat.mul] using zero (s * t)
  | finite s m e positive =>
      cases b with
      | notANumber => simp [UnpackedFloat.isFinite] at finiteB
      | infinity t => simp [UnpackedFloat.isFinite] at finiteB
      | zero t => simpa [worth, UnpackedFloat.mul] using zero (s * t)
      | finite t n f positiveB =>
          have below :=
            product_below_target m n e f positive positiveB canonicalA.2.2.2 canonicalB.2.2.2
          have product := follows_of_rounds (s * t) _ _ (by positivity)
            (rounds_accurately (s * t) (m * n) (e + f) (by positivity) below)
          have same :
              (((s * t).apply 1 : ℤ) : ℚ) * (((m * n : ℕ) : ℚ) * 2 ^ (e + f)) =
                worth (.finite s m e positive) * worth (.finite t n f positiveB) := by
            rw [worth_sign, worth_sign, sign_product, zpow_add₀ (by norm_num)]
            push_cast
            ring
          rw [← same]
          exact product

theorem magnitude_lt (m n : ℕ) (e f : ℤ) (small : m < 2 ^ 53) (low : -1074 ≤ e) (less : e < f)
    (normal : 2 ^ 52 ≤ n ∨ f = -1074) : (m : ℚ) * 2 ^ e < n * 2 ^ f :=
  (below_ceiling m e e small le_rfl).trans_le
    (above_ceiling n f e (Or.inl ⟨normal.resolve_right (by omega), less⟩))

theorem magnitude_compare (s t : Sign) (m n : ℕ) (e f : ℤ) (positiveM : 0 < m) (positiveN : 0 < n)
    (canonicalM : Canonical (.finite s m e positiveM))
    (canonicalN : Canonical (.finite t n f positiveN)) :
    (compare e f).then (compare m n) = compare ((m : ℚ) * 2 ^ e) (n * 2 ^ f) := by
  obtain ⟨smallM, lowM, _, normalM⟩ := canonicalM
  obtain ⟨smallN, lowN, _, normalN⟩ := canonicalN
  rcases lt_trichotomy e f with less | rfl | greater
  · rw [compare_lt_iff_lt.mpr less,
      compare_lt_iff_lt.mpr (magnitude_lt m n e f smallM lowM less normalN)]
    rfl
  · rw [compare_eq_iff_eq.mpr rfl]
    have power : (0 : ℚ) < 2 ^ e := by positivity
    rcases lt_trichotomy m n with less | rfl | greater
    · have scaled : (m : ℚ) * 2 ^ e < n * 2 ^ e :=
        mul_lt_mul_of_pos_right (by exact_mod_cast less) power
      rw [compare_lt_iff_lt.mpr less, compare_lt_iff_lt.mpr scaled]
      rfl
    · simp
    · have scaled : (n : ℚ) * 2 ^ e < m * 2 ^ e :=
        mul_lt_mul_of_pos_right (by exact_mod_cast greater) power
      rw [compare_gt_iff_gt.mpr greater, compare_gt_iff_gt.mpr scaled]
      rfl
  · rw [compare_gt_iff_gt.mpr greater,
      compare_gt_iff_gt.mpr (magnitude_lt n m f e smallN lowN greater normalM)]
    rfl

theorem compare_levels (a b : UnpackedFloat) (finiteA : a.isFinite) (finiteB : b.isFinite) :
    compare (level a) (level b) = compare (worth a) (worth b) := by
  rw [level_finite a finiteA, level_finite b finiteB]
  rcases lt_trichotomy (worth a) (worth b) with less | same | greater
  · rw [compare_lt_iff_lt.mpr less, compare_lt_iff_lt]
    exact_mod_cast less
  · rw [same]
    simp
  · rw [compare_gt_iff_gt.mpr greater, compare_gt_iff_gt]
    exact_mod_cast greater

theorem finite_positive (m : ℕ) (e : ℤ) (positive : 0 < m) :
    0 < worth (.finite .positive m e positive) := by
  simp only [worth, Sign.apply]
  positivity

theorem finite_negative (m : ℕ) (e : ℤ) (positive : 0 < m) :
    worth (.finite .negative m e positive) < 0 := by
  have opposite := finite_positive m e positive
  simp only [worth, Sign.apply, Int.cast_neg] at opposite ⊢
  linarith

theorem compare_finite (a b : UnpackedFloat) (canonicalA : Canonical a) (canonicalB : Canonical b)
    (finiteA : a.isFinite) (finiteB : b.isFinite) :
    a.compare b = some (compare (worth a) (worth b)) := by
  have below (x y : ℚ) (less : x < y) : compare x y = .lt := compare_lt_iff_lt.mpr less
  have above (x y : ℚ) (less : y < x) : compare x y = .gt := compare_gt_iff_gt.mpr less
  cases a with
  | notANumber => simp [UnpackedFloat.isFinite] at finiteA
  | infinity s => simp [UnpackedFloat.isFinite] at finiteA
  | zero s =>
      cases b with
      | notANumber => simp [UnpackedFloat.isFinite] at finiteB
      | infinity t => simp [UnpackedFloat.isFinite] at finiteB
      | zero t => simp [UnpackedFloat.compare, worth]
      | finite t n f positive =>
          cases t with
          | negative =>
              exact congrArg some (above (worth (.zero s)) _ (finite_negative n f positive)).symm
          | positive =>
              exact congrArg some (below (worth (.zero s)) _ (finite_positive n f positive)).symm
  | finite s m e positive =>
      cases b with
      | notANumber => simp [UnpackedFloat.isFinite] at finiteB
      | infinity t => simp [UnpackedFloat.isFinite] at finiteB
      | zero t =>
          cases s with
          | negative =>
              exact congrArg some (below _ (worth (.zero t)) (finite_negative m e positive)).symm
          | positive =>
              exact congrArg some (above _ (worth (.zero t)) (finite_positive m e positive)).symm
      | finite t n f positiveB =>
          have sizes := magnitude_compare s t m n e f positive positiveB canonicalA canonicalB
          have mixed := (finite_negative m e positive).trans (finite_positive n f positiveB)
          have crossed := (finite_negative n f positiveB).trans (finite_positive m e positive)
          cases s with
          | negative =>
              cases t with
              | negative =>
                  simp only [UnpackedFloat.compare, sizes, worth, Sign.apply, Int.cast_neg,
                    Int.cast_natCast, neg_mul]
                  congr 1
                  rcases lt_trichotomy ((m : ℚ) * 2 ^ e) (n * 2 ^ f) with less | same | greater
                  · rw [below _ _ less, above _ _ (neg_lt_neg less)]
                    rfl
                  · rw [same]
                    simp
                  · rw [above _ _ greater, below _ _ (neg_lt_neg greater)]
                    rfl
              | positive => exact congrArg some (below _ _ mixed).symm
          | positive =>
              cases t with
              | negative => exact congrArg some (above _ _ crossed).symm
              | positive => simpa [UnpackedFloat.compare, worth, Sign.apply] using sizes

theorem compare_level (a b : UnpackedFloat) (canonicalA : Canonical a) (canonicalB : Canonical b)
    (numberA : a.isNaN = false) (numberB : b.isNaN = false) :
    a.compare b = some (compare (level a) (level b)) := by
  by_cases finiteA : a.isFinite
  · by_cases finiteB : b.isFinite
    · rw [compare_levels a b finiteA finiteB,
        compare_finite a b canonicalA canonicalB finiteA finiteB]
    · cases b with
      | infinity t =>
          cases a <;> cases t <;> simp_all [UnpackedFloat.compare, UnpackedFloat.isFinite, level,
            compare, compareOfLessAndEq]
      | _ => simp_all [UnpackedFloat.isFinite, UnpackedFloat.isNaN]
  · cases a with
    | infinity s =>
        cases b <;> cases s <;> try cases ‹Sign›
        all_goals simp_all [UnpackedFloat.compare, UnpackedFloat.isNaN, level, compare,
          compareOfLessAndEq]
    | _ => simp_all [UnpackedFloat.isFinite, UnpackedFloat.isNaN]

end LinearAssignment.Binary64
