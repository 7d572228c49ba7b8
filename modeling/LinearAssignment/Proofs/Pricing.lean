import LinearAssignment.Pricing
import LinearAssignment.Proofs.Binary64.Nearness

set_option autoImplicit false

namespace LinearAssignment

namespace Pricing

open Binary64

section

variable (better : Float → Float → Prop) [DecidableRel better] (rank : Float → ℚ)
  (order : ∀ best c, best.isFinite → c.isFinite → (better best c ↔ rank best < rank c))

include order

theorem fold_from_finite (values : List Float) (best : Float) (finite : best.isFinite) :
    (values.foldl (fun best c => if c.isFinite && better best c then c else best) best).isFinite ∧
      values.foldl (fun best c => if c.isFinite && better best c then c else best)
        best ∈ best :: values ∧
      ∀ c ∈ best :: values, c.isFinite →
        rank c ≤
          rank (values.foldl (fun best c => if c.isFinite && better best c then c else best)
            best) := by
  induction values generalizing best with
  | nil =>
      exact ⟨finite, List.mem_cons_self,
        fun c member _ => by rw [List.mem_singleton.mp member]; rfl⟩
  | cons c rest ih =>
      rw [List.foldl_cons]
      by_cases taken : c.isFinite ∧ better best c
      · rw [if_pos (by simpa using taken)]
        obtain ⟨finiteResult, member, above⟩ := ih c taken.1
        refine ⟨finiteResult, List.mem_cons_of_mem _ member, fun x memberX finiteX => ?_⟩
        cases List.mem_cons.mp memberX with
        | inl same =>
            subst same
            exact ((order x c finite taken.1).mp taken.2).le.trans
              (above c List.mem_cons_self taken.1)
        | inr later => exact above x later finiteX
      · rw [if_neg (by simpa using taken)]
        obtain ⟨finiteResult, member, above⟩ := ih best finite
        refine ⟨finiteResult, ?_, fun x memberX finiteX => ?_⟩
        · cases List.mem_cons.mp member with
          | inl same =>
              rw [same]
              exact List.mem_cons_self
          | inr later => exact List.mem_cons_of_mem _ (List.mem_cons_of_mem _ later)
        · cases List.mem_cons.mp memberX with
          | inl same =>
              subst same
              exact above x List.mem_cons_self finiteX
          | inr later =>
              cases List.mem_cons.mp later with
              | inl same =>
                  subst same
                  have notBetter : ¬ better best x := fun is => taken ⟨finiteX, is⟩
                  rw [order best x finite finiteX] at notBetter
                  exact (not_lt.mp notBetter).trans (above best List.mem_cons_self finite)
              | inr laterStill => exact above x (List.mem_cons_of_mem _ laterStill) finiteX

theorem fold_best (start : Float) (first : ∀ c, c.isFinite → better start c) (values : List Float)
    (some : ∃ c ∈ values, c.isFinite) :
    (values.foldl (fun best c => if c.isFinite && better best c then c else best) start).isFinite ∧
      values.foldl (fun best c => if c.isFinite && better best c then c else best) start ∈ values ∧
      ∀ c ∈ values, c.isFinite →
        rank c ≤
          rank (values.foldl (fun best c => if c.isFinite && better best c then c else best)
            start) := by
  induction values with
  | nil => simp at some
  | cons c rest ih =>
      rw [List.foldl_cons]
      by_cases finite : c.isFinite
      · rw [if_pos (by simpa using ⟨finite, first c finite⟩)]
        exact fold_from_finite better rank order rest c finite
      · rw [if_neg (by simp [finite])]
        obtain ⟨x, member, finiteX⟩ := some
        cases List.mem_cons.mp member with
        | inl same =>
            subst same
            exact absurd finiteX finite
        | inr later =>
            obtain ⟨finiteResult, memberResult, above⟩ := ih ⟨x, later, finiteX⟩
            refine ⟨finiteResult, List.mem_cons_of_mem _ memberResult, fun y memberY finiteY => ?_⟩
            cases List.mem_cons.mp memberY with
            | inl same =>
                subst same
                exact absurd finiteY finite
            | inr laterY => exact above y laterY finiteY

end

theorem greatest_finite (values : Array Float) (some : ∃ c ∈ values, c.isFinite) :
    (greatestFinite values).isFinite ∧ greatestFinite values ∈ values ∧
      ∀ c ∈ values, c.isFinite → value c ≤ value (greatestFinite values) := by
  have opened :
      greatestFinite values =
        values.toList.foldl (fun best c => if c.isFinite && best < c then c else best)
          (-infinity) := by
    rw [greatestFinite, Array.foldl_toList]
  have lowest : (-infinity).isNaN = false ∧ height (-infinity) = ⊥ := ⟨rfl, rfl⟩
  have first (c : Float) (finite : c.isFinite) : -infinity < c := by
    rw [less_iff _ _ lowest.1 (finite_number c finite), lowest.2, height_finite c finite]
    exact WithBot.bot_lt_coe _
  obtain ⟨finite, member, above⟩ :=
    fold_best (fun best c => best < c) value (fun best c => less_finite_iff best c) (-infinity)
      first values.toList (by simpa using some)
  rw [← opened] at finite member above
  exact ⟨finite, Array.mem_toList_iff.mp member, fun c memberC =>
    above c (Array.mem_toList_iff.mpr memberC)⟩

theorem least_finite (values : Array Float) (some : ∃ c ∈ values, c.isFinite) :
    (leastFinite values).isFinite ∧ leastFinite values ∈ values ∧
      ∀ c ∈ values, c.isFinite → value (leastFinite values) ≤ value c := by
  have opened :
      leastFinite values =
        values.toList.foldl (fun best c => if c.isFinite && c < best then c else best)
          infinity := by
    rw [leastFinite, Array.foldl_toList]
  have first (c : Float) (finite : c.isFinite) : c < infinity := by
    rw [less_iff _ _ (finite_number c finite) infinity_number, height_infinity,
      height_finite c finite]
    exact WithBot.coe_lt_coe.mpr (WithTop.coe_lt_top _)
  have order (best c : Float) (finiteBest : best.isFinite) (finiteC : c.isFinite) :
      c < best ↔ -value best < -value c := by
    rw [less_finite_iff c best finiteC finiteBest, neg_lt_neg_iff]
  obtain ⟨finite, member, above⟩ :=
    fold_best (fun best c => c < best) (fun c => -value c) order infinity first values.toList
      (by simpa using some)
  rw [← opened] at finite member above
  exact ⟨finite, Array.mem_toList_iff.mp member, fun c memberC finiteC =>
    neg_le_neg_iff.mp (above c (Array.mem_toList_iff.mpr memberC) finiteC)⟩

theorem ceiling_high : sixteenthOfLargest.isFinite ∧ 2 ^ 53 < value sixteenthOfLargest := by
  have scale : (2 : ℚ) ^ (1 : ℤ) < 2 ^ (967 : ℤ) := zpow_lt_zpow_right₀ (by norm_num) (by norm_num)
  refine ⟨rfl, ?_⟩
  rw [ceiling_value]
  generalize (967 : ℤ) = e at scale
  norm_num at scale ⊢
  linarith

theorem ceiling_positive : 0 < value sixteenthOfLargest := lt_trans (by norm_num) ceiling_high.2

theorem ten_exact : (10 : Float).isFinite ∧ value 10 = (10 : ℕ) := whole_exact 10 (by norm_num)

theorem ten_large : (0 : Float) < 10 ∧ ((1 : ℚ) : WithTop ℚ) ≤ height 10 := by
  rw [positive_iff 10 ten_exact.1, height_finite 10 ten_exact.1, ten_exact.2]
  constructor <;> norm_cast

theorem forbidden_finite (greatest : Float) (cells : ℕ) (some : 0 < cells) :
    (forbidden greatest cells).isFinite ∧ 0 < value (forbidden greatest cells) := by
  by_cases costs : 0 < greatest
  · obtain ⟨cellsPositive, one⟩ := natural_large cells some
    have tens := product_positive 10 greatest ten_large.1 costs (Or.inl ten_large.2)
    have positive := product_positive _ _ tens cellsPositive (Or.inr one)
    rw [forbidden, if_pos costs]
    by_cases low : 10 * greatest * Float.ofNat cells < sixteenthOfLargest
    · simp only [low, if_true]
      have finite := bounded_finite _ _ ceiling_high.1 positive low
      exact ⟨finite, (positive_iff _ finite).mp positive⟩
    · simp only [low, if_false]
      exact ⟨ceiling_high.1, ceiling_positive⟩
  · rw [forbidden, if_neg costs]
    exact ⟨ten_exact.1, by rw [ten_exact.2]; norm_num⟩

theorem forbidden_exact (greatest : Float) (cells n : ℕ) (finite : greatest.isFinite)
    (whole : value greatest = n) (some : 0 < cells) (room : 20 * n * cells ≤ 2 ^ 53) :
    (forbidden greatest cells).isFinite ∧
      value (forbidden greatest cells) = if 0 < n then 10 * n * cells else 10 := by
  have positive : 0 < greatest ↔ 0 < n := by
    rw [positive_iff greatest finite, whole]
    exact_mod_cast Iff.rfl
  by_cases costs : 0 < n
  · have many : cells ≤ n * cells := Nat.le_mul_of_pos_left _ costs
    have least : n ≤ n * cells := Nat.le_mul_of_pos_right _ some
    rw [Nat.mul_assoc] at room
    have count := whole_exact cells (by omega)
    have tens := product_exact 10 greatest (10 * n) ten_exact.1 finite
      (by rw [whole, ten_exact.2]; push_cast; rfl)
      (by rw [abs_of_nonneg (by positivity)]; exact_mod_cast (by omega : 10 * n ≤ 2 ^ 53))
    have price := product_exact (10 * greatest) (Float.ofNat cells) (10 * n * cells) tens.1 count.1
      (by rw [tens.2, count.2]; push_cast; rfl)
      (by rw [abs_of_nonneg (by positivity), mul_assoc];
          exact_mod_cast (by omega : 10 * (n * cells) ≤ 2 ^ 53))
    have below : 10 * greatest * Float.ofNat cells < sixteenthOfLargest := by
      rw [less_finite_iff _ _ price.1 ceiling_high.1, price.2]
      refine lt_of_le_of_lt ?_ ceiling_high.2
      rw [mul_assoc]
      exact_mod_cast (by omega : 10 * (n * cells) ≤ 2 ^ 53)
    rw [forbidden, if_pos (positive.mpr costs)]
    simp only [below, if_true, costs]
    exact ⟨price.1, by rw [price.2]; push_cast; rfl⟩
  · rw [forbidden, if_neg (positive.not.mpr costs), if_neg costs]
    exact ⟨ten_exact.1, by rw [ten_exact.2]⟩

end Pricing

end LinearAssignment
