import Mathlib.Algebra.BigOperators.Ring.List
import Mathlib.Algebra.Order.BigOperators.Group.List
import Mathlib.Algebra.Order.Field.Basic
import Mathlib.Tactic.FieldSimp
import Mathlib.Tactic.Linarith

/-!
# Weighted means of lists

The mean of the values of a list with weights that are not negative, which is zero when all weights
are. It lies between bounds of the values (`weightedMean_nonneg`, `weightedMean_le`) and grows with
them (`weightedMean_le_weightedMean`). One more element whose value is zero draws the mean to zero
unless its weight is zero or the mean is zero already (`weightedMean_concat_zero_iff`).
-/

namespace MeshRouter.Lib

section Mean

variable {𝕜 α β : Type} [Field 𝕜] {weight value : α → 𝕜} {l : List α}

/-- The sum of the values times the weights, over the sum of the weights. -/
def weightedMean (weight value : α → 𝕜) (l : List α) : 𝕜 :=
  (l.map fun a => value a * weight a).sum / (l.map weight).sum

theorem weightedMean_map (f : β → α) (l : List β) :
    weightedMean weight value (l.map f) = weightedMean (weight ∘ f) (value ∘ f) l := by
  unfold weightedMean
  rw [List.map_map, List.map_map]
  rfl

theorem weightedMean_congr {weight' : α → 𝕜} (hweight : ∀ a ∈ l, weight a = weight' a) :
    weightedMean weight value l = weightedMean weight' value l := by
  unfold weightedMean
  rw [List.map_congr_left hweight,
    List.map_congr_left fun a ha => congrArg (value a * ·) (hweight a ha)]

end Mean

section Nonneg

variable {𝕜 α : Type} [Field 𝕜] [LinearOrder 𝕜] [IsStrictOrderedRing 𝕜]
  {weight value value' : α → 𝕜} {l : List α} (hweight : ∀ a ∈ l, 0 ≤ weight a)

include hweight

/-- The sum of the weights is not negative. -/
theorem sum_weight_nonneg : 0 ≤ (l.map weight).sum := by
  refine List.sum_nonneg fun x hx => ?_
  obtain ⟨a, ha, rfl⟩ := List.mem_map.mp hx
  exact hweight a ha

/-- The mean grows with the values. -/
theorem weightedMean_le_weightedMean (hvalue : ∀ a ∈ l, value a ≤ value' a) :
    weightedMean weight value l ≤ weightedMean weight value' l := by
  have hsum : (l.map fun a => value a * weight a).sum ≤ (l.map fun a => value' a * weight a).sum :=
    List.sum_le_sum fun a ha => mul_le_mul_of_nonneg_right (hvalue a ha) (hweight a ha)
  exact div_le_div_of_nonneg_right hsum (sum_weight_nonneg hweight)

/-- The mean of values that are not negative is not negative. -/
theorem weightedMean_nonneg (hvalue : ∀ a ∈ l, 0 ≤ value a) : 0 ≤ weightedMean weight value l := by
  have hzero : weightedMean weight (fun _ => 0) l = 0 := by simp [weightedMean]
  exact hzero.symm.trans_le (weightedMean_le_weightedMean hweight hvalue)

/-- The mean is at most what bounds the values. -/
theorem weightedMean_le {c : 𝕜} (hc : 0 ≤ c) (hvalue : ∀ a ∈ l, value a ≤ c) :
    weightedMean weight value l ≤ c := by
  have hconst : weightedMean weight (fun _ => c) l =
      c * ((l.map weight).sum / (l.map weight).sum) := by
    rw [weightedMean, List.sum_map_mul_left, mul_div_assoc]
  have hle := weightedMean_le_weightedMean hweight hvalue
  rw [hconst] at hle
  exact hle.trans (mul_le_of_le_one_right hc (div_self_le_one _))

/-- The mean of values that are not negative is zero when each is zero or has weight zero. -/
theorem weightedMean_eq_zero_iff (hvalue : ∀ a ∈ l, 0 ≤ value a) :
    weightedMean weight value l = 0 ↔ ∀ a ∈ l, weight a = 0 ∨ value a = 0 := by
  constructor
  · intro hmean a ha
    rcases div_eq_zero_iff.mp hmean with hsum | hsum
    · have hproducts : ∀ x ∈ l.map fun a => value a * weight a, 0 ≤ x := by
        intro x hx
        obtain ⟨a, ha, rfl⟩ := List.mem_map.mp hx
        exact mul_nonneg (hvalue a ha) (hweight a ha)
      have hproduct := List.all_zero_of_le_zero_le_of_sum_eq_zero hproducts hsum
        (List.mem_map_of_mem ha)
      exact (mul_eq_zero.mp hproduct).symm
    · have hweights : ∀ x ∈ l.map weight, 0 ≤ x := by
        intro x hx
        obtain ⟨a, ha, rfl⟩ := List.mem_map.mp hx
        exact hweight a ha
      exact .inl (List.all_zero_of_le_zero_le_of_sum_eq_zero hweights hsum (List.mem_map_of_mem ha))
  · intro hall
    have hproducts : l.map (fun a => value a * weight a) = l.map fun _ => 0 :=
      List.map_congr_left fun a ha => mul_eq_zero.mpr (hall a ha).symm
    simp [weightedMean, hproducts]

/-- With one more element of value zero the mean stays the same when the element has weight zero, or
the mean was zero. -/
theorem weightedMean_concat_zero_iff {a : α} (ha : 0 ≤ weight a) (hzero : value a = 0)
    (hvalue : ∀ a ∈ l, 0 ≤ value a) :
    weightedMean weight value (l ++ [a]) = weightedMean weight value l ↔
      weight a = 0 ∨ weightedMean weight value l = 0 := by
  have hconcat : weightedMean weight value (l ++ [a]) =
      (l.map fun a => value a * weight a).sum / ((l.map weight).sum + weight a) := by
    simp [weightedMean, hzero]
  by_cases htotal : (l.map weight).sum = 0
  · -- No element has a weight, so both means are zero.
    have hmean : weightedMean weight value l = 0 := by rw [weightedMean, htotal, div_zero]
    have hall := (weightedMean_eq_zero_iff hweight hvalue).mp hmean
    have hsum : (l.map fun a => value a * weight a).sum = 0 := by
      rw [List.map_congr_left fun a ha => mul_eq_zero.mpr (hall a ha).symm]
      simp
    rw [hconcat, hsum, hmean, zero_div]
    simp
  · have hpos : 0 < (l.map weight).sum := (sum_weight_nonneg hweight).lt_of_ne' htotal
    rw [hconcat, weightedMean, div_eq_div_iff (add_pos_of_pos_of_nonneg hpos ha).ne' htotal,
      div_eq_zero_iff, or_iff_left htotal, mul_add, left_eq_add, mul_eq_zero, or_comm]

end Nonneg

end MeshRouter.Lib
