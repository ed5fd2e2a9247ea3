import Mathlib.Algebra.BigOperators.Field
import Mathlib.Algebra.Order.BigOperators.Group.Finset
import Mathlib.Algebra.Order.Field.Basic
import Mathlib.Data.Nat.Count
import Mathlib.Tactic.Linarith
import Mathlib.Tactic.Ring

/-!
# Smooth weighted selection

A greedy way to give out turns in proportion to weights. Every candidate has an accumulator. In each
round every accumulator grows by the weight of its candidate, a candidate with the greatest one is
picked, and its accumulator pays the total weight (`WeightedPick`; any rule may break ties).

The accumulators then sum to what they did before, and each stays above minus the total weight,
since the greatest of them is not below their mean. As an accumulator is what its candidate is owed
(`accumulator_eq`), no candidate is ever ahead of its share by a whole turn (`count_lt`). With
natural weights this leaves one possibility for a number of rounds equal to the total weight: each
candidate is picked as often as its weight says (`count_eq`), and the accumulators are zero again.
-/

namespace MeshRouter.Lib

variable {ι K : Type} [DecidableEq ι] [Field K] [LinearOrder K]

/-- A round of the selection among `s` with the weights `w`: the accumulators go from `c` to `c'`
and `j` is picked. -/
structure WeightedPick (s : Finset ι) (w c c' : ι → K) (j : ι) : Prop where
  mem : j ∈ s
  max : ∀ i ∈ s, c i + w i ≤ c j + w j
  next : ∀ i ∈ s, c' i = c i + w i - if i = j then ∑ i ∈ s, w i else 0

variable {s : Finset ι} {w c c' : ι → K} {j : ι}

/-- A round keeps the sum of the accumulators. -/
theorem WeightedPick.sum_eq (h : WeightedPick s w c c' j) : ∑ i ∈ s, c' i = ∑ i ∈ s, c i := by
  rw [Finset.sum_congr rfl h.next, Finset.sum_sub_distrib, Finset.sum_add_distrib,
    Finset.sum_ite_eq' s j, if_pos h.mem]
  ring

/-- A round keeps the accumulators above minus the total weight. -/
theorem WeightedPick.neg_lt [IsStrictOrderedRing K] (h : WeightedPick s w c c' j)
    (hw : ∀ i ∈ s, 0 < w i) (hsum : ∑ i ∈ s, c i = 0) (hc : ∀ i ∈ s, -∑ i ∈ s, w i < c i) :
    ∀ i ∈ s, -∑ i ∈ s, w i < c' i := by
  intro i hi
  rw [h.next i hi]
  split_ifs with hij
  · -- The greatest of the grown accumulators is positive, as their sum is.
    subst hij
    have hpos : 0 < c i + w i := by
      by_contra hle
      have hall : ∀ x ∈ s, c x + w x ≤ 0 := fun x hx => (h.max x hx).trans (not_lt.mp hle)
      have htotal := Finset.sum_nonpos hall
      rw [Finset.sum_add_distrib, hsum, zero_add] at htotal
      exact absurd (Finset.sum_pos hw ⟨i, hi⟩) (not_lt.mpr htotal)
    linarith
  · have hci := hc i hi
    have hwi := hw i hi
    linarith

/-! ## Rounds without end

The accumulators before round `k` are `c k`, and round `k` picks `j k`. -/

section Rounds

variable {c : ℕ → ι → K} {j : ℕ → ι} (h : ∀ k, WeightedPick s w (c k) (c (k + 1)) (j k))
  (hzero : ∀ i ∈ s, c 0 i = 0)

include h hzero

/-- The accumulators sum to zero. -/
theorem sum_accumulators (k : ℕ) : ∑ i ∈ s, c k i = 0 := by
  induction k with
  | zero => exact Finset.sum_eq_zero hzero
  | succ k ih => rw [(h k).sum_eq, ih]

/-- An accumulator holds what its candidate is owed: its share of the rounds, less its turns. -/
theorem accumulator_eq (k : ℕ) {i : ι} (hi : i ∈ s) :
    c k i = k * w i - (Nat.count (fun n => j n = i) k : K) * ∑ i ∈ s, w i := by
  induction k with
  | zero => simp [hzero i hi]
  | succ k ih =>
    rw [(h k).next i hi, ih, Nat.count_succ]
    by_cases hij : j k = i
    · rw [if_pos hij, if_pos hij.symm]
      push_cast
      ring
    · rw [if_neg hij, if_neg (Ne.symm hij)]
      push_cast
      ring

omit hzero in
/-- Every round is a turn of one candidate. -/
theorem sum_count (k : ℕ) : ∑ i ∈ s, Nat.count (fun n => j n = i) k = k := by
  induction k with
  | zero => simp
  | succ k ih =>
    simp only [Nat.count_succ]
    rw [Finset.sum_add_distrib, ih, Finset.sum_ite_eq s (j k), if_pos (h k).mem]

variable [IsStrictOrderedRing K]

/-- The accumulators stay above minus the total weight. -/
theorem neg_lt_accumulator (hw : ∀ i ∈ s, 0 < w i) (k : ℕ) :
    ∀ i ∈ s, -∑ i ∈ s, w i < c k i := by
  induction k with
  | zero =>
    intro i hi
    rw [hzero i hi]
    exact neg_neg_of_pos (Finset.sum_pos hw ⟨i, hi⟩)
  | succ k ih => exact (h k).neg_lt hw (sum_accumulators h hzero k) ih

/-- A candidate gets less than a turn more than its share. -/
theorem count_lt (hw : ∀ i ∈ s, 0 < w i) (k : ℕ) {i : ι} (hi : i ∈ s) :
    (Nat.count (fun n => j n = i) k : K) < k * w i / (∑ i ∈ s, w i) + 1 := by
  have htotal : 0 < ∑ i ∈ s, w i := Finset.sum_pos hw ⟨i, hi⟩
  have hlt := neg_lt_accumulator h hzero hw k i hi
  rw [accumulator_eq h hzero k hi] at hlt
  rw [← sub_lt_iff_lt_add, lt_div_iff₀ htotal]
  linarith

/-- With natural weights, a number of rounds equal to the total weight gives every candidate as many
turns as its weight. -/
theorem count_eq (n : ι → ℕ) (hn : ∀ i ∈ s, w i = n i) (hw : ∀ i ∈ s, 0 < w i) {i : ι}
    (hi : i ∈ s) : Nat.count (fun m => j m = i) (∑ i ∈ s, n i) = n i := by
  have htotal : ∑ i ∈ s, w i = ((∑ i ∈ s, n i : ℕ) : K) := by
    rw [Finset.sum_congr rfl hn, Nat.cast_sum]
  have hle : ∀ x ∈ s, Nat.count (fun m => j m = x) (∑ i ∈ s, n i) ≤ n x := by
    intro x hx
    have hpos : (0 : K) < ∑ i ∈ s, w i := Finset.sum_pos hw ⟨x, hx⟩
    have hlt := count_lt h hzero hw (∑ i ∈ s, n i) hx
    rw [← htotal, mul_div_cancel_left₀ _ hpos.ne', hn x hx] at hlt
    exact Nat.lt_succ_iff.mp (by exact_mod_cast hlt)
  -- No count is above its weight, and the counts and the weights have one sum.
  have hsum : ∑ x ∈ s, Nat.count (fun m => j m = x) (∑ i ∈ s, n i) = ∑ x ∈ s, n x :=
    sum_count h _
  exact (Finset.sum_eq_sum_iff_of_le hle).mp hsum i hi

/-- With natural weights, that number of rounds brings the accumulators back to zero. -/
theorem accumulator_eq_zero (n : ι → ℕ) (hn : ∀ i ∈ s, w i = n i) (hw : ∀ i ∈ s, 0 < w i) {i : ι}
    (hi : i ∈ s) : c (∑ i ∈ s, n i) i = 0 := by
  have htotal : ∑ i ∈ s, w i = ((∑ i ∈ s, n i : ℕ) : K) := by
    rw [Finset.sum_congr rfl hn, Nat.cast_sum]
  rw [accumulator_eq h hzero _ hi, count_eq h hzero n hn hw hi, hn i hi, ← htotal]
  ring

end Rounds

end MeshRouter.Lib
