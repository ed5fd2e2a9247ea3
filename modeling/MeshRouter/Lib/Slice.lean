import Mathlib.Data.List.DropRight
import Mathlib.Algebra.Order.Ring.Int

/-!
# Slices with signed bounds

`xs[start:]` of a list where a negative `start` counts from the end. A negative bound takes that
many elements from the tail (`sliceFrom_neg`), and the bound `0` takes the whole list, so that
`xs[-k:]` is the last `k` elements of `xs` for every `k` but `0` (`sliceFrom_neg_eq_rtake_iff`).
-/

namespace MeshRouter.Lib

variable {α : Type}

/-- `xs[start:]`. -/
def sliceFrom (start : ℤ) (xs : List α) : List α :=
  if start < 0 then xs.drop (start + xs.length).toNat else xs.drop start.toNat

/-- The bound `0` takes the whole list. -/
@[simp]
theorem sliceFrom_zero (xs : List α) : sliceFrom 0 xs = xs := by
  rw [sliceFrom, if_neg (lt_irrefl 0), Int.toNat_zero, List.drop_zero]

/-- A negative bound takes that many elements from the tail. -/
theorem sliceFrom_neg {k : ℕ} (hk : 0 < k) (xs : List α) : sliceFrom (-k) xs = xs.rtake k := by
  have hneg : -(k : ℤ) < 0 := by omega
  have hstart : (-(k : ℤ) + xs.length).toNat = xs.length - k := by omega
  rw [sliceFrom, if_pos hneg, hstart, List.rtake]

/-- More elements than there are is all of them. -/
theorem rtake_min_length (k : ℕ) (xs : List α) : xs.rtake (min k xs.length) = xs.rtake k := by
  have hstart : xs.length - min k xs.length = xs.length - k := by omega
  rw [List.rtake, List.rtake, hstart]

/-- `xs[-k:]` is the last `k` elements, unless `k` is `0` and there are elements. -/
theorem sliceFrom_neg_eq_rtake_iff (k : ℕ) (xs : List α) :
    sliceFrom (-k) xs = xs.rtake k ↔ (k = 0 → xs = []) := by
  rcases k.eq_zero_or_pos with rfl | hk
  · rw [Nat.cast_zero, neg_zero, sliceFrom_zero, List.rtake_zero]
    simp
  · exact iff_of_true (sliceFrom_neg hk xs) fun hzero => absurd hzero hk.ne'

end MeshRouter.Lib
