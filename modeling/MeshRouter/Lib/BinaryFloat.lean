import Mathlib.Algebra.Order.Ring.Nat
import Mathlib.Data.Int.Order.Basic
import Mathlib.Tactic.Ring

/-!
# Binary floats

The floats of a binary format, as far as adding and comparing goes. A finite float is a whole number
of the least positive one, so that the exact sum of two of them is such a number too. `round` gives
the nearest float with `p` bits, the even one of two, or an infinity when that is beyond the largest
finite one, which is `2 ^ p - 1` with `t` zeros behind it. The two zeros are one here, for they
compare as equal.

A sum with something positive is above minus infinity exactly if the first summand was, and neither
is not a number (`negInf_lt_add_iff`): it does not round down beyond what was there before.
-/

namespace MeshRouter.Lib

/-! ## Rounding -/

/-- `n / d`, rounded to the nearest number, and to the even one of two. -/
def roundEven (n d : ℕ) : ℕ :=
  if 2 * (n % d) < d ∨ 2 * (n % d) = d ∧ n / d % 2 = 0 then n / d else n / d + 1

/-- The number with `p` bits and zeros behind them that is nearest to `n`. -/
def nearest (p n : ℕ) : ℕ := roundEven n (2 ^ (n.log2 + 1 - p)) * 2 ^ (n.log2 + 1 - p)

/-- Rounding does not pass a multiple. -/
theorem roundEven_le {n d k : ℕ} (hd : 0 < d) (h : n ≤ k * d) : roundEven n d ≤ k := by
  have hdiv : n / d ≤ k := Nat.div_le_of_le_mul (by rwa [Nat.mul_comm] at h)
  unfold roundEven
  split_ifs with hdown
  · exact hdiv
  · -- At the multiple itself nothing is left over, and that rounds down.
    have hrest : n % d ≠ 0 := fun hzero => hdown (.inl (by omega))
    have hne : n / d ≠ k := by
      rintro rfl
      have hsplit := Nat.div_add_mod n d
      rw [Nat.mul_comm d] at hsplit
      omega
    omega

/-- The largest number with `p` bits and `t` zeros behind them. -/
def maxUnits (p t : ℕ) : ℕ := (2 ^ p - 1) * 2 ^ t

/-- Zero is not rounded. -/
theorem nearest_zero (p : ℕ) : nearest p 0 = 0 := by
  have hzero : roundEven 0 (2 ^ (Nat.log2 0 + 1 - p)) ≤ 0 :=
    roundEven_le (Nat.two_pow_pos _) (Nat.zero_le _)
  unfold nearest
  rw [Nat.le_zero.mp hzero, Nat.zero_mul]

/-- What is not beyond the largest number does not round beyond it. -/
theorem nearest_le {p t n : ℕ} (h : n ≤ maxUnits p t) : nearest p n ≤ maxUnits p t := by
  rcases n.eq_zero_or_pos with rfl | hpos
  · exact (nearest_zero p).trans_le (Nat.zero_le _)
  have hzeros : n.log2 + 1 - p ≤ t := by
    by_contra hmore
    have hlow : 2 ^ n.log2 ≤ n := Nat.log2_self_le hpos.ne'
    have hpow : 2 ^ (p + t) ≤ 2 ^ n.log2 := Nat.pow_le_pow_right Nat.two_pos (by omega)
    have hmax : maxUnits p t < 2 ^ (p + t) := by
      unfold maxUnits
      rw [pow_add]
      exact Nat.mul_lt_mul_of_pos_right (Nat.sub_lt (Nat.two_pow_pos p) Nat.one_pos)
        (Nat.two_pow_pos t)
    omega
  -- The largest number is a multiple of the unit to which `n` is rounded.
  have hmultiple : maxUnits p t =
      (2 ^ p - 1) * 2 ^ (t - (n.log2 + 1 - p)) * 2 ^ (n.log2 + 1 - p) := by
    unfold maxUnits
    rw [mul_assoc, ← pow_add, Nat.sub_add_cancel hzeros]
  rw [hmultiple] at h ⊢
  exact Nat.mul_le_mul_right _ (roundEven_le (Nat.two_pow_pos _) h)

/-! ## Floats -/

/-- A float with `p` bits, whose finite values have at most `t` zeros behind them. -/
inductive BinaryFloat (p t : ℕ) where
  | finite (units : ℤ) (bounded : units.natAbs ≤ maxUnits p t)
  | infinite (negative : Bool)
  | nan
deriving DecidableEq

namespace BinaryFloat

variable {p t : ℕ}

/-- A rounded number with its sign. -/
theorem natAbs_sign_mul_le (units : ℤ) (n : ℕ) : (units.sign * n).natAbs ≤ n := by
  rw [Int.natAbs_mul, Int.natAbs_natCast]
  have hsign : units.sign.natAbs ≤ 1 := by
    rw [Int.natAbs_sign]
    split_ifs <;> omega
  calc units.sign.natAbs * n ≤ 1 * n := Nat.mul_le_mul_right n hsign
    _ = n := Nat.one_mul n

/-- The nearest float. -/
def round (units : ℤ) : BinaryFloat p t :=
  if h : nearest p units.natAbs ≤ maxUnits p t then
    .finite (units.sign * nearest p units.natAbs) ((natAbs_sign_mul_le units _).trans h)
  else
    .infinite (units < 0)

instance : Zero (BinaryFloat p t) := ⟨.finite 0 (Nat.zero_le _)⟩

/-- The sum, rounded once. -/
protected def add : BinaryFloat p t → BinaryFloat p t → BinaryFloat p t
  | .finite a _, .finite b _ => round (a + b)
  | .infinite a, .infinite b => if a = b then .infinite a else .nan
  | .infinite a, .finite _ _ => .infinite a
  | .finite _ _, .infinite b => .infinite b
  | .nan, _ => .nan
  | _, .nan => .nan

instance : Add (BinaryFloat p t) := ⟨BinaryFloat.add⟩

instance : Neg (BinaryFloat p t) where
  neg
    | .finite a h => .finite (-a) ((Int.natAbs_neg a).trans_le h)
    | .infinite a => .infinite !a
    | .nan => .nan

instance : Sub (BinaryFloat p t) := ⟨fun a b => a + -b⟩

/-- The order, in which nothing is less than what is not a number. -/
protected def lt : BinaryFloat p t → BinaryFloat p t → Bool
  | .finite a _, .finite b _ => a < b
  | .infinite a, .infinite b => a && !b
  | .infinite a, .finite _ _ => a
  | .finite _ _, .infinite b => !b
  | .nan, _ => false
  | _, .nan => false

/-- Less or equal, which also never holds of what is not a number. -/
protected def le : BinaryFloat p t → BinaryFloat p t → Bool
  | .finite a _, .finite b _ => a ≤ b
  | .infinite a, .infinite b => a || !b
  | .infinite a, .finite _ _ => a
  | .finite _ _, .infinite b => !b
  | .nan, _ => false
  | _, .nan => false

instance : LT (BinaryFloat p t) := ⟨fun a b => a.lt b = true⟩

instance : LE (BinaryFloat p t) := ⟨fun a b => a.le b = true⟩

instance : DecidableLT (BinaryFloat p t) := fun a b => inferInstanceAs (Decidable (a.lt b = true))

instance : DecidableLE (BinaryFloat p t) := fun a b => inferInstanceAs (Decidable (a.le b = true))

/-- Minus infinity. -/
def negInf : BinaryFloat p t := .infinite true

/-- What is above minus infinity. -/
theorem negInf_lt_iff {a : BinaryFloat p t} : negInf < a ↔ a ≠ nan ∧ a ≠ negInf := by
  cases a with
  | finite | nan => simp [negInf, LT.lt, BinaryFloat.lt]
  | infinite negative => cases negative <;> simp [negInf, LT.lt, BinaryFloat.lt]

/-- Not further below zero than a float, and so no minus infinity. -/
theorem negInf_lt_round {a b : ℤ} (ha : a.natAbs ≤ maxUnits p t) (hb : 0 < b) :
    (negInf : BinaryFloat p t) < round (a + b) := by
  rw [negInf_lt_iff]
  unfold round
  split_ifs with hfinite
  · exact ⟨nofun, nofun⟩
  · refine ⟨nofun, fun hneg => hfinite (nearest_le ?_)⟩
    have hbelow : a + b < 0 := by simpa [negInf] using hneg
    omega

/-- A sum with something positive is above minus infinity exactly if both summands are. -/
theorem negInf_lt_add_iff {a b : BinaryFloat p t} (hb : ¬ b ≤ 0) :
    negInf < a + b ↔ negInf < a ∧ negInf < b := by
  cases b with
  | nan =>
    have hsum : a + nan = nan := by cases a <;> rfl
    simp [negInf_lt_iff, hsum]
  | infinite negative =>
    have hpos : negative = false := by
      cases negative with
      | false => rfl
      | true => exact absurd rfl hb
    subst hpos
    cases a with
    | finite => exact iff_of_true rfl ⟨rfl, rfl⟩
    | infinite negative =>
      cases negative with
      | false => exact iff_of_true rfl ⟨rfl, rfl⟩
      | true =>
        -- The sum of two opposite infinities is not a number.
        exact iff_of_false Bool.false_ne_true fun h => Bool.false_ne_true h.1
    | nan => exact iff_of_false nofun fun h => nomatch h.1
  | finite b hbounded =>
    have hbpos : 0 < b := by
      by_contra hle
      exact hb (decide_eq_true (not_lt.mp hle))
    cases a with
    | finite a ha => exact iff_of_true (negInf_lt_round ha hbpos) ⟨rfl, rfl⟩
    | infinite negative => exact (and_iff_left rfl).symm
    | nan => exact iff_of_false nofun fun h => nomatch h.1

end BinaryFloat

/-- The floats of 64 bits. The least positive one is `2 ^ -1074`. -/
abbrev Binary64 : Type := BinaryFloat 53 2045

instance : One Binary64 := ⟨.round (2 ^ 1074)⟩

end MeshRouter.Lib
