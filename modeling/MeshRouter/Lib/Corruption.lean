import Mathlib.Data.List.Basic
import Mathlib.Data.Nat.Basic

/-!
# Lists of which some elements are corrupted

What a protocol is given may differ from what its honest parties have sent: some elements of a list
have been replaced by others, or have been lost. `Corrupts k l l'` says that this has happened to at
most `k` of them. A count of the elements then differs by at most `k`
(`Corrupts.countP_le`, `Corrupts.le_countP`), and `exists_corrupts` is the worst that can be done to
it: `k` of the elements that are counted are replaced by one that is not.
-/

namespace MeshRouter.Lib

variable {α : Type}

/-- At most `k` elements of the first list are replaced or lost in the second. -/
inductive Corrupts : ℕ → List α → List α → Prop
  | nil (k : ℕ) : Corrupts k [] []
  | keep (a : α) {k : ℕ} {l l' : List α} (h : Corrupts k l l') : Corrupts k (a :: l) (a :: l')
  | replace (a b : α) {k : ℕ} {l l' : List α} (h : Corrupts k l l') :
    Corrupts (k + 1) (a :: l) (b :: l')
  | lose (a : α) {k : ℕ} {l l' : List α} (h : Corrupts k l l') : Corrupts (k + 1) (a :: l) l'

namespace Corrupts

variable {k : ℕ} {l l' : List α}

/-- A list is its own corruption. -/
theorem refl (k : ℕ) (l : List α) : Corrupts k l l := by
  induction l with
  | nil => exact nil k
  | cons a l ih => exact keep a ih

/-- Nothing is added. -/
theorem length_le (h : Corrupts k l l') : l'.length ≤ l.length := by
  induction h with
  | nil => exact Nat.le_refl _
  | keep a _ ih => exact Nat.succ_le_succ ih
  | replace a b _ ih => exact Nat.succ_le_succ ih
  | lose a _ ih => exact Nat.le_succ_of_le ih

/-- A corrupted element may be counted. -/
theorem countP_le (h : Corrupts k l l') (p : α → Bool) : l'.countP p ≤ l.countP p + k := by
  induction h with
  | nil => exact Nat.zero_le _
  | keep a _ ih =>
    rw [List.countP_cons, List.countP_cons]
    omega
  | replace a b _ ih =>
    rw [List.countP_cons, List.countP_cons]
    split_ifs
    all_goals omega
  | lose a _ ih =>
    rw [List.countP_cons]
    omega

/-- A corrupted element may have been counted. -/
theorem le_countP (h : Corrupts k l l') (p : α → Bool) : l.countP p ≤ l'.countP p + k := by
  induction h with
  | nil => exact Nat.zero_le _
  | keep a _ ih =>
    rw [List.countP_cons, List.countP_cons]
    omega
  | replace a b _ ih =>
    rw [List.countP_cons, List.countP_cons]
    split_ifs
    all_goals omega
  | lose a _ ih =>
    rw [List.countP_cons]
    split_ifs
    all_goals omega

end Corrupts

/-- The worst corruption of a count: up to `k` of its elements are replaced by `b`. -/
theorem exists_corrupts (k : ℕ) (l : List α) {p : α → Bool} {b : α} (hp : p b = false) :
    ∃ l', Corrupts k l l' ∧ l'.length = l.length ∧ l'.countP p = l.countP p - k ∧
      ∀ q : α → Bool, (∀ a, p a = true → q a = false) → q b = true →
        l'.countP q = l.countP q + min k (l.countP p) := by
  induction l generalizing k with
  | nil => exact ⟨[], .nil k, rfl, (Nat.zero_sub k).symm, fun q _ _ => by simp⟩
  | cons a l ih =>
    cases k with
    | zero =>
      refine ⟨a :: l, .refl 0 _, rfl, rfl, fun q _ _ => ?_⟩
      rw [Nat.zero_min, Nat.add_zero]
    | succ k =>
      cases ha : p a with
      | true =>
        obtain ⟨l', hl', hlength, hcount, hothers⟩ := ih k
        refine ⟨b :: l', hl'.replace a b, by rw [List.length_cons, List.length_cons, hlength],
          ?_, fun q hdisjoint hq => ?_⟩
        · rw [List.countP_cons_of_neg (by simp [hp]), List.countP_cons_of_pos ha, hcount]
          omega
        · have hqa := hdisjoint a ha
          rw [List.countP_cons_of_pos hq, List.countP_cons_of_neg (by simp [hqa]),
            List.countP_cons_of_pos ha, hothers q hdisjoint hq]
          omega
      | false =>
        obtain ⟨l', hl', hlength, hcount, hothers⟩ := ih (k + 1)
        refine ⟨a :: l', hl'.keep a, by rw [List.length_cons, List.length_cons, hlength],
          ?_, fun q hdisjoint hq => ?_⟩
        · rw [List.countP_cons_of_neg (by simp [ha]), List.countP_cons_of_neg (by simp [ha]),
            hcount]
        · rw [List.countP_cons, List.countP_cons, List.countP_cons_of_neg (by simp [ha]),
            hothers q hdisjoint hq]
          omega

end MeshRouter.Lib
