import Mathlib.Algebra.BigOperators.Ring.Finset
import Mathlib.Algebra.Order.BigOperators.Group.Finset
import Mathlib.Algebra.Order.Ring.Defs
import Mathlib.Tactic.Linarith
import Mathlib.Tactic.Ring

/-!
# Checks that are acted upon later

A counter is to stay below a limit. A party that wants to add to it looks first whether the sum
would still be within the limit, and adds later, when others may have added in the meantime. What a
party was granted and has not added yet is its promise.

The counter can exceed the limit, but not by more than the others can hold in promises: with `n`
parties that are granted at most `most` at a time it stays within `limit + (n - 1) * most`
(`Sound.within`). The reason is that this bounds the counter and all promises together: a grant
looks at the counter and is bounded by the limit, whatever the other promises are, and when a
promise is kept the sum does not change.
-/

namespace MeshRouter.Lib

/-- A counter, and what each party has still to add. -/
structure Till (ι K : Type) where
  used : K
  promised : ι → K

namespace Till

variable {ι K : Type} [Fintype ι] [CommRing K]

/-- The sum of the promises, with one in place of another. -/
theorem sum_update [DecidableEq ι] (promised : ι → K) (i : ι) (x : K) :
    ∑ j, Function.update promised i x j = ∑ j, promised j - promised i + x := by
  rw [Finset.sum_update_of_mem (Finset.mem_univ i), Finset.sdiff_singleton_eq_erase,
    ← Finset.add_sum_erase _ promised (Finset.mem_univ i)]
  ring

variable [LinearOrder K]

/-- What happens to a counter: a party is granted an amount, keeps its promise or drops it, or adds
an amount at once, as it is granted; and the counter is lowered. -/
inductive Step [DecidableEq ι] (limit most : K) (s : Till ι K) : Till ι K → Prop
  | grant (i : ι) (x : K) (hidle : s.promised i = 0) (hnonneg : 0 ≤ x) (hmost : x ≤ most)
    (hfits : 0 < x → s.used + x ≤ limit) :
    Step limit most s { s with promised := Function.update s.promised i x }
  | keep (i : ι) :
    Step limit most s
      { used := s.used + s.promised i, promised := Function.update s.promised i 0 }
  | drop (i : ι) : Step limit most s { s with promised := Function.update s.promised i 0 }
  | add (i : ι) (x : K) (hidle : s.promised i = 0) (hnonneg : 0 ≤ x) (hmost : x ≤ most)
    (hfits : 0 < x → s.used + x ≤ limit) : Step limit most s { s with used := s.used + x }
  | lower (used : K) (hnonneg : 0 ≤ used) (hle : used ≤ s.used) :
    Step limit most s { s with used := used }

/-- The invariant: the counter and the promises together are bounded. -/
structure Sound (limit most : K) (s : Till ι K) : Prop where
  used_nonneg : 0 ≤ s.used
  promised_nonneg : ∀ i, 0 ≤ s.promised i
  promised_le : ∀ i, s.promised i ≤ min most limit
  total : s.used + ∑ i, s.promised i ≤ limit + (Fintype.card ι - 1) * min most limit

variable {limit most : K} {s t : Till ι K}

variable [IsStrictOrderedRing K]

/-- The counter exceeds the limit by no more than the others can be promised. -/
theorem Sound.within (h : Sound limit most s) :
    s.used ≤ limit + (Fintype.card ι - 1) * min most limit := by
  have htotal := h.total
  have hsum : 0 ≤ ∑ i, s.promised i := Finset.sum_nonneg fun i _ => h.promised_nonneg i
  linarith

/-- An empty counter without promises. -/
theorem sound_zero [Nonempty ι] (hlimit : 0 ≤ limit) (hmost : 0 ≤ most) :
    Sound limit most (⟨0, fun _ => 0⟩ : Till ι K) := by
  have hbound : 0 ≤ min most limit := le_min hmost hlimit
  refine ⟨le_rfl, fun _ => le_rfl, fun _ => hbound, ?_⟩
  have hcard : (1 : K) ≤ Fintype.card ι := Nat.one_le_cast.mpr Fintype.card_pos
  have hothers : 0 ≤ ((Fintype.card ι : K) - 1) * min most limit :=
    mul_nonneg (sub_nonneg.mpr hcard) hbound
  dsimp only
  rw [Finset.sum_const_zero]
  linarith

/-- An amount that is granted is within the limit by itself. -/
theorem Sound.committed_le (h : Sound limit most s) (hlimit : 0 ≤ limit) {x : K} (hmost : x ≤ most)
    (hfits : 0 < x → s.used + x ≤ limit) : x ≤ min most limit := by
  refine le_min hmost ?_
  rcases le_or_gt x 0 with hzero | hpos
  · exact hzero.trans hlimit
  · have hused := h.used_nonneg
    have hsum := hfits hpos
    linarith

variable [DecidableEq ι]

/-- The promises of all but one. -/
theorem Sound.others (h : Sound limit most s) (i : ι) :
    ∑ j, s.promised j - s.promised i ≤ (Fintype.card ι - 1) * min most limit := by
  have hsum : ∑ j ∈ Finset.univ.erase i, s.promised j ≤
      (Finset.univ.erase i).card • min most limit :=
    Finset.sum_le_card_nsmul _ _ _ fun j _ => h.promised_le j
  have hcard : ((Finset.univ.erase i).card : K) = Fintype.card ι - 1 := by
    have hpos : 1 ≤ Fintype.card ι := Fintype.card_pos_iff.mpr ⟨i⟩
    rw [Finset.card_erase_of_mem (Finset.mem_univ i), Finset.card_univ, Nat.cast_sub hpos,
      Nat.cast_one]
  rw [nsmul_eq_mul, hcard] at hsum
  have hsplit := Finset.add_sum_erase _ s.promised (Finset.mem_univ i)
  linarith

/-- A grant leaves room for the promises of the others. -/
theorem Sound.grant_total (h : Sound limit most s) {i : ι} {x : K} (hidle : s.promised i = 0)
    (hnonneg : 0 ≤ x) (hfits : 0 < x → s.used + x ≤ limit) :
    s.used + (∑ j, s.promised j + x) ≤ limit + (Fintype.card ι - 1) * min most limit := by
  rcases hnonneg.eq_or_lt with hzero | hpos
  · rw [← hzero, add_zero]
    exact h.total
  · have hsum := hfits hpos
    have hothers := h.others i
    rw [hidle, sub_zero] at hothers
    linarith

/-- Every step keeps the bound. -/
theorem Sound.step (h : Sound limit most s) (hlimit : 0 ≤ limit) (hmost₀ : 0 ≤ most)
    (hst : Step limit most s t) : Sound limit most t := by
  have hbound : 0 ≤ min most limit := le_min hmost₀ hlimit
  -- The promises after one of them is set.
  have hnonneg : ∀ {i : ι} {x : K}, 0 ≤ x → ∀ j, 0 ≤ Function.update s.promised i x j := by
    intro i x hx j
    rcases eq_or_ne j i with rfl | hj
    · rwa [Function.update_self]
    · rw [Function.update_of_ne hj]
      exact h.promised_nonneg j
  have hle : ∀ {i : ι} {x : K}, x ≤ min most limit →
      ∀ j, Function.update s.promised i x j ≤ min most limit := by
    intro i x hx j
    rcases eq_or_ne j i with rfl | hj
    · rwa [Function.update_self]
    · rw [Function.update_of_ne hj]
      exact h.promised_le j
  have htotal := h.total
  cases hst with
  | grant i x hidle hx hmost hfits =>
    refine ⟨h.used_nonneg, hnonneg hx, hle (h.committed_le hlimit hmost hfits), ?_⟩
    dsimp only
    rw [sum_update, hidle, sub_zero]
    exact h.grant_total hidle hx hfits
  | keep i =>
    refine ⟨add_nonneg h.used_nonneg (h.promised_nonneg i), hnonneg le_rfl, hle hbound, ?_⟩
    dsimp only
    rw [sum_update]
    linarith
  | drop i =>
    refine ⟨h.used_nonneg, hnonneg le_rfl, hle hbound, ?_⟩
    have hi := h.promised_nonneg i
    dsimp only
    rw [sum_update]
    linarith
  | add i x hidle hx hmost hfits =>
    refine ⟨add_nonneg h.used_nonneg hx, h.promised_nonneg, h.promised_le, ?_⟩
    have hgrant := h.grant_total hidle hx hfits
    dsimp only
    linarith
  | lower used hused hlower =>
    refine ⟨hused, h.promised_nonneg, h.promised_le, ?_⟩
    dsimp only
    linarith

end Till

end MeshRouter.Lib
