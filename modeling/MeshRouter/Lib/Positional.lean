import Mathlib.Algebra.BigOperators.Group.List.Basic
import Mathlib.Algebra.BigOperators.Ring.List
import Mathlib.Algebra.Order.BigOperators.Group.List
import Mathlib.Algebra.Order.Field.Basic
import Mathlib.Data.List.Nodup
import Mathlib.Data.List.Sort

/-!
# Rankings combined by positional scores

A ranking lists candidates from best to worst. It gives the candidate at index `i` of `n` the points
`(n - i) / n`, and no points to a candidate that it does not list. Rankings with weights are
combined into a `total`, and the candidates sorted by it.

The combination respects unanimity (`total_lt_total`): if every ranking that has a weight prefers
one candidate to another, or lists neither, and one prefers it, then its total is greater.
-/

namespace MeshRouter.Lib

variable {α : Type} {l : List α} {a b : α}

/-- The first comes before the second in a list. -/
def Ahead (l : List α) (a b : α) : Prop := [a, b].Sublist l

/-- A ranking prefers a candidate to another: it lists both in this order, or the first alone. -/
def Prefers (l : List α) (a b : α) : Prop := Ahead l a b ∨ a ∈ l ∧ b ∉ l

section Decidable

variable [DecidableEq α]

instance : Decidable (Ahead l a b) := inferInstanceAs (Decidable ([a, b].Sublist l))

instance : Decidable (Prefers l a b) := inferInstanceAs (Decidable (Ahead l a b ∨ a ∈ l ∧ b ∉ l))

end Decidable

theorem Ahead.left_mem (h : Ahead l a b) : a ∈ l := h.subset List.mem_cons_self

theorem Ahead.right_mem (h : Ahead l a b) : b ∈ l := h.subset (by simp)

theorem Ahead.map {β : Type} (f : α → β) (h : Ahead l a b) : Ahead (l.map f) (f a) (f b) :=
  List.Sublist.map f h

theorem Prefers.left_mem (h : Prefers l a b) : a ∈ l := h.elim Ahead.left_mem And.left

/-- Of two elements of a list, one comes first. -/
theorem ahead_or_ahead (ha : a ∈ l) (hb : b ∈ l) (hne : a ≠ b) : Ahead l a b ∨ Ahead l b a := by
  induction l with
  | nil => exact (List.not_mem_nil ha).elim
  | cons c l ih =>
    rcases List.mem_cons.mp ha with rfl | ha'
    · have hb' := (List.mem_cons.mp hb).resolve_left hne.symm
      exact .inl (.cons_cons _ (List.singleton_sublist.mpr hb'))
    · rcases List.mem_cons.mp hb with rfl | hb'
      · exact .inr (.cons_cons _ (List.singleton_sublist.mpr ha'))
      · exact (ih ha' hb').imp (.cons _) (.cons _)

section Points

variable [DecidableEq α]

/-- Without repetitions, what comes first has the smaller index. -/
theorem Ahead.idxOf_lt (h : Ahead l a b) (hnodup : l.Nodup) : l.idxOf a < l.idxOf b := by
  induction l with
  | nil => exact (List.not_mem_nil h.left_mem).elim
  | cons c l ih =>
    obtain ⟨hc, hl⟩ := List.nodup_cons.mp hnodup
    cases h with
    | cons _ htail =>
      have hne : c ≠ a := fun heq => hc (heq ▸ Ahead.left_mem htail)
      have hne' : c ≠ b := fun heq => hc (heq ▸ Ahead.right_mem htail)
      rw [List.idxOf_cons_ne _ hne, List.idxOf_cons_ne _ hne']
      exact Nat.succ_lt_succ (ih htail hl)
    | cons_cons _ htail =>
      have hne : a ≠ b := fun heq => hc (heq ▸ List.singleton_sublist.mp htail)
      rw [List.idxOf_cons_self, List.idxOf_cons_ne _ hne]
      exact Nat.succ_pos _

/-- A preferred candidate has the smaller index. -/
theorem Prefers.idxOf_lt (h : Prefers l a b) (hnodup : l.Nodup) : l.idxOf a < l.idxOf b := by
  rcases h with hahead | ⟨ha, hb⟩
  · exact hahead.idxOf_lt hnodup
  · rw [List.idxOf_of_notMem hb]
    exact List.idxOf_lt_length_of_mem ha

variable {𝕜 : Type} [Field 𝕜]

/-- What a ranking gives a candidate. -/
def points (𝕜 : Type) [Field 𝕜] (l : List α) (a : α) : 𝕜 :=
  if a ∈ l then (l.length - l.idxOf a : 𝕜) / l.length else 0

/-- The weighted sum of what the rankings give a candidate. -/
def total (rankings : List (List α × 𝕜)) (a : α) : 𝕜 :=
  (rankings.map fun p => points 𝕜 p.1 a * p.2).sum

@[simp]
theorem points_of_notMem (h : a ∉ l) : points 𝕜 l a = 0 := if_neg h

theorem total_cons (ranked : List α) (weight : 𝕜) (rankings : List (List α × 𝕜)) (a : α) :
    total ((ranked, weight) :: rankings) a = points 𝕜 ranked a * weight + total rankings a := by
  rw [total, List.map_cons, List.sum_cons]
  rfl

/-- The total of one ranking. -/
theorem total_singleton (ranked : List α) (weight : 𝕜) (a : α) :
    total [(ranked, weight)] a = points 𝕜 ranked a * weight := by
  rw [total_cons]
  exact add_zero _

/-- The totals grow with the weights. -/
theorem total_scaled (c : 𝕜) (rankings : List (List α × 𝕜)) (a : α) :
    total (rankings.map fun p => (p.1, c * p.2)) a = c * total rankings a := by
  rw [total, total, List.map_map, ← List.sum_map_mul_left]
  exact congrArg List.sum (List.map_congr_left fun p _ => mul_left_comm _ _ _)

/-- A candidate that no ranking lists has no points. -/
theorem total_of_notMem {rankings : List (List α × 𝕜)} (h : ∀ p ∈ rankings, a ∉ p.1) :
    total rankings a = 0 := by
  refine List.sum_eq_zero fun x hx => ?_
  obtain ⟨p, hp, rfl⟩ := List.mem_map.mp hx
  rw [points_of_notMem (h p hp), zero_mul]

/-- A sum over the indices of a ranking without repetitions has one term for a candidate. -/
theorem sum_zipIdx_eq {β : Type} {key : β → α} (term : ℕ → 𝕜) (ranked : List β) (start : ℕ) (a : α)
    (hnodup : (ranked.map key).Nodup) :
    ((ranked.zipIdx start).map fun p => if a = key p.1 then term p.2 else 0).sum =
      if a ∈ ranked.map key then term (start + (ranked.map key).idxOf a) else 0 := by
  induction ranked generalizing start with
  | nil => rfl
  | cons first ranked ih =>
    rw [List.map_cons, List.nodup_cons] at hnodup
    obtain ⟨hfirst, hrest⟩ := hnodup
    rw [List.zipIdx_cons, List.map_cons, List.sum_cons, ih (start + 1) hrest, List.map_cons]
    by_cases heq : a = key first
    · rw [if_pos heq, heq, if_neg hfirst, if_pos List.mem_cons_self, List.idxOf_cons_self, add_zero,
        add_zero]
    · rw [if_neg heq, zero_add, List.idxOf_cons_ne _ (Ne.symm heq)]
      have hmem : a ∈ key first :: ranked.map key ↔ a ∈ ranked.map key := by
        rw [List.mem_cons, or_iff_right heq]
      have hindex : start + ((ranked.map key).idxOf a).succ =
          start + 1 + (ranked.map key).idxOf a := by omega
      simp only [hmem, hindex]

section Order

variable [LinearOrder 𝕜] [IsStrictOrderedRing 𝕜]

theorem points_nonneg (l : List α) (a : α) : 0 ≤ points 𝕜 l a := by
  unfold points
  split_ifs with ha
  · have hindex : (l.idxOf a : 𝕜) ≤ l.length := by exact_mod_cast List.idxOf_le_length
    exact div_nonneg (sub_nonneg.mpr hindex) (Nat.cast_nonneg _)
  · exact le_rfl

/-- Every listed candidate gets some points. -/
theorem points_pos (ha : a ∈ l) : 0 < points 𝕜 l a := by
  have hindex := List.idxOf_lt_length_of_mem ha
  have hcast : (l.idxOf a : 𝕜) < l.length := by exact_mod_cast hindex
  have hlength : (0 : 𝕜) < l.length := by exact_mod_cast Nat.zero_lt_of_lt hindex
  rw [points, if_pos ha]
  exact div_pos (sub_pos.mpr hcast) hlength

/-- A preferred candidate gets more points. -/
theorem Prefers.points_lt (h : Prefers l a b) (hnodup : l.Nodup) :
    points 𝕜 l b < points 𝕜 l a := by
  by_cases hb : b ∈ l
  · have hcast : (l.idxOf a : 𝕜) < l.idxOf b := by exact_mod_cast h.idxOf_lt hnodup
    have hlength : (0 : 𝕜) < l.length := by exact_mod_cast List.length_pos_of_mem hb
    rw [points, if_pos hb, points, if_pos h.left_mem]
    exact div_lt_div_of_pos_right (sub_lt_sub_left hcast _) hlength
  · rw [points_of_notMem hb]
    exact points_pos h.left_mem

/-- Exactly the listed candidates get points. -/
theorem points_pos_iff : 0 < points 𝕜 l a ↔ a ∈ l := by
  refine ⟨fun h => ?_, points_pos⟩
  by_contra hnot
  exact h.ne' (points_of_notMem hnot)

/-- The points fall from each candidate to the next. -/
theorem pairwise_points (hnodup : l.Nodup) :
    l.Pairwise fun a b => points 𝕜 l b < points 𝕜 l a :=
  List.pairwise_iff_forall_sublist.mpr fun hahead => Prefers.points_lt (.inl hahead) hnodup

variable {rankings : List (List α × 𝕜)}

/-- Unanimity: if each ranking that has a weight prefers the first candidate, or lists neither, and
some such ranking prefers it, then it has the greater total. -/
theorem total_lt_total (hnodup : ∀ p ∈ rankings, p.1.Nodup) (hweight : ∀ p ∈ rankings, 0 ≤ p.2)
    (hall : ∀ p ∈ rankings, 0 < p.2 → Prefers p.1 a b ∨ a ∉ p.1 ∧ b ∉ p.1)
    (hsome : ∃ p ∈ rankings, 0 < p.2 ∧ Prefers p.1 a b) : total rankings b < total rankings a := by
  have hle : ∀ p ∈ rankings, points 𝕜 p.1 b * p.2 ≤ points 𝕜 p.1 a * p.2 := by
    intro p hp
    rcases (hweight p hp).eq_or_lt with hzero | hpos
    · rw [← hzero, mul_zero, mul_zero]
    · rcases hall p hp hpos with hprefers | ⟨ha, hb⟩
      · exact (mul_lt_mul_of_pos_right (hprefers.points_lt (hnodup p hp)) hpos).le
      · rw [points_of_notMem ha, points_of_notMem hb]
  obtain ⟨p, hp, hpos, hprefers⟩ := hsome
  exact List.sum_lt_sum _ _ hle
    ⟨p, hp, mul_lt_mul_of_pos_right (hprefers.points_lt (hnodup p hp)) hpos⟩

theorem total_nonneg (hweight : ∀ p ∈ rankings, 0 ≤ p.2) (a : α) : 0 ≤ total rankings a := by
  refine List.sum_nonneg fun x hx => ?_
  obtain ⟨p, hp, rfl⟩ := List.mem_map.mp hx
  exact mul_nonneg (points_nonneg _ _) (hweight p hp)

end Order

end Points

/-- In a list sorted by descending keys, the greater key comes first. -/
theorem ahead_of_pairwise {𝕜 : Type} [LinearOrder 𝕜] {key : α → 𝕜}
    (hsorted : l.Pairwise fun x y => key y ≤ key x) (ha : a ∈ l) (hb : b ∈ l)
    (hlt : key b < key a) : Ahead l a b := by
  have hne : a ≠ b := fun heq => hlt.ne (congrArg key heq).symm
  refine (ahead_or_ahead ha hb hne).resolve_right fun hahead => ?_
  exact absurd (List.pairwise_iff_forall_sublist.mp hsorted hahead) (not_le.mpr hlt)

end MeshRouter.Lib
