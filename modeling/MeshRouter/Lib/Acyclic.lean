import Mathlib.Data.Finset.Card
import Mathlib.Data.List.Chain
import Mathlib.Data.List.Nodup
import Mathlib.Logic.Relation
import Mathlib.Order.Bounds.Basic
import Mathlib.Order.WellFounded

/-!
# Acyclic relations over a finite set

A relation is acyclic when no element leads back to itself. Algorithms show it in two ways: they
find an order in which each element comes after all it leads to, which makes every element
accessible (`acyclic_of_acc`), or they go down along the relation and rely on this to end. For the
second, `height` counts what can be reached from an element: it goes down along an acyclic relation
(`height_lt`) and is below the size of the set (`height_lt_length`).

`HasChain` counts the steps along the relation, one after the other. What a computation finds for an
element is the length of its longest chain if there is a chain of that length, and each step along
the relation finds less. `HasDepth` is the length of the longest chain, which every element has if
the relation is acyclic over a finite set.
-/

namespace MeshRouter.Lib

open Relation

variable {α : Type} {r : α → α → Prop}

/-- No element leads back to itself. -/
def Acyclic (r : α → α → Prop) : Prop := ∀ x, ¬ TransGen r x x

/-- A relation under which every element is accessible from what it leads to is acyclic. -/
theorem acyclic_of_acc (h : ∀ x, Acc (Function.swap r) x) : Acyclic r := by
  intro x hx
  have hwf : WellFounded (TransGen (Function.swap r)) := (WellFounded.intro h).transGen
  exact hwf.irrefl.irrefl x (transGen_swap.mpr hx)

/-- A relation is acyclic exactly when its converse is. -/
theorem acyclic_swap : Acyclic (Function.swap r) ↔ Acyclic r := by
  unfold Acyclic
  simp only [transGen_swap]

section Height

variable [DecidableEq α]

open Classical in
/-- How many elements of the set can be reached from `x`. -/
noncomputable def height (r : α → α → Prop) (elements : List α) (x : α) : ℕ :=
  (elements.toFinset.filter (TransGen r x ·)).card

variable {elements : List α} {x y : α}

/-- The height goes down along an acyclic relation. -/
theorem height_lt (hr : Acyclic r) (hxy : r x y) (hy : y ∈ elements) :
    height r elements y < height r elements x := by
  classical
  unfold height
  refine Finset.card_lt_card (Finset.ssubset_iff_subset_ne.mpr ⟨fun z hz => ?_, fun heq => ?_⟩)
  · rw [Finset.mem_filter] at hz ⊢
    exact ⟨hz.1, TransGen.head hxy hz.2⟩
  · -- Not all is reached from `y` that is reached from `x`: `y` itself is not.
    have hmem : y ∈ elements.toFinset.filter (TransGen r x ·) :=
      Finset.mem_filter.mpr ⟨List.mem_toFinset.mpr hy, TransGen.single hxy⟩
    rw [← heq, Finset.mem_filter] at hmem
    exact hr y hmem.2

/-- The height of an element is below the size of the set: the element does not reach itself. -/
theorem height_lt_length (hr : Acyclic r) (hx : x ∈ elements) :
    height r elements x < elements.length := by
  classical
  have hlt : height r elements x < elements.toFinset.card := by
    unfold height
    refine Finset.card_lt_card (Finset.filter_ssubset.mpr ⟨x, List.mem_toFinset.mpr hx, hr x⟩)
  exact hlt.trans_le (List.toFinset_card_le elements)

end Height

section Chains

variable {x y : α} {n : ℕ}

/-- Some chain of `n` steps along the relation begins at `x`. -/
def HasChain (r : α → α → Prop) (x : α) (n : ℕ) : Prop :=
  ∃ q : List α, q.length = n ∧ List.IsChain r (x :: q)

/-- No step is a chain. -/
theorem hasChain_zero (r : α → α → Prop) (x : α) : HasChain r x 0 :=
  ⟨[], rfl, List.isChain_singleton x⟩

/-- A chain of one more step: the first of them, and a chain from where it leads to. -/
theorem hasChain_succ_iff : HasChain r x (n + 1) ↔ ∃ y, r x y ∧ HasChain r y n := by
  constructor
  · rintro ⟨q, hlen, hchain⟩
    obtain ⟨y, q, rfl⟩ := List.exists_cons_of_length_eq_add_one hlen
    obtain ⟨hxy, hchain⟩ := List.isChain_cons_cons.mp hchain
    exact ⟨y, hxy, q, Nat.succ.inj hlen, hchain⟩
  · rintro ⟨y, hxy, q, rfl, hchain⟩
    exact ⟨y :: q, rfl, List.isChain_cons_cons.mpr ⟨hxy, hchain⟩⟩

/-- The beginning of a chain is a chain. -/
theorem HasChain.of_le {m : ℕ} (h : HasChain r x n) (hle : m ≤ n) : HasChain r x m := by
  obtain ⟨q, rfl, hchain⟩ := h
  have htake : (x :: q).take (m + 1) = x :: q.take m := List.take_succ_cons
  refine ⟨q.take m, List.length_take_of_le hle, ?_⟩
  rw [← htake]
  exact hchain.take _

/-- The longest chain of an element has `n` steps. -/
def HasDepth (r : α → α → Prop) (x : α) (n : ℕ) : Prop := HasChain r x n ∧ ¬ HasChain r x (n + 1)

/-- The longest chain is unique. -/
theorem HasDepth.unique {m : ℕ} (hm : HasDepth r x m) (hn : HasDepth r x n) : m = n := by
  have hle : m ≤ n := not_lt.mp fun hlt => hn.2 (hm.1.of_le hlt)
  have hge : n ≤ m := not_lt.mp fun hlt => hm.2 (hn.1.of_le hlt)
  omega

/-- The greatest length of a chain is the depth. -/
theorem hasDepth_of_isGreatest (h : IsGreatest {k | HasChain r x k} n) : HasDepth r x n :=
  ⟨h.1, fun hsucc => absurd (h.2 hsucc) (Nat.not_succ_le_self n)⟩

variable [DecidableEq α] {elements : List α}

/-- Along an acyclic relation within a finite set, no chain is longer than the height. -/
theorem HasChain.le_height (hr : Acyclic r) (hmem : ∀ x y, r x y → y ∈ elements)
    (h : HasChain r x n) : n ≤ height r elements x := by
  induction n generalizing x with
  | zero => exact Nat.zero_le _
  | succ n ih =>
    obtain ⟨y, hxy, hchain⟩ := hasChain_succ_iff.mp h
    have hle := ih hchain
    have hlt := height_lt hr hxy (hmem x y hxy)
    omega

/-- So every element has a depth, and no smaller one than the length of a chain of it. -/
theorem HasChain.exists_hasDepth (hr : Acyclic r) (hmem : ∀ x y, r x y → y ∈ elements)
    (h : HasChain r x n) : ∃ m, n ≤ m ∧ HasDepth r x m := by
  by_contra hnone
  -- Without a longest chain there would be one of every length.
  have hall : ∀ k, n ≤ k → HasChain r x k := by
    intro k hk
    induction k, hk using Nat.le_induction with
    | base => exact h
    | succ k hk ih =>
      by_contra hnot
      exact hnone ⟨k, hk, ih, hnot⟩
  have hlong := (hall (max n (height r elements x + 1)) (le_max_left _ _)).le_height hr hmem
  omega

end Chains

end MeshRouter.Lib
