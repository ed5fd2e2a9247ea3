import Mathlib.Algebra.BigOperators.Group.List.Basic
import Mathlib.Algebra.Order.Ring.Nat
import Mathlib.Data.List.Perm.Basic
import MeshRouter.Lib.Runs

/-!
# Work that runs out

A system is given work by some of its actions, and some of its actions do work. Let a number say how
much work a state holds, such that an action of the second kind lowers it and one that is not of the
first kind never raises it. Then a run in which no work comes in does work at most as often as the
number says (`countP_add_le`), in whatever order its actions come, and some run does all of it
(`exists_settled`). Where the number is a sum over the parties of the system, `exists_sum_others`
says what it becomes when one of them takes a step. `gained_le` is the rule for a quantity that a
run gains, when no step gains more than the number loses.
-/

namespace MeshRouter.Lib

variable {σ ℓ : Type} {step : σ → ℓ → Option σ} {work : σ → ℕ} {brings works : ℓ → Bool}
  {I : σ → Prop}

/-- The sum over the other parties does not depend on where one of them goes. -/
theorem exists_sum_others {α : Type} {l : List α} {i : ℕ} {a : α} (ha : l[i]? = some a)
    (f : α → ℕ) :
    ∃ others, (l.map f).sum = f a + others ∧ ∀ b, ((l.set i b).map f).sum = f b + others := by
  obtain ⟨hlt, rfl⟩ := List.getElem?_eq_some_iff.mp ha
  refine ⟨((l.eraseIdx i).map f).sum, ?_, fun b => ?_⟩
  · have hperm := (List.getElem_cons_eraseIdx_perm hlt).map f
    rw [← hperm.sum_eq, List.map_cons, List.sum_cons]
  · have hperm := (List.set_perm_cons_eraseIdx hlt b).map f
    rw [hperm.sum_eq, List.map_cons, List.sum_cons]

/-- In a run in which no work comes in, work is done at most as often as there is work. -/
theorem countP_add_le (hinv : ∀ s a t, I s → step s a = some t → I t)
    (hwork : ∀ s a t, I s → brings a = false → step s a = some t →
      work t + (works a).toNat ≤ work s)
    {s t : σ} {as : List ℓ} (hs : I s) (hquiet : ∀ a ∈ as, brings a = false)
    (h : run step s as = some t) : as.countP works + work t ≤ work s := by
  induction as generalizing s with
  | nil =>
    obtain rfl : s = t := by simpa using h
    exact Nat.le_of_eq (Nat.zero_add _)
  | cons a as ih =>
    obtain ⟨u, hsu, hut⟩ := run_cons.mp h
    have hfirst := hwork s a u hs (hquiet a List.mem_cons_self) hsu
    have hrest := ih (hinv s a u hs hsu) (fun b hb => hquiet b (List.mem_cons_of_mem a hb)) hut
    have hcount : (a :: as).countP works = as.countP works + (works a).toNat := by
      rw [List.countP_cons]
      cases works a <;> rfl
    omega

/-- What a run gains is no more than the potential that it starts with, if no step gains more than
the potential loses. The steps may use a condition on the end of the run that held all along. -/
theorem gained_le {gain potential : σ → ℕ} {ok : σ → ℓ → Prop} {ending : σ → Prop}
    (hinv : ∀ s a t, I s → step s a = some t → I t)
    (hending : ∀ s a t, step s a = some t → ok s a → ending t → ending s)
    (hstep : ∀ s a t, I s → ok s a → step s a = some t → ending t →
      gain t + potential t ≤ gain s + potential s)
    {s t : σ} {as : List ℓ} (hs : I s) (hok : Along step ok s as) (h : run step s as = some t)
    (ht : ending t) : ending s ∧ gain t + potential t ≤ gain s + potential s := by
  induction as generalizing s with
  | nil =>
    obtain rfl : s = t := by simpa using h
    exact ⟨ht, Nat.le_refl _⟩
  | cons a as ih =>
    obtain ⟨u, hsu, hut⟩ := run_cons.mp h
    obtain ⟨hu, hrest⟩ := ih (hinv s a u hs hsu) (hok.2 u hsu) hut
    exact ⟨hending s a u hsu hok.1 hu, Nat.le_trans hrest (hstep s a u hs hok.1 hsu hu)⟩

/-- Some run does work until there is none that can be done. -/
theorem exists_settled (hinv : ∀ s a t, I s → step s a = some t → I t)
    (hwork : ∀ s a t, I s → works a = true → step s a = some t → work t < work s) {s : σ}
    (hs : I s) :
    ∃ as t, run step s as = some t ∧ (∀ a ∈ as, works a = true) ∧
      ∀ a, works a = true → step t a = none := by
  induction hn : work s using Nat.strongRecOn generalizing s with
  | ind n ih =>
    subst hn
    by_cases hsettled : ∀ a, works a = true → step s a = none
    · exact ⟨[], s, rfl, fun a ha => (by cases ha), hsettled⟩
    · -- Some work can be done, and the rest of the run starts with less of it.
      push Not at hsettled
      obtain ⟨a, ha, hpossible⟩ := hsettled
      obtain ⟨u, hsu⟩ := Option.ne_none_iff_exists'.mp hpossible
      have hless := hwork s a u hs ha hsu
      obtain ⟨as, t, hrun, hall, hnone⟩ := ih (work u) hless (hinv s a u hs hsu) rfl
      exact ⟨a :: as, t, run_cons.mpr ⟨u, hsu, hrun⟩, List.forall_mem_cons.mpr ⟨ha, hall⟩, hnone⟩

end MeshRouter.Lib
