import Mathlib.Order.Bounds.Basic
import MeshRouter.Workflows.Levels
import MeshRouter.Workflows.Waves

/-!
# The levels are the longest chains

`get_depth` takes one more than the largest depth of the parents. So each depth that it stores is
the length of some chain of dependencies (`Attained`), and since the dependencies of a step have
smaller depths (`DepthOrdered`) no chain is longer: the depth of a step is the length of its longest
chain (`isGreatest_depth`).

A step with a chain of `k + 1` dependencies has a dependency at depth `k`, so between the first
level and the last no level is empty. There always is a first level, which is empty if there are no
steps (`computeLevels_spec`).
-/

namespace MeshRouter.Workflows.HierarchicalWorkflow

open Lib

variable {steps : List WorkflowStep} {depth depth' : Dict String ℕ} {x : String} {n : ℕ}

/-! ## Depths -/

/-- Every depth is the length of a chain of dependencies. -/
def Attained (steps : List WorkflowStep) (depth : Dict String ℕ) : Prop :=
  depth.All (HasChain (DependsOn steps))

/-- What the step map has under an id is a step with that id. -/
theorem mem_of_get?_stepMap {s : WorkflowStep} (h : (stepMap steps).get? x = some s) :
    s ∈ steps ∧ s.stepId = x := by
  have hset : (Dict.setAll (·.stepId) id steps .empty).get? x = some s := h
  rcases Dict.eq_or_get?_of_setAll hset with ⟨t, ht, hid, rfl⟩ | hempty
  · exact ⟨ht, hid⟩
  · cases hempty

section Inversion

variable {getDepth' : String → Dict String ℕ → Except WorkflowError (ℕ × Dict String ℕ)}
  {known : Dict String WorkflowStep} {fuel : ℕ} {d : String} {ds : List String}

/-- The loop over the parents takes the larger of a parent's depth and the others'. -/
theorem maxParentDepth_cons_ok (h : maxParentDepth getDepth' (d :: ds) depth = .ok (n, depth')) :
    ∃ k depth₁ m, getDepth' d depth = .ok (k, depth₁) ∧
      maxParentDepth getDepth' ds depth₁ = .ok (m, depth') ∧ n = max k m := by
  unfold maxParentDepth at h
  cases hd : getDepth' d depth with
  | error e =>
    rw [hd] at h
    cases h
  | ok r =>
    rw [hd] at h
    dsimp only at h
    cases hds : maxParentDepth getDepth' ds r.2 with
    | error e =>
      rw [hds] at h
      cases h
    | ok r' =>
      rw [hds] at h
      obtain ⟨rfl, rfl⟩ := Prod.mk.inj (Except.ok.inj h)
      exact ⟨r.1, r.2, r'.1, rfl, hds, rfl⟩

/-- `get_depth` returns a depth that is stored, or stores zero, or stores one more than the largest
depth of the parents. -/
theorem getDepth_ok (h : getDepth known (fuel + 1) x depth = .ok (n, depth')) :
    (depth.get? x = some n ∧ depth' = depth) ∨
      ∃ s, known.get? x = some s ∧
        ((s.dependsOn = [] ∧ n = 0 ∧ depth' = depth.set x 0) ∨
          ∃ m depth₁, s.dependsOn ≠ [] ∧
            maxParentDepth (getDepth known fuel) s.dependsOn depth = .ok (m, depth₁) ∧
            n = m + 1 ∧ depth' = depth₁.set x (m + 1)) := by
  unfold getDepth at h
  cases hfound : depth.get? x with
  | some k =>
    rw [hfound] at h
    obtain ⟨rfl, rfl⟩ := Prod.mk.inj (Except.ok.inj h)
    exact .inl ⟨rfl, rfl⟩
  | none =>
    rw [hfound] at h
    dsimp only at h
    cases hstep : known.get? x with
    | none =>
      rw [hstep] at h
      cases h
    | some s =>
      rw [hstep] at h
      dsimp only at h
      split_ifs at h with hnil
      · obtain ⟨rfl, rfl⟩ := Prod.mk.inj (Except.ok.inj h)
        exact .inr ⟨s, rfl, .inl ⟨hnil, rfl, rfl⟩⟩
      · cases hparents : maxParentDepth (getDepth known fuel) s.dependsOn depth with
        | error e =>
          rw [hparents] at h
          cases h
        | ok r =>
          rw [hparents] at h
          obtain ⟨rfl, rfl⟩ := Prod.mk.inj (Except.ok.inj h)
          exact .inr ⟨s, rfl, .inr ⟨r.1, r.2, hnil, hparents, rfl, rfl⟩⟩

/-- The loop over the steps goes on with the depths that `get_depth` leaves. -/
theorem computeDepths_cons_ok {s : WorkflowStep} {l : List WorkflowStep}
    (h : computeDepths known fuel (s :: l) depth = .ok depth') :
    ∃ k depth₁, getDepth known fuel s.stepId depth = .ok (k, depth₁) ∧
      computeDepths known fuel l depth₁ = .ok depth' := by
  unfold computeDepths at h
  cases hs : getDepth known fuel s.stepId depth with
  | error e =>
    rw [hs] at h
    cases h
  | ok r =>
    rw [hs] at h
    exact ⟨r.1, r.2, rfl, h⟩

end Inversion

/-- The loop over the parents returns the depth of one of them. -/
theorem maxParentDepth_attained {getDepth : String → Dict String ℕ →
      Except WorkflowError (ℕ × Dict String ℕ)} {ds : List String}
    (hget : ∀ d depth n depth', getDepth d depth = .ok (n, depth') → Attained steps depth →
      Attained steps depth' ∧ HasChain (DependsOn steps) d n)
    (h : maxParentDepth getDepth ds depth = .ok (n, depth')) (hdepth : Attained steps depth) :
    Attained steps depth' ∧ (ds ≠ [] → ∃ d ∈ ds, HasChain (DependsOn steps) d n) := by
  induction ds generalizing depth n depth' with
  | nil =>
    obtain ⟨rfl, rfl⟩ := Prod.mk.inj (Except.ok.inj h)
    exact ⟨hdepth, fun hne => absurd rfl hne⟩
  | cons d ds ih =>
    obtain ⟨k, depth₁, m, hd, hds, rfl⟩ := maxParentDepth_cons_ok h
    obtain ⟨hdepth₁, hk⟩ := hget d depth k depth₁ hd hdepth
    obtain ⟨hdepth₂, hm⟩ := ih hds hdepth₁
    refine ⟨hdepth₂, fun _ => ?_⟩
    -- The larger of the two is the depth of the first parent, or of one of the others.
    rcases max_cases k m with ⟨hmax, -⟩ | ⟨hmax, hlt⟩
    · exact ⟨d, List.mem_cons_self, by rwa [hmax]⟩
    · have hne : ds ≠ [] := by
        rintro rfl
        obtain ⟨rfl, -⟩ := Prod.mk.inj (Except.ok.inj hds)
        exact absurd hlt (Nat.not_lt_zero k)
      obtain ⟨d', hd', hm'⟩ := hm hne
      exact ⟨d', List.mem_cons_of_mem d hd', by rwa [hmax]⟩

/-- `get_depth` returns and stores lengths of chains. -/
theorem getDepth_attained {fuel : ℕ} (h : getDepth (stepMap steps) fuel x depth = .ok (n, depth'))
    (hdepth : Attained steps depth) : Attained steps depth' ∧ HasChain (DependsOn steps) x n := by
  -- Induction on the bound: the parents' calls have a smaller one.
  induction fuel generalizing x depth n depth' with
  | zero => cases h
  | succ fuel ih =>
    rcases getDepth_ok h with ⟨hstored, rfl⟩ | ⟨s, hstep, ⟨-, rfl, rfl⟩ | hdeeper⟩
    · exact ⟨hdepth, hdepth x n hstored⟩
    · have hzero := hasChain_zero (DependsOn steps) x
      exact ⟨hdepth.set hzero, hzero⟩
    · obtain ⟨m, depth₁, hne, hparents, rfl, rfl⟩ := hdeeper
      obtain ⟨hs, rfl⟩ := mem_of_get?_stepMap hstep
      obtain ⟨hdepth₁, hm⟩ :=
        maxParentDepth_attained (fun d depth n depth' hd => ih hd) hparents hdepth
      obtain ⟨d, hd, hchain⟩ := hm hne
      have hsucc : HasChain (DependsOn steps) s.stepId (m + 1) :=
        hasChain_succ_iff.mpr ⟨d, ⟨s, hs, rfl, hd⟩, hchain⟩
      exact ⟨hdepth₁.set hsucc, hsucc⟩

/-- All depths of the steps are lengths of chains. -/
theorem computeDepths_attained {fuel : ℕ} {l : List WorkflowStep}
    (h : computeDepths (stepMap steps) fuel l depth = .ok depth') (hdepth : Attained steps depth) :
    Attained steps depth' := by
  induction l generalizing depth with
  | nil =>
    obtain rfl := Except.ok.inj h
    exact hdepth
  | cons s l ih =>
    obtain ⟨k, depth₁, hs, hrest⟩ := computeDepths_cons_ok h
    exact ih hrest (getDepth_attained hs hdepth).1

/-- No chain of dependencies is longer than the depth of the step that it begins at. -/
theorem DepthOrdered.chain_le (h : DepthOrdered steps depth) (hx : depth.get? x = some n) {k : ℕ}
    (hchain : HasChain (DependsOn steps) x k) : k ≤ n := by
  induction k generalizing x n with
  | zero => exact Nat.zero_le n
  | succ k ih =>
    obtain ⟨d, hd, hrest⟩ := hasChain_succ_iff.mp hchain
    obtain ⟨m, hm, hlt⟩ := h x n hx d hd
    exact (ih hm hrest).trans_lt hlt

/-- A depth is the length of the longest chain of dependencies. -/
theorem isGreatest_depth (hordered : DepthOrdered steps depth) (hattained : Attained steps depth)
    (hx : depth.get? x = some n) : IsGreatest {k | HasChain (DependsOn steps) x k} n :=
  ⟨hattained x n hx, fun _ hk => hordered.chain_le hx hk⟩

/-- Below a depth that is not the first there is a dependency at the depth before. -/
theorem exists_previous_depth (hordered : DepthOrdered steps depth)
    (hattained : Attained steps depth) (hx : depth.get? x = some (n + 1)) :
    ∃ d, DependsOn steps x d ∧ depth.get? d = some n := by
  obtain ⟨d, hd, hchain⟩ := hasChain_succ_iff.mp (hattained x (n + 1) hx)
  obtain ⟨m, hm, hlt⟩ := hordered x (n + 1) hx d hd
  have hle := hordered.chain_le hm hchain
  obtain rfl : m = n := by omega
  exact ⟨d, hd, hm⟩

/-! ## Levels -/

/-- The largest depth is the depth of some step, if there are steps. -/
theorem exists_last_level (hne : steps ≠ []) (hattained : Attained steps depth)
    (hall : ∀ s ∈ steps, ∃ k, depth.get? s.stepId = some k) :
    ∃ s ∈ steps, depth.get? s.stepId = some (depth.values.foldl max 0) := by
  rcases Nat.eq_zero_or_pos (depth.values.foldl max 0) with hzero | hpos
  · obtain ⟨s, hs⟩ := List.exists_mem_of_ne_nil steps hne
    obtain ⟨k, hk⟩ := hall s hs
    have hle : k ≤ depth.values.foldl max 0 :=
      le_foldl_max (Or.inr (Dict.mem_values_iff.mpr ⟨s.stepId, hk⟩))
    obtain rfl : k = 0 := by omega
    exact ⟨s, hs, by rw [hk, hzero]⟩
  · have hmax : depth.values.foldl max 0 ∈ depth.values := by
      rw [List.foldl_max] at hpos ⊢
      cases hvalues : depth.values.max? with
      | none =>
        rw [hvalues] at hpos
        exact absurd hpos (by simp)
      | some m =>
        rw [Option.getD_some, Nat.zero_max]
        exact (List.max?_eq_some_iff.mp hvalues).1
    obtain ⟨x, hx⟩ := Dict.mem_values_iff.mp hmax
    -- A chain that is not empty begins at a step.
    obtain ⟨k, hk⟩ := Nat.exists_eq_add_of_lt hpos
    rw [Nat.zero_add] at hk
    have hchain := hattained x _ hx
    rw [hk] at hchain
    obtain ⟨d, ⟨s, hs, rfl, -⟩, -⟩ := hasChain_succ_iff.mp hchain
    exact ⟨s, hs, hx⟩

/-- Every depth up to the largest is the depth of some step. -/
theorem exists_level (hne : steps ≠ []) (hknown : ¬ HasUnknown steps)
    (hordered : DepthOrdered steps depth) (hattained : Attained steps depth)
    (hall : ∀ s ∈ steps, ∃ k, depth.get? s.stepId = some k) {k : ℕ}
    (hk : k ≤ depth.values.foldl max 0) : ∃ s ∈ steps, depth.get? s.stepId = some k := by
  induction hk using Nat.decreasingInduction with
  | self => exact exists_last_level hne hattained hall
  | of_succ k hlt ih =>
    obtain ⟨s, hs, hdepth⟩ := ih
    obtain ⟨d, hd, hprevious⟩ := exists_previous_depth hordered hattained hdepth
    obtain ⟨t, ht, rfl⟩ := List.mem_map.mp (hd.mem_right hknown)
    exact ⟨t, ht, hprevious⟩

/-- The steps of each depth up to a bound are all steps below it. -/
theorem perm_flatten_levels (hnodup : steps.Nodup) {bound : ℕ}
    (hbound : ∀ s ∈ steps, levelOf depth s < bound) :
    ((List.range bound).map fun k => steps.filter fun s => levelOf depth s = k).flatten.Perm
      steps := by
  refine (List.perm_ext_iff_of_nodup ?_ hnodup).mpr fun s => ?_
  · rw [List.nodup_flatten]
    constructor
    · intro level hlevel
      obtain ⟨k, -, rfl⟩ := List.mem_map.mp hlevel
      exact hnodup.filter _
    · refine List.pairwise_map.mpr (List.nodup_range.imp fun {j k} hne => ?_)
      rw [List.disjoint_left]
      intro s hj hk
      have hj' := of_decide_eq_true (List.mem_filter.mp hj).2
      have hk' := of_decide_eq_true (List.mem_filter.mp hk).2
      exact hne (hj'.symm.trans hk')
  · simp only [List.mem_flatten, List.mem_map, List.mem_range, exists_exists_and_eq_and,
      List.mem_filter, decide_eq_true_eq]
    constructor
    · rintro ⟨k, -, hs, -⟩
      exact hs
    · intro hs
      exact ⟨levelOf depth s, hbound s hs, hs, rfl⟩

/-- A level has the steps of its depth. -/
theorem mem_level {level : List WorkflowStep} {s : WorkflowStep} {k : ℕ}
    (hk : (groupByDepth depth steps)[k]? = some level) (hs : s ∈ level) :
    s ∈ steps ∧ levelOf depth s = k := by
  rw [groupByDepth_eq, List.getElem?_map] at hk
  obtain ⟨j, hj, rfl⟩ := Option.map_eq_some_iff.mp hk
  have hjk : j = k := by
    obtain ⟨hlt, hval⟩ := List.getElem?_eq_some_iff.mp hj
    rw [← hval, List.getElem_range]
  obtain ⟨hmem, hlev⟩ := List.mem_filter.mp hs
  exact ⟨hmem, (of_decide_eq_true hlev).trans hjk⟩

/-- If every depth up to the largest is the depth of some step, then only the level of no steps is
empty. -/
theorem nil_mem_groupByDepth_iff
    (hlevels : steps ≠ [] → ∀ k ≤ depth.values.foldl max 0, ∃ s ∈ steps, levelOf depth s = k) :
    [] ∈ groupByDepth depth steps ↔ steps = [] := by
  rw [groupByDepth_eq, List.mem_map]
  constructor
  · rintro ⟨k, hk, hnil⟩
    by_contra hne
    obtain ⟨s, hs, hlevel⟩ := hlevels hne k (Nat.lt_succ_iff.mp (List.mem_range.mp hk))
    have hmem : s ∈ steps.filter fun s => levelOf depth s = k :=
      List.mem_filter.mpr ⟨hs, decide_eq_true hlevel⟩
    rw [hnil] at hmem
    cases hmem
  · rintro rfl
    exact ⟨0, List.mem_range.mpr (Nat.succ_pos _), rfl⟩

/-- For steps with distinct ids that `_validate` accepts, `_compute_levels` returns levels that
together are the steps, each in the order of the steps, none of them empty unless there are no
steps. Each step is at the level of its longest chain of dependencies, and so behind the levels of
its dependencies. -/
theorem computeLevels_spec (hids : (stepIds steps).Nodup) (hvalid : validate steps = .ok ()) :
    ∃ levels, computeLevels steps = .ok levels ∧
      levels.flatten.Perm steps ∧
      (∀ level ∈ levels, level.Sublist steps) ∧
      ([] ∈ levels ↔ steps = []) ∧
      (∀ k level, levels[k]? = some level → ∀ s ∈ level,
        IsGreatest {n | HasChain (DependsOn steps) s.stepId n} k) ∧
      ∀ (j k : ℕ) (level level' : List WorkflowStep), levels[j]? = some level →
        levels[k]? = some level' → ∀ s ∈ level, ∀ t ∈ level', t.stepId ∈ s.dependsOn → k < j := by
  obtain ⟨hknown, hacyclic⟩ : ¬ HasUnknown steps ∧ Acyclic (DependsOn steps) := by
    rcases validate_cases steps with ⟨-, hgood⟩ | ⟨e, herr, -⟩
    · exact hgood
    · cases hvalid.symm.trans herr
  have hempty : DepthOrdered steps .empty := fun x n hx => by cases hx
  obtain ⟨depth, hdepths, hordered, -, hall⟩ :=
    computeDepths_spec hids hknown hacyclic (List.Subset.refl steps) hempty
  have hattained : Attained steps depth := computeDepths_attained hdepths Dict.all_empty
  have hlevel : ∀ s ∈ steps, depth.get? s.stepId = some (levelOf depth s) := by
    intro s hs
    obtain ⟨k, hk⟩ := hall s hs
    rw [hk, levelOf, Dict.getD, hk, Option.getD_some]
  have hbound : ∀ s ∈ steps, levelOf depth s < depth.values.foldl max 0 + 1 := fun s hs =>
    Nat.lt_succ_of_le (le_foldl_max (Or.inr (Dict.mem_values_iff.mpr ⟨_, hlevel s hs⟩)))
  refine ⟨groupByDepth depth steps, ?_, ?_, ?_, ?_, ?_, ?_⟩
  · unfold computeLevels
    rw [hdepths]
  · rw [groupByDepth_eq]
    exact perm_flatten_levels hids.of_map hbound
  · intro level hmem
    rw [groupByDepth_eq] at hmem
    obtain ⟨k, -, rfl⟩ := List.mem_map.mp hmem
    exact List.filter_sublist
  · refine nil_mem_groupByDepth_iff fun hne k hle => ?_
    obtain ⟨s, hs, hdepth⟩ := exists_level hne hknown hordered hattained hall hle
    exact ⟨s, hs, Option.some.inj ((hlevel s hs).symm.trans hdepth)⟩
  · intro k level hk s hs
    obtain ⟨hmem, rfl⟩ := mem_level hk hs
    exact isGreatest_depth hordered hattained (hlevel s hmem)
  · intro j k level level' hj hk s hs t ht hdep
    obtain ⟨hmem, rfl⟩ := mem_level hj hs
    obtain ⟨hmem', rfl⟩ := mem_level hk ht
    obtain ⟨m, hm, hlt⟩ := hordered _ _ (hlevel s hmem) t.stepId ⟨s, hmem, rfl, hdep⟩
    obtain rfl := Option.some.inj ((hlevel t hmem').symm.trans hm)
    exact hlt

/-- `computeLevels_spec` on a merge of two fetches. -/
theorem computeLevels_spec_fetchMerge :
    ∃ levels, computeLevels ParallelWorkflow.fetchMerge = .ok levels ∧
      levels.flatten.Perm ParallelWorkflow.fetchMerge := by
  obtain ⟨levels, hlevels, hperm, -⟩ :=
    computeLevels_spec (show (stepIds ParallelWorkflow.fetchMerge).Nodup by decide)
      (show validate ParallelWorkflow.fetchMerge = .ok () by decide +kernel)
  exact ⟨levels, hlevels, hperm⟩

/-- Of no steps there is one level, which is empty. -/
theorem computeLevels_nil :
    (stepIds []).Nodup ∧ validate [] = .ok () ∧ computeLevels [] = .ok [[]] :=
  ⟨List.nodup_nil, rfl, rfl⟩

end MeshRouter.Workflows.HierarchicalWorkflow
