import Mathlib.Data.List.Perm.Subperm
import MeshRouter.Workflows.Parallel

/-!
# Kahn's algorithm finds the cycles

`KahnState` is the invariant of the loop: the in-degree of a step counts its dependencies that are
not visited, the queue holds the unvisited steps that have none left, and every visited step is
accessible. The loop ends with an empty queue, and then the visited steps are exactly those whose
dependencies are all visited. So it has visited every step exactly when the dependencies are
acyclic: if it has, every step is accessible, and if they are, no step can be the first that is
missing (`kahnLoop_eq_length_iff`).
-/

namespace MeshRouter.Workflows

open Lib

variable {steps : List WorkflowStep}

namespace ParallelWorkflow

/-- The in-degree of a step is the number of its dependencies. -/
theorem getD_inDegrees (steps : List WorkflowStep) (x : String) :
    (inDegrees steps).getD x 0 = (depsOf steps x).length := by
  -- The inner loop adds one for each dependency, at the step `k` alone.
  have hinner : ∀ (deps : List String) (k : String) (d : Dict String ℤ),
      (deps.foldl (fun inDegree _ => inDegree.set k (inDegree.getD k 0 + 1)) d).getD x 0 =
        d.getD x 0 + if k = x then (deps.length : ℤ) else 0 := by
    intro deps k
    induction deps with
    | nil => simp
    | cons dep deps ih =>
      intro d
      rw [List.foldl_cons, ih, Dict.getD_set]
      by_cases hx : k = x
      · rw [if_pos hx, if_pos hx.symm, if_pos hx, hx, List.length_cons]
        omega
      · rw [if_neg hx, if_neg (Ne.symm hx), if_neg hx]
  have houter : ∀ (l : List WorkflowStep) (d : Dict String ℤ),
      (l.foldl (fun inDegree step =>
        let inDegree :=
          if step.stepId ∈ inDegree.keys then inDegree else inDegree.set step.stepId 0
        step.dependsOn.foldl (fun inDegree _ =>
          inDegree.set step.stepId (inDegree.getD step.stepId 0 + 1)) inDegree) d).getD x 0 =
        d.getD x 0 + (depsOf l x).length := by
    intro l
    induction l with
    | nil => simp [depsOf]
    | cons s l ih =>
      intro d
      -- Setting a new in-degree to zero changes no lookup that defaults to zero.
      have hinit : ((if s.stepId ∈ d.keys then d else d.set s.stepId 0).getD x 0) = d.getD x 0 := by
        split_ifs with hs
        · rfl
        · rw [Dict.getD_set]
          split_ifs with hx
          · rw [hx, Dict.getD, Dict.get?_eq_none_iff.mpr hs]
            rfl
          · rfl
      rw [List.foldl_cons, ih, hinner, hinit, depsOf_cons, List.length_append]
      split_ifs
      · omega
      · simp
  rw [inDegrees, houter]
  simp

/-- Releasing dependents lowers their in-degrees, and queues those that come to zero. -/
theorem release_spec (inDegree : Dict String ℤ) (queue dependentIds : List String) :
    (∀ x, (release inDegree queue dependentIds).1.getD x 0 =
      inDegree.getD x 0 - dependentIds.count x) ∧
    ∃ released : List String, (release inDegree queue dependentIds).2 = queue ++ released ∧
      released.Nodup ∧
      ∀ x, x ∈ released ↔ 0 < inDegree.getD x 0 ∧ inDegree.getD x 0 ≤ dependentIds.count x := by
  induction dependentIds generalizing inDegree queue with
  | nil =>
    refine ⟨by simp [release], [], by simp [release], List.nodup_nil, fun x => ?_⟩
    rw [List.count_nil]
    constructor
    · intro hx
      cases hx
    · intro hx
      omega
  | cons y ys ih =>
    unfold release
    dsimp only
    obtain ⟨hdeg, released, hqueue, hnodup, hmem⟩ :=
      ih (inDegree.set y (inDegree.getD y 0 - 1))
        (if inDegree.getD y 0 - 1 = 0 then queue ++ [y] else queue)
    simp only [Dict.getD_set] at hdeg hmem
    refine ⟨fun x => ?_, ?_⟩
    · rw [hdeg, List.count_cons]
      by_cases hx : x = y
      · simp [hx]
        omega
      · simp [hx, Ne.symm hx]
    · -- A dependent comes to zero once, at the last of its occurrences in the list.
      by_cases hzero : inDegree.getD y 0 - 1 = 0
      · rw [if_pos hzero] at hqueue ⊢
        refine ⟨y :: released, ?_, List.nodup_cons.mpr ⟨fun hy => ?_, hnodup⟩, fun x => ?_⟩
        · rw [hqueue, List.append_assoc, List.singleton_append]
        · have hpos := ((hmem y).mp hy).1
          rw [if_pos rfl] at hpos
          omega
        · rw [List.mem_cons, hmem, List.count_cons]
          by_cases hx : x = y
          · simp [hx]
            omega
          · simp [hx, Ne.symm hx]
      · rw [if_neg hzero] at hqueue ⊢
        refine ⟨released, hqueue, hnodup, fun x => ?_⟩
        rw [hmem, List.count_cons]
        by_cases hx : x = y
        · simp [hx]
          omega
        · simp [hx, Ne.symm hx]

/-- The state of Kahn's loop after it has visited `visited`. -/
structure KahnState (steps : List WorkflowStep) (visited : List String) (inDegree : Dict String ℤ)
    (queue : List String) : Prop where
  degree : ∀ x, inDegree.getD x 0 = (depsOf steps x).countP (· ∉ visited)
  nodup : (visited ++ queue).Nodup
  mem : ∀ x, x ∈ visited ++ queue ↔ x ∈ stepIds steps ∧ ∀ d ∈ depsOf steps x, d ∈ visited
  acc : ∀ x ∈ visited, Acc (Function.swap (DependsOn steps)) x

/-- Kahn's loop begins with the steps that depend on nothing. -/
theorem KahnState.init (hids : (stepIds steps).Nodup) :
    KahnState steps [] (inDegrees steps)
      ((stepIds steps).filter fun x => (inDegrees steps).getD x 0 = 0) := by
  constructor
  · intro x
    rw [getD_inDegrees]
    simp
  · exact hids.filter _
  · intro x
    rw [List.nil_append, List.mem_filter, decide_eq_true_eq, getD_inDegrees]
    simp [List.eq_nil_iff_forall_not_mem]
  · simp

/-- Visiting a step adds it to what its dependents count as visited. -/
theorem countP_visit (deps : List String) {visited : List String} {node : String}
    (hnode : node ∉ visited) :
    deps.countP (· ∉ visited) = deps.countP (· ∉ visited ++ [node]) + deps.count node := by
  induction deps with
  | nil => rfl
  | cons d deps ih =>
    rw [List.countP_cons, List.countP_cons, List.count_cons, ih]
    by_cases hd : d = node
    · simp [hd, hnode]
      omega
    · simp [hd]
      omega

/-- A turn of Kahn's loop keeps its invariant. -/
theorem KahnState.visit {visited queue : List String} {inDegree : Dict String ℤ} {node : String}
    (h : KahnState steps visited inDegree (node :: queue)) :
    KahnState steps (visited ++ [node])
      (release inDegree queue ((dependents steps).getD node [])).1
      (release inDegree queue ((dependents steps).getD node [])).2 := by
  obtain ⟨hdeg, released, hqueue, hreleased, hmem⟩ :=
    release_spec inDegree queue ((dependents steps).getD node [])
  simp only [count_dependents] at hdeg hmem
  have hnode : node ∉ visited := by
    intro hn
    exact (List.nodup_append.mp h.nodup).2.2 node hn node List.mem_cons_self rfl
  -- What is released are the steps whose last unvisited dependency is the node.
  have hrel : ∀ x, x ∈ released ↔
      ¬ (∀ d ∈ depsOf steps x, d ∈ visited) ∧ ∀ d ∈ depsOf steps x, d ∈ visited ++ [node] := by
    intro x
    rw [hmem, h.degree, countP_visit _ hnode]
    have hcount := countP_visit (depsOf steps x) hnode
    have hpos : 0 < (depsOf steps x).countP (· ∉ visited) ↔
        ¬ ∀ d ∈ depsOf steps x, d ∈ visited := by
      rw [List.countP_pos_iff]
      simp
    have hzero : (depsOf steps x).countP (· ∉ visited ++ [node]) = 0 ↔
        ∀ d ∈ depsOf steps x, d ∈ visited ++ [node] := by
      rw [List.countP_eq_zero]
      exact forall₂_congr fun d _ => by rw [decide_eq_true_eq, not_not]
    rw [← hpos, ← hzero]
    omega
  -- The node goes from the queue to the visited steps.
  have hperm : (visited ++ [node] ++ (queue ++ released)).Perm
      (visited ++ node :: queue ++ released) := by
    simp
  constructor
  · intro x
    rw [hdeg, h.degree, countP_visit _ hnode]
    omega
  · rw [hqueue, hperm.nodup_iff, List.nodup_append']
    refine ⟨h.nodup, hreleased, fun x hx hx' => ?_⟩
    exact ((hrel x).mp hx').1 ((h.mem x).mp hx).2
  · intro x
    rw [hqueue, hperm.mem_iff, List.mem_append, h.mem, hrel]
    constructor
    · rintro (⟨hx, hall⟩ | ⟨hnot, hall⟩)
      · exact ⟨hx, fun d hd => List.mem_append_left _ (hall d hd)⟩
      · refine ⟨?_, hall⟩
        rw [not_forall] at hnot
        obtain ⟨d, hnot⟩ := hnot
        rw [Classical.not_imp] at hnot
        exact (mem_depsOf.mp hnot.1).mem
    · rintro ⟨hx, hall⟩
      by_cases hold : ∀ d ∈ depsOf steps x, d ∈ visited
      · exact Or.inl ⟨hx, hold⟩
      · exact Or.inr ⟨hold, hall⟩
  · -- A step is visited after all that it depends on.
    intro x hx
    rcases List.mem_append.mp hx with hx | hx
    · exact h.acc x hx
    · obtain rfl := List.mem_singleton.mp hx
      have hdeps := ((h.mem x).mp (List.mem_append_right _ List.mem_cons_self)).2
      exact Acc.intro x fun d hd => h.acc d (hdeps d (mem_depsOf.mpr hd))

/-- Kahn's loop ends with an empty queue, and counts the steps that it visited. -/
theorem KahnState.loop {visited queue : List String} {inDegree : Dict String ℤ}
    (h : KahnState steps visited inDegree queue) :
    ∃ visited' inDegree', KahnState steps visited' inDegree' [] ∧
      visited'.length = visited.length + kahnLoop (dependents steps) inDegree queue := by
  fun_induction kahnLoop (dependents steps) inDegree queue generalizing visited with
  | case1 inDegree => exact ⟨visited, inDegree, h, rfl⟩
  | case2 inDegree node queue next =>
    rename_i ih
    obtain ⟨visited', inDegree', hstate, hlen⟩ := ih h.visit
    refine ⟨visited', inDegree', hstate, ?_⟩
    rw [hlen, List.length_append, List.length_singleton]
    omega

/-- Kahn's algorithm visits every step exactly when the dependencies are acyclic. -/
theorem kahnLoop_eq_length_iff (hids : (stepIds steps).Nodup) (hknown : ¬ HasUnknown steps) :
    kahnLoop (dependents steps) (inDegrees steps)
        ((stepIds steps).filter fun x => (inDegrees steps).getD x 0 = 0) = steps.length ↔
      Acyclic (DependsOn steps) := by
  obtain ⟨visited, inDegree, hstate, hlen⟩ := (KahnState.init hids).loop
  rw [List.length_nil, Nat.zero_add] at hlen
  have hnodup := hstate.nodup
  have hmem := hstate.mem
  rw [List.append_nil] at hnodup hmem
  have hsub : visited ⊆ stepIds steps := fun x hx => ((hmem x).mp hx).1
  have hsteps : steps.length = (stepIds steps).length := by rw [stepIds, List.length_map]
  rw [← hlen, hsteps]
  constructor
  · intro heq
    -- All steps were visited, and with them what any step depends on.
    have hall : stepIds steps ⊆ visited :=
      ((List.subperm_of_subset hnodup hsub).perm_of_length_le heq.ge).symm.subset
    refine acyclic_of_acc fun x => Acc.intro x fun d hd => ?_
    exact hstate.acc d (hall (DependsOn.mem_right hd hknown))
  · intro hacyclic
    have hall : ∀ x ∈ stepIds steps, x ∈ visited := by
      intro x hx
      -- Induction on how much the step depends on, directly and through other steps.
      induction hn : height (DependsOn steps) (stepIds steps) x using
        Nat.strong_induction_on generalizing x with
      | _ n ih =>
        refine (hmem x).mpr ⟨hx, fun d hd => ?_⟩
        have hdep := mem_depsOf.mp hd
        have hd' := hdep.mem_right hknown
        exact ih _ (hn ▸ height_lt hacyclic hdep hd') d hd' rfl
    exact le_antisymm (List.subperm_of_subset hnodup hsub).length_le
      (List.subperm_of_subset hids hall).length_le

/-- `_validate_dependencies` accepts exactly the steps whose dependencies are known and acyclic. -/
theorem validateDependencies_cases (hids : (stepIds steps).Nodup) :
    (validateDependencies steps = .ok () ∧ ¬ HasUnknown steps ∧ Acyclic (DependsOn steps)) ∨
    (∃ e, validateDependencies steps = .error e ∧ e.IsValueError ∧
      (HasUnknown steps ∨ IsCyclic steps)) := by
  unfold validateDependencies
  rcases checkReferences_cases steps with ⟨hok, hknown⟩ | ⟨s, d, herr, hunknown⟩
  · rw [hok]
    dsimp only
    by_cases hcount : kahnLoop (dependents steps) (inDegrees steps)
        ((stepIds steps).filter fun x => (inDegrees steps).getD x 0 = 0) = steps.length
    · exact Or.inl ⟨if_neg (not_not.mpr hcount), hknown,
        (kahnLoop_eq_length_iff hids hknown).mp hcount⟩
    · refine Or.inr ⟨_, if_pos hcount, trivial, Or.inr fun hacyclic => hcount ?_⟩
      exact (kahnLoop_eq_length_iff hids hknown).mpr hacyclic
  · rw [herr]
    exact Or.inr ⟨_, rfl, trivial, Or.inl hunknown⟩

end ParallelWorkflow

end MeshRouter.Workflows
