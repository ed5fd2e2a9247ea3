import MeshRouter.Workflows.DepthFirst

/-!
# The depths and the levels

Over known acyclic dependencies `get_depth` returns a depth for every step, and every dependency of
a step has a smaller one (`DepthOrdered`): the recursion goes down the dependencies, so it ends, and
it stores nothing for the step that it was called on. The levels are then the steps of each depth in
turn (`groupByDepth_eq`).
-/

namespace MeshRouter.Workflows.HierarchicalWorkflow

open Lib

variable {steps : List WorkflowStep}

/-! ## Depths -/

/-- The step map finds each step. -/
theorem get?_stepMap (hids : (stepIds steps).Nodup) {s : WorkflowStep} (hs : s ∈ steps) :
    (stepMap steps).get? s.stepId = some s := by
  change (Dict.setAll (·.stepId) id steps .empty).get? s.stepId = some (id s)
  exact Dict.get?_setAll_of_mem hids hs

/-- Every step with a depth has its dependencies at smaller depths. -/
def DepthOrdered (steps : List WorkflowStep) (depth : Dict String ℕ) : Prop :=
  ∀ x n, depth.get? x = some n → ∀ d, DependsOn steps x d → ∃ m, depth.get? d = some m ∧ m < n

/-- What a call of `get_depth` leaves: the depths known before, and new ones only for steps below a
height. -/
structure Deepened (steps : List WorkflowStep) (bound : ℕ) (depth depth' : Dict String ℕ) :
    Prop where
  keep : ∀ x n, depth.get? x = some n → depth'.get? x = some n
  fresh : ∀ x n, depth'.get? x = some n →
    depth.get? x = some n ∨ height (DependsOn steps) (stepIds steps) x < bound

theorem Deepened.refl (bound : ℕ) (depth : Dict String ℕ) : Deepened steps bound depth depth :=
  ⟨fun _ _ => id, fun _ _ => Or.inl⟩

theorem Deepened.trans {bound : ℕ} {depth depth' depth'' : Dict String ℕ}
    (h : Deepened steps bound depth depth') (h' : Deepened steps bound depth' depth'') :
    Deepened steps bound depth depth'' := by
  refine ⟨fun x n hx => h'.keep x n (h.keep x n hx), fun x n hx => ?_⟩
  rcases h'.fresh x n hx with hold | hlt
  · exact h.fresh x n hold
  · exact Or.inr hlt

theorem Deepened.mono {bound bound' : ℕ} {depth depth' : Dict String ℕ}
    (h : Deepened steps bound depth depth') (hle : bound ≤ bound') :
    Deepened steps bound' depth depth' :=
  ⟨h.keep, fun x n hx => (h.fresh x n hx).imp_right fun hlt => hlt.trans_le hle⟩

/-- A step whose dependencies have smaller depths can be given its depth. -/
theorem DepthOrdered.set {depth : Dict String ℕ} {x : String} {k : ℕ}
    (h : DepthOrdered steps depth) (hnone : depth.get? x = none)
    (hdeps : ∀ d, DependsOn steps x d → ∃ m, depth.get? d = some m ∧ m < k) :
    DepthOrdered steps (depth.set x k) := by
  have hother : ∀ d m, depth.get? d = some m → (depth.set x k).get? d = some m := by
    intro d m hd
    rw [Dict.get?_set, if_neg, hd]
    rintro rfl
    cases hnone.symm.trans hd
  intro y n hy d hd
  rw [Dict.get?_set] at hy
  split_ifs at hy with hyx
  · obtain rfl := Option.some.inj hy
    obtain ⟨m, hm, hlt⟩ := hdeps d (hyx ▸ hd)
    exact ⟨m, hother d m hm, hlt⟩
  · obtain ⟨m, hm, hlt⟩ := h y n hy d hd
    exact ⟨m, hother d m hm, hlt⟩

/-- Storing the depth of a step that had none. -/
theorem Deepened.set {bound k : ℕ} {depth depth' : Dict String ℕ} {x : String}
    (h : Deepened steps bound depth depth') (hnone : depth.get? x = none)
    (hx : height (DependsOn steps) (stepIds steps) x < bound) :
    Deepened steps bound depth (depth'.set x k) := by
  constructor
  · intro y n hy
    rw [Dict.get?_set, if_neg, h.keep y n hy]
    rintro rfl
    cases hnone.symm.trans hy
  · intro y n hy
    rw [Dict.get?_set] at hy
    split_ifs at hy with hyx
    · exact Or.inr (hyx ▸ hx)
    · exact h.fresh y n hy

/-- The loop over the parents finds a depth for each, and returns a bound on them. -/
theorem maxParentDepth_spec {getDepth : String → Dict String ℕ →
      Except WorkflowError (ℕ × Dict String ℕ)} {bound : ℕ} {ds : List String}
    {depth : Dict String ℕ}
    (hget : ∀ d ∈ ds, ∀ depth, DepthOrdered steps depth → ∃ n depth',
      getDepth d depth = .ok (n, depth') ∧ depth'.get? d = some n ∧ DepthOrdered steps depth' ∧
        Deepened steps bound depth depth') (hdepth : DepthOrdered steps depth) :
    ∃ m depth', maxParentDepth getDepth ds depth = .ok (m, depth') ∧
      (∀ d ∈ ds, ∃ n, depth'.get? d = some n ∧ n ≤ m) ∧ DepthOrdered steps depth' ∧
        Deepened steps bound depth depth' := by
  induction ds generalizing depth with
  | nil => exact ⟨0, depth, rfl, by simp, hdepth, Deepened.refl _ _⟩
  | cons d ds ih =>
    obtain ⟨n, depth₁, hok, hd, hordered, hdeep⟩ := hget d List.mem_cons_self depth hdepth
    obtain ⟨m, depth₂, hok', hds, hordered', hdeep'⟩ :=
      ih (fun d' hd' => hget d' (List.mem_cons_of_mem d hd')) hordered
    refine ⟨max n m, depth₂, ?_, fun d' hd' => ?_, hordered', hdeep.trans hdeep'⟩
    · unfold maxParentDepth
      rw [hok]
      dsimp only
      rw [hok']
    · rcases List.mem_cons.mp hd' with rfl | hd'
      · exact ⟨n, hdeep'.keep _ _ hd, Nat.le_max_left n m⟩
      · obtain ⟨k, hk, hle⟩ := hds d' hd'
        exact ⟨k, hk, hle.trans (Nat.le_max_right n m)⟩

/-- `get_depth` finds the depth of a step, when the bound on the recursion is above its height. -/
theorem getDepth_spec (hids : (stepIds steps).Nodup) (hknown : ¬ HasUnknown steps)
    (hacyclic : Acyclic (DependsOn steps)) {fuel : ℕ} {s : WorkflowStep} (hs : s ∈ steps)
    (hfuel : height (DependsOn steps) (stepIds steps) s.stepId < fuel) {depth : Dict String ℕ}
    (hdepth : DepthOrdered steps depth) :
    ∃ n depth', getDepth (stepMap steps) fuel s.stepId depth = .ok (n, depth') ∧
      depth'.get? s.stepId = some n ∧ DepthOrdered steps depth' ∧
      Deepened steps (height (DependsOn steps) (stepIds steps) s.stepId + 1) depth depth' := by
  -- Induction on the bound: each parent has a smaller height than the step.
  induction fuel generalizing s depth with
  | zero => omega
  | succ fuel ih =>
    have hdeps : ∀ d ∈ s.dependsOn, DependsOn steps s.stepId d := fun d hd => ⟨s, hs, rfl, hd⟩
    have hdeps' : ∀ d, DependsOn steps s.stepId d → d ∈ s.dependsOn := by
      rintro d ⟨t, ht, heq, hd⟩
      rwa [← List.inj_on_of_nodup_map hids ht hs heq]
    unfold getDepth
    cases hfound : depth.get? s.stepId with
    | some n => exact ⟨n, depth, rfl, hfound, hdepth, Deepened.refl _ _⟩
    | none =>
      dsimp only
      rw [get?_stepMap hids hs]
      dsimp only
      by_cases hnil : s.dependsOn = []
      · rw [if_pos hnil]
        refine ⟨0, _, rfl, by simp, hdepth.set hfound fun d hd => ?_,
          (Deepened.refl _ _).set hfound (Nat.lt_succ_self _)⟩
        have hmem := hdeps' d hd
        rw [hnil] at hmem
        cases hmem
      · rw [if_neg hnil]
        -- The parents are lower than the step, so their calls store nothing for it.
        have hget : ∀ d ∈ s.dependsOn, ∀ depth, DepthOrdered steps depth → ∃ n depth',
            getDepth (stepMap steps) fuel d depth = .ok (n, depth') ∧ depth'.get? d = some n ∧
              DepthOrdered steps depth' ∧
              Deepened steps (height (DependsOn steps) (stepIds steps) s.stepId) depth depth' := by
          intro d hd depth hdepth
          have hmem := (hdeps d hd).mem_right hknown
          have hlt := height_lt hacyclic (hdeps d hd) hmem
          obtain ⟨t, ht, rfl⟩ := List.mem_map.mp hmem
          obtain ⟨n, depth', hok, hn, hordered, hdeep⟩ := ih ht (by omega) hdepth
          exact ⟨n, depth', hok, hn, hordered, hdeep.mono (by omega)⟩
        obtain ⟨m, depth', hok, hds, hordered, hdeep⟩ := maxParentDepth_spec hget hdepth
        rw [hok]
        -- The parents' calls store depths below the height of the step only.
        have hnone : depth'.get? s.stepId = none := by
          by_contra hsome
          obtain ⟨n, hn⟩ := Option.ne_none_iff_exists'.mp hsome
          rcases hdeep.fresh s.stepId n hn with hold | hlt
          · cases hfound.symm.trans hold
          · exact absurd hlt (lt_irrefl _)
        refine ⟨m + 1, _, rfl, by simp, hordered.set hnone fun d hd => ?_,
          (hdeep.mono (Nat.le_succ _)).set hfound (Nat.lt_succ_self _)⟩
        obtain ⟨n, hn, hle⟩ := hds d (hdeps' d hd)
        exact ⟨n, hn, Nat.lt_succ_of_le hle⟩

/-- Every step gets a depth. -/
theorem computeDepths_spec (hids : (stepIds steps).Nodup) (hknown : ¬ HasUnknown steps)
    (hacyclic : Acyclic (DependsOn steps)) {l : List WorkflowStep} (hl : l ⊆ steps)
    {depth : Dict String ℕ} (hdepth : DepthOrdered steps depth) :
    ∃ depth', computeDepths (stepMap steps) (steps.length + 1) l depth = .ok depth' ∧
      DepthOrdered steps depth' ∧ (∀ x n, depth.get? x = some n → depth'.get? x = some n) ∧
      ∀ s ∈ l, ∃ n, depth'.get? s.stepId = some n := by
  induction l generalizing depth with
  | nil => exact ⟨depth, rfl, hdepth, fun _ _ => id, by simp⟩
  | cons s l ih =>
    have hs : s ∈ steps := hl List.mem_cons_self
    have hheight := height_lt_length hacyclic (List.mem_map_of_mem (f := (·.stepId)) hs)
    rw [List.length_map] at hheight
    have hfuel : height (DependsOn steps) (stepIds steps) s.stepId < steps.length + 1 :=
      hheight.trans (Nat.lt_succ_self _)
    obtain ⟨n, depth₁, hok, hn, hordered, hdeep⟩ :=
      getDepth_spec hids hknown hacyclic hs hfuel hdepth
    obtain ⟨depth₂, hok', hordered', hkeep, hall⟩ :=
      ih (fun t ht => hl (List.mem_cons_of_mem s ht)) hordered
    refine ⟨depth₂, ?_, hordered', fun x k hx => hkeep x k (hdeep.keep x k hx), fun t ht => ?_⟩
    · unfold computeDepths
      rw [hok]
      exact hok'
    · rcases List.mem_cons.mp ht with rfl | ht
      · exact ⟨n, hkeep _ _ hn⟩
      · exact hall t ht

/-! ## Levels -/

/-- The level of a step: its depth. -/
def levelOf (depth : Dict String ℕ) (s : WorkflowStep) : ℕ := depth.getD s.stepId 0

/-- No depth is above the largest. -/
theorem le_foldl_max {l : List ℕ} {a n : ℕ} (h : n ≤ a ∨ n ∈ l) : n ≤ l.foldl max a := by
  induction l generalizing a with
  | nil => exact h.resolve_right (by simp)
  | cons b l ih =>
    rw [List.foldl_cons]
    rcases h with h | h
    · exact ih (Or.inl (h.trans (Nat.le_max_left a b)))
    · rcases List.mem_cons.mp h with rfl | h
      · exact ih (Or.inl (Nat.le_max_right a n))
      · exact ih (Or.inr h)

/-- The levels are the steps of each depth, in turn. -/
theorem groupByDepth_eq (depth : Dict String ℕ) (steps : List WorkflowStep) :
    groupByDepth depth steps = (List.range (depth.values.foldl max 0 + 1)).map
      fun k => steps.filter fun s => levelOf depth s = k := by
  -- The loop appends to each level the steps of its depth, in order.
  have hfold : ∀ (l : List WorkflowStep) (levels : List (List WorkflowStep)) (k : ℕ),
      (l.foldl (fun levels s => levels.modify (depth.getD s.stepId 0) (· ++ [s])) levels)[k]? =
        levels[k]?.map (· ++ l.filter fun s => levelOf depth s = k) := by
    intro l
    induction l with
    | nil => simp
    | cons s l ih =>
      intro levels k
      rw [List.foldl_cons, ih, List.getElem?_modify, List.filter_cons]
      by_cases hk : levelOf depth s = k
      · have hk' : depth.getD s.stepId 0 = k := hk
        cases levels[k]? <;> simp [hk, hk']
      · have hk' : depth.getD s.stepId 0 ≠ k := hk
        cases levels[k]? <;> simp [hk, hk']
  refine List.ext_getElem? fun k => ?_
  unfold groupByDepth
  dsimp only
  rw [hfold, List.getElem?_map, List.getElem?_replicate]
  split_ifs with hk
  · rw [List.getElem?_range hk]
    rfl
  · rw [List.getElem?_eq_none (by simpa using hk)]
    rfl

end MeshRouter.Workflows.HierarchicalWorkflow
