import MeshRouter.Workflows.Dependencies

/-!
# Runs in the order of the depths

The parallel and the hierarchical workflow take the steps in the same order, although one computes
the depths of the steps first and the other finds them wave by wave: the steps whose longest chain
of dependencies has `k` steps are taken together (`IsWave`). Of these, the steps whose dependencies
all succeed are run, and the others are skipped.

`ReachedDepth` is the state of a run that has taken all smaller depths. A wave of steps that return
leads to the next depth (`ReachedDepth.advance`), and a wave with a step whose exception escapes
ends the run (`ReachedDepth.gather_cases`). The history says in both cases how far the run came.
-/

namespace MeshRouter.Workflows

open Lib

variable {steps : List WorkflowStep} {agentExecutor : WorkflowStep → ExecOutcome}
  {skipError : StepError} {p : Progress} {k : ℕ} {s : WorkflowStep}

/-- The longest chain of dependencies of the step has `k` steps. -/
abbrev AtDepth (steps : List WorkflowStep) (k : ℕ) (s : WorkflowStep) : Prop :=
  HasDepth (DependsOn steps) s.stepId k

/-- Some step at the depth is run and lets an exception escape. -/
def EscapesAt (steps : List WorkflowStep) (agentExecutor : WorkflowStep → ExecOutcome) (k : ℕ) :
    Prop :=
  ∃ s ∈ steps, AtDepth steps k s ∧ Runs steps agentExecutor s ∧ StepEscapes agentExecutor s

/-- The step with the id is run, and is at a depth below `k`. -/
def RunsBelow (steps : List WorkflowStep) (agentExecutor : WorkflowStep → ExecOutcome) (k : ℕ)
    (x : String) : Prop :=
  ∃ s ∈ steps, s.stepId = x ∧ Runs steps agentExecutor s ∧ ¬ HasChain (DependsOn steps) x k

/-- A step depends on what it lists. -/
theorem Acceptable.dependsOn_iff (h : Acceptable steps) (hs : s ∈ steps) {d : String} :
    DependsOn steps s.stepId d ↔ d ∈ s.dependsOn := by
  constructor
  · rintro ⟨t, ht, hid, hd⟩
    rwa [← List.inj_on_of_nodup_map h.nodup ht hs hid]
  · exact fun hd => ⟨s, hs, rfl, hd⟩

/-- A dependency is a step. -/
theorem Acceptable.exists_dep (h : Acceptable steps) (hs : s ∈ steps) {d : String}
    (hd : d ∈ s.dependsOn) : ∃ t ∈ steps, t.stepId = d :=
  List.mem_map.mp (((h.dependsOn_iff hs).mpr hd).mem_right h.known)

/-- Every step has a depth, and none below the length of a chain of it. -/
theorem Acceptable.exists_atDepth (h : Acceptable steps)
    (hchain : HasChain (DependsOn steps) s.stepId k) : ∃ m, k ≤ m ∧ AtDepth steps m s :=
  hchain.exists_hasDepth h.acyclic fun _ _ hdep => hdep.mem_right h.known

/-- Below a step there is a step at each smaller depth. -/
theorem Acceptable.exists_mem_atDepth (h : Acceptable steps) (hs : s ∈ steps)
    (hchain : HasChain (DependsOn steps) s.stepId k) : ∃ t ∈ steps, AtDepth steps k t := by
  obtain ⟨m, hle, hm⟩ := h.exists_atDepth hchain
  clear hchain
  induction m, hle using Nat.le_induction generalizing s with
  | base => exact ⟨s, hs, hm⟩
  | succ m hle ih =>
    -- The longest chain leads to a dependency, whose longest chain is one step shorter.
    obtain ⟨d, hdep, hd⟩ := hasChain_succ_iff.mp hm.1
    obtain ⟨t, ht, rfl⟩ := List.mem_map.mp (hdep.mem_right h.known)
    exact ih ht ⟨hd, fun hsucc => hm.2 (hasChain_succ_iff.mpr ⟨_, hdep, hsucc⟩)⟩

/-- A recorded step succeeded exactly if it is one that succeeds. -/
theorem Faithful.succeeded_iff (hf : Faithful steps agentExecutor skipError p)
    (h : Acceptable steps) (hs : s ∈ steps) (hrec : p.Recorded s.stepId) :
    p.Succeeded s.stepId ↔ Succeeds steps agentExecutor s.stepId := by
  -- Induction on how much the step depends on, directly and through other steps.
  induction hn : height (DependsOn steps) (stepIds steps) s.stepId using
    Nat.strong_induction_on generalizing s with
  | _ n ih =>
    obtain ⟨r, hr⟩ := Dict.mem_keys_iff.mp hrec
    obtain ⟨hdeps, hres⟩ := hf.settled s hs r hr
    have hdep : (∀ d ∈ s.dependsOn, p.Succeeded d) ↔ Runs steps agentExecutor s := by
      refine forall₂_congr fun d hd => ?_
      obtain ⟨t, ht, rfl⟩ := h.exists_dep hs hd
      have hlt := height_lt h.acyclic ((h.dependsOn_iff hs).mpr hd) (List.mem_map_of_mem ht)
      exact ih _ (hn ▸ hlt) ht (hdeps _ hd) rfl
    constructor
    · rintro ⟨r', hr', hsucc⟩
      obtain rfl := Option.some.inj (hr.symm.trans hr')
      by_cases hall : ∀ d ∈ s.dependsOn, p.Succeeded d
      · rw [if_pos hall] at hres
        exact .intro hs hres hsucc (hdep.mp hall)
      · rw [if_neg hall] at hres
        rw [hres] at hsucc
        cases hsucc
    · intro hsucc
      generalize hx : s.stepId = x at hsucc
      cases hsucc with
      | intro ht hrun hsuccess hall =>
        obtain rfl := List.inj_on_of_nodup_map h.nodup hs ht hx
        rw [if_pos (hdep.mpr hall), hrun] at hres
        obtain rfl := Except.ok.inj hres
        exact ⟨_, hr, hsuccess⟩

/-- A run has taken the steps at depths below `k`, and no others. -/
structure ReachedDepth (steps : List WorkflowStep) (agentExecutor : WorkflowStep → ExecOutcome)
    (skipError : StepError) (k : ℕ) (p : Progress) : Prop where
  faithful : Faithful steps agentExecutor skipError p
  recorded : ∀ s ∈ steps, p.Recorded s.stepId ↔ ¬ HasChain (DependsOn steps) s.stepId k

/-- The steps at a depth, in two lists: those to skip and those to run. -/
structure IsWave (steps : List WorkflowStep) (agentExecutor : WorkflowStep → ExecOutcome) (k : ℕ)
    (skipped ready : List WorkflowStep) : Prop where
  nodup_skipped : (stepIds skipped).Nodup
  nodup_ready : (stepIds ready).Nodup
  mem_skipped : ∀ s, s ∈ skipped ↔ s ∈ steps ∧ AtDepth steps k s ∧ ¬ Runs steps agentExecutor s
  mem_ready : ∀ s, s ∈ ready ↔ s ∈ steps ∧ AtDepth steps k s ∧ Runs steps agentExecutor s

namespace ReachedDepth

/-- A run that has not begun. -/
theorem init : ReachedDepth steps agentExecutor skipError 0 {} :=
  ⟨Faithful.init, fun s _ => iff_of_false (by simp [Progress.Recorded])
    (not_not.mpr (hasChain_zero _ _))⟩

section Deps

/-- The dependencies that are recorded are all of a step exactly if it is at a depth up to `k`. -/
theorem deps_recorded_iff (h : ReachedDepth steps agentExecutor skipError k p)
    (hacc : Acceptable steps) (hs : s ∈ steps) :
    (∀ d ∈ s.dependsOn, p.Recorded d) ↔ ¬ HasChain (DependsOn steps) s.stepId (k + 1) := by
  rw [hasChain_succ_iff, not_exists]
  constructor
  · rintro hall d ⟨hdep, hchain⟩
    have hd := (hacc.dependsOn_iff hs).mp hdep
    obtain ⟨t, ht, rfl⟩ := hacc.exists_dep hs hd
    exact (h.recorded t ht).mp (hall _ hd) hchain
  · intro hnone d hd
    obtain ⟨t, ht, rfl⟩ := hacc.exists_dep hs hd
    exact (h.recorded t ht).mpr fun hchain => hnone _ ⟨(hacc.dependsOn_iff hs).mpr hd, hchain⟩

/-- A step is at depth `k` exactly if its dependencies are recorded and it is not. -/
theorem atDepth_iff (h : ReachedDepth steps agentExecutor skipError k p) (hacc : Acceptable steps)
    (hs : s ∈ steps) :
    AtDepth steps k s ↔ ¬ p.Recorded s.stepId ∧ ∀ d ∈ s.dependsOn, p.Recorded d := by
  rw [h.deps_recorded_iff hacc hs, h.recorded s hs, not_not]
  exact Iff.rfl

/-- Where the dependencies are recorded, the record says whether the step is run. -/
theorem runs_iff (h : ReachedDepth steps agentExecutor skipError k p) (hacc : Acceptable steps)
    (hs : s ∈ steps) (hdeps : ∀ d ∈ s.dependsOn, p.Recorded d) :
    (∀ d ∈ s.dependsOn, p.Succeeded d) ↔ Runs steps agentExecutor s := by
  refine forall₂_congr fun d hd => ?_
  obtain ⟨t, ht, rfl⟩ := hacc.exists_dep hs hd
  exact h.faithful.succeeded_iff hacc ht (hdeps _ hd)

end Deps

/-- The run started the steps that are run and are at smaller depths. -/
theorem started_iff (h : ReachedDepth steps agentExecutor skipError k p) (hacc : Acceptable steps)
    {x : String} : .started x ∈ p.log ↔ RunsBelow steps agentExecutor k x := by
  have hcount : ∀ s ∈ steps, .started s.stepId ∈ p.log ↔
      p.Recorded s.stepId ∧ ∀ d ∈ s.dependsOn, p.Succeeded d := by
    intro s hs
    rw [← List.count_pos_iff, h.faithful.started s hs]
    split_ifs with hand
    · exact iff_of_true Nat.one_pos hand
    · exact iff_of_false (Nat.lt_irrefl 0) hand
  have hruns : ∀ s ∈ steps, p.Recorded s.stepId →
      ((∀ d ∈ s.dependsOn, p.Succeeded d) ↔ Runs steps agentExecutor s) := by
    intro s hs hrec
    obtain ⟨r, hr⟩ := Dict.mem_keys_iff.mp hrec
    exact h.runs_iff hacc hs (h.faithful.settled s hs r hr).1
  constructor
  · intro hx
    obtain ⟨s, hs, rfl⟩ := List.mem_map.mp (h.faithful.onlySteps x hx)
    obtain ⟨hrec, hall⟩ := (hcount s hs).mp hx
    exact ⟨s, hs, rfl, (hruns s hs hrec).mp hall, (h.recorded s hs).mp hrec⟩
  · rintro ⟨s, hs, rfl, hruns', hdepth⟩
    have hrec := (h.recorded s hs).mpr hdepth
    exact (hcount s hs).mpr ⟨hrec, (hruns s hs hrec).mpr hruns'⟩

section Wave

variable {skipped ready : List WorkflowStep}

/-- What a wave starts, beside what was started before: the run steps of its depth. -/
theorem started_startAll (h : ReachedDepth steps agentExecutor skipError k p)
    (hacc : Acceptable steps) (hwave : IsWave steps agentExecutor k skipped ready) {x : String} :
    .started x ∈ ((p.recordAll (skipResult skipError) skipped).startAll ready).log ↔
      RunsBelow steps agentExecutor (k + 1) x := by
  have hlog : .started x ∈ ((p.recordAll (skipResult skipError) skipped).startAll ready).log ↔
      x ∈ stepIds ready ∨ .started x ∈ p.log := by
    unfold Progress.startAll
    rw [Progress.log_recordAll]
    simp [stepIds]
  rw [hlog, h.started_iff hacc]
  constructor
  · rintro (hx | ⟨s, hs, rfl, hruns, hdepth⟩)
    · obtain ⟨s, hs, rfl⟩ := List.mem_map.mp hx
      obtain ⟨hmem, hdepth, hruns⟩ := (hwave.mem_ready s).mp hs
      exact ⟨s, hmem, rfl, hruns, hdepth.2⟩
    · exact ⟨s, hs, rfl, hruns, fun hchain => hdepth (hchain.of_le (Nat.le_succ k))⟩
  · rintro ⟨s, hs, rfl, hruns, hdepth⟩
    by_cases hchain : HasChain (DependsOn steps) s.stepId k
    · exact Or.inl (List.mem_map_of_mem ((hwave.mem_ready s).mpr ⟨hs, ⟨hchain, hdepth⟩, hruns⟩))
    · exact Or.inr ⟨s, hs, rfl, hruns, hchain⟩

/-- The steps of a wave are run together, and an exception of one ends the run. -/
theorem gather_cases (h : ReachedDepth steps agentExecutor skipError k p)
    (hacc : Acceptable steps) (hwave : IsWave steps agentExecutor k skipped ready) :
    (¬ EscapesAt steps agentExecutor k ∧
      (p.recordAll (skipResult skipError) skipped).gather agentExecutor ready =
        .ok ((p.recordAll (skipResult skipError) skipped).startAll ready)) ∨
    (EscapesAt steps agentExecutor k ∧
      ∃ e, (p.recordAll (skipResult skipError) skipped).gather agentExecutor ready = .error e ∧
        ∀ x, .started x ∈ e.log ↔ RunsBelow steps agentExecutor (k + 1) x) := by
  have hescapes : escapes agentExecutor ready ≠ [] ↔ EscapesAt steps agentExecutor k := by
    rw [escapes_ne_nil_iff]
    simp only [hwave.mem_ready, EscapesAt, and_assoc]
  unfold Progress.gather
  by_cases hesc : EscapesAt steps agentExecutor k
  · rw [if_neg (hescapes.mpr hesc)]
    exact Or.inr ⟨hesc, _, rfl, fun x => h.started_startAll hacc hwave⟩
  · rw [if_pos (not_not.mp fun hne => hesc (hescapes.mp hne))]
    exact Or.inl ⟨hesc, rfl⟩

/-- A wave whose steps return leads to the next depth. -/
theorem advance (h : ReachedDepth steps agentExecutor skipError k p) (hacc : Acceptable steps)
    (hwave : IsWave steps agentExecutor k skipped ready)
    (hreturns : ¬ EscapesAt steps agentExecutor k) :
    ReachedDepth steps agentExecutor skipError (k + 1)
      (((p.recordAll (skipResult skipError) skipped).startAll ready).recordAll
        (resultOf (runStep agentExecutor)) ready) := by
  have hskipSub : skipped ⊆ steps := fun s hs => ((hwave.mem_skipped s).mp hs).1
  have hreadySub : ready ⊆ steps := fun s hs => ((hwave.mem_ready s).mp hs).1
  have hdepth : ∀ s ∈ steps, AtDepth steps k s →
      ¬ p.Recorded s.stepId ∧ (∀ d ∈ s.dependsOn, p.Recorded d) ∧
        ((∀ d ∈ s.dependsOn, p.Succeeded d) ↔ Runs steps agentExecutor s) := by
    intro s hs hat
    obtain ⟨hnew, hdeps⟩ := (h.atDepth_iff hacc hs).mp hat
    exact ⟨hnew, hdeps, h.runs_iff hacc hs hdeps⟩
  obtain ⟨hfaithful, hrec⟩ := h.faithful.wave hacc.nodup hskipSub hreadySub hwave.nodup_skipped
    hwave.nodup_ready
    (fun s hs => (hdepth s (hskipSub hs) ((hwave.mem_skipped s).mp hs).2.1).1)
    (fun s hs => (hdepth s (hreadySub hs) ((hwave.mem_ready s).mp hs).2.1).1)
    (fun s hs => by
      obtain ⟨hmem, hat, hruns⟩ := (hwave.mem_skipped s).mp hs
      obtain ⟨-, hdeps, hiff⟩ := hdepth s hmem hat
      exact ⟨hdeps, fun hall => hruns (hiff.mp hall)⟩)
    (fun s hs => by
      obtain ⟨hmem, hat, hruns⟩ := (hwave.mem_ready s).mp hs
      exact (hdepth s hmem hat).2.2.mpr hruns)
    (fun s hs hesc => by
      obtain ⟨hmem, hat, hruns⟩ := (hwave.mem_ready s).mp hs
      exact hreturns ⟨s, hmem, hat, hruns, hesc⟩)
  refine ⟨hfaithful, fun s hs => ?_⟩
  rw [hrec, mem_stepIds_iff hacc.nodup hreadySub hs, mem_stepIds_iff hacc.nodup hskipSub hs,
    hwave.mem_ready, hwave.mem_skipped, h.recorded s hs]
  constructor
  · rintro (⟨-, hat, -⟩ | ⟨-, hat, -⟩ | hnot)
    · exact hat.2
    · exact hat.2
    · exact fun hchain => hnot (hchain.of_le (Nat.le_succ k))
  · intro hnot
    by_cases hchain : HasChain (DependsOn steps) s.stepId k
    · by_cases hruns : Runs steps agentExecutor s
      · exact Or.inl ⟨hs, ⟨hchain, hnot⟩, hruns⟩
      · exact Or.inr (Or.inl ⟨hs, ⟨hchain, hnot⟩, hruns⟩)
    · exact Or.inr (Or.inr hchain)

end Wave

/-- Beyond all depths every step has its result. -/
theorem recorded_all (h : ReachedDepth steps agentExecutor skipError k p)
    (hend : ∀ s ∈ steps, ¬ HasChain (DependsOn steps) s.stepId k) :
    ∀ s ∈ steps, p.Recorded s.stepId :=
  fun s hs => (h.recorded s hs).mpr (hend s hs)

end ReachedDepth

end MeshRouter.Workflows
