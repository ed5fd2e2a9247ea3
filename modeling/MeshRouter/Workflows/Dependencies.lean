import MeshRouter.Lib.Acyclic
import MeshRouter.Workflows.Base

/-!
# Steps that depend on other steps

What `ParallelWorkflow` and `HierarchicalWorkflow` share: the reference check, the recording of a
wave of results, and what makes a record of results the right one. A run keeps its results by step
id (`Progress`), and beside them a history, newest first, of which steps were started and which
results were recorded.

`Faithful` is the invariant of a run: each recorded step has its dependencies recorded, was run once
if all of them succeeded, and was skipped otherwise. `Faithful.wave` shows that a wave keeps it,
whatever made the wave's steps ready. `Succeeds` says which steps succeed, with no reference to a
schedule, and `Faithful.success_iff` that every complete record agrees with it.
-/

namespace MeshRouter.Workflows

open Lib

/-- The ids of the steps, in order. -/
def stepIds (steps : List WorkflowStep) : List String := steps.map (·.stepId)

/-- With distinct ids, a step is among some of the steps when its id is among theirs. -/
theorem mem_stepIds_iff {steps l : List WorkflowStep} (hids : (stepIds steps).Nodup)
    (hl : l ⊆ steps) {s : WorkflowStep} (hs : s ∈ steps) : s.stepId ∈ stepIds l ↔ s ∈ l := by
  constructor
  · intro hmem
    obtain ⟨t, ht, heq⟩ := List.mem_map.mp hmem
    rwa [← List.inj_on_of_nodup_map hids (hl ht) hs heq]
  · exact fun hmem => List.mem_map.mpr ⟨s, hmem, rfl⟩

/-- The step `x` depends on `d`. -/
def DependsOn (steps : List WorkflowStep) (x d : String) : Prop :=
  ∃ s ∈ steps, s.stepId = x ∧ d ∈ s.dependsOn

/-- Some step depends on an id that no step has. -/
def HasUnknown (steps : List WorkflowStep) : Prop :=
  ∃ s ∈ steps, ∃ d ∈ s.dependsOn, d ∉ stepIds steps

/-- Some step depends on itself, directly or through other steps. -/
def IsCyclic (steps : List WorkflowStep) : Prop := ¬ Acyclic (DependsOn steps)

/-- No steps have no dependencies, unknown or cyclic. -/
theorem nil_acceptable : ¬ (HasUnknown [] ∨ IsCyclic []) := by
  have hnone : ∀ x d, ¬ DependsOn [] x d := by simp [DependsOn]
  refine not_or.mpr ⟨by simp [HasUnknown], not_not.mpr ?_⟩
  exact acyclic_of_acc fun x => Acc.intro x fun d hd => (hnone x d hd).elim

/-- The steps that succeed: those whose agent returns and whose dependencies all succeed. -/
inductive Succeeds (steps : List WorkflowStep) (agentExecutor : WorkflowStep → ExecOutcome) :
    String → Prop where
  | intro {s : WorkflowStep} {r : StepResult} : s ∈ steps → runStep agentExecutor s = .ok r →
      r.success = true → (∀ d ∈ s.dependsOn, Succeeds steps agentExecutor d) →
      Succeeds steps agentExecutor s.stepId

/-- The steps whose dependencies all succeed: these are run, and no others. -/
def Runs (steps : List WorkflowStep) (agentExecutor : WorkflowStep → ExecOutcome)
    (s : WorkflowStep) : Prop :=
  ∀ d ∈ s.dependsOn, Succeeds steps agentExecutor d

/-- An exception of the step escapes from `_run_step`. -/
def StepEscapes (agentExecutor : WorkflowStep → ExecOutcome) (s : WorkflowStep) : Prop :=
  ∃ exc, runStep agentExecutor s = .error exc

/-- The ids are distinct, and the dependencies are known and acyclic. -/
structure Acceptable (steps : List WorkflowStep) : Prop where
  nodup : (stepIds steps).Nodup
  known : ¬ HasUnknown steps
  acyclic : Acyclic (DependsOn steps)

/-- The dependencies of the step with an id. -/
def depsOf (steps : List WorkflowStep) (x : String) : List String :=
  (steps.filter (·.stepId = x)).flatMap (·.dependsOn)

/-- The dependencies are those of the first step, if it has the id, and those of the rest. -/
theorem depsOf_cons (s : WorkflowStep) (steps : List WorkflowStep) (x : String) :
    depsOf (s :: steps) x = (if s.stepId = x then s.dependsOn else []) ++ depsOf steps x := by
  unfold depsOf
  rw [List.filter_cons]
  by_cases h : s.stepId = x
  · simp [h]
  · simp [h]

theorem mem_depsOf {steps : List WorkflowStep} {x d : String} :
    d ∈ depsOf steps x ↔ DependsOn steps x d := by
  unfold depsOf DependsOn
  simp [List.mem_flatMap, List.mem_filter, and_assoc]

/-- A step that depends on something is a step. -/
theorem DependsOn.mem {steps : List WorkflowStep} {x d : String} (h : DependsOn steps x d) :
    x ∈ stepIds steps := by
  obtain ⟨s, hs, rfl, -⟩ := h
  exact List.mem_map.mpr ⟨s, hs, rfl⟩

/-- What a known step depends on is a step. -/
theorem DependsOn.mem_right {steps : List WorkflowStep} {x d : String}
    (h : DependsOn steps x d) (hknown : ¬ HasUnknown steps) : d ∈ stepIds steps := by
  obtain ⟨s, hs, -, hd⟩ := h
  by_contra hnot
  exact hknown ⟨s, hs, d, hd, hnot⟩

/-- `dependents`: the steps that depend on each step. -/
def dependents (steps : List WorkflowStep) : Dict String (List String) :=
  steps.foldl (fun dependents step =>
    step.dependsOn.foldl (fun dependents depId =>
      dependents.set depId (dependents.getD depId [] ++ [step.stepId])) dependents) .empty

/-- A step is among the dependents of `d` as often as `d` is among its dependencies. -/
theorem count_dependents (steps : List WorkflowStep) (x d : String) :
    ((dependents steps).getD d []).count x = (depsOf steps x).count d := by
  -- The inner loop adds the step `k` once for each of its dependencies.
  have hinner : ∀ (deps : List String) (k : String) (m : Dict String (List String)),
      ((deps.foldl (fun dependents depId =>
        dependents.set depId (dependents.getD depId [] ++ [k])) m).getD d []).count x =
        (m.getD d []).count x + if k = x then deps.count d else 0 := by
    intro deps k
    induction deps with
    | nil => simp
    | cons dep deps ih =>
      intro m
      rw [List.foldl_cons, ih, Dict.getD_set]
      by_cases hx : k = x
      · by_cases hd : d = dep
        · simp [hx, hd]
          omega
        · simp [hx, hd, Ne.symm hd]
      · by_cases hd : d = dep
        · simp [hx, hd]
        · simp [hx, hd]
  -- The outer loop does so for each step.
  have houter : ∀ (l : List WorkflowStep) (m : Dict String (List String)),
      ((l.foldl (fun dependents step =>
        step.dependsOn.foldl (fun dependents depId =>
          dependents.set depId (dependents.getD depId [] ++ [step.stepId])) dependents) m).getD
        d []).count x = (m.getD d []).count x + (depsOf l x).count d := by
    intro l
    induction l with
    | nil => simp [depsOf]
    | cons s l ih =>
      intro m
      rw [List.foldl_cons, ih, hinner, depsOf_cons, List.count_append]
      split_ifs
      · omega
      · simp
  rw [dependents, houter]
  simp

/-- The dependents of `d` are the steps that depend on it. -/
theorem mem_dependents {steps : List WorkflowStep} {x d : String} :
    x ∈ (dependents steps).getD d [] ↔ DependsOn steps x d := by
  rw [← mem_depsOf, ← List.count_pos_iff, ← List.count_pos_iff, count_dependents]

/-! ## The reference check -/

/-- `{s.step_id: s for s in steps}`. -/
def stepMap (steps : List WorkflowStep) : Dict String WorkflowStep :=
  steps.foldl (fun d s => d.set s.stepId s) .empty

/-- The first loop of `_validate_dependencies` and of `_validate`: the first unknown reference is an
error. -/
def checkReferences (known : Dict String WorkflowStep) :
    List WorkflowStep → Except WorkflowError Unit
  | [] => .ok ()
  | step :: steps =>
    match step.dependsOn.find? fun depId => depId ∉ known.keys with
    | some depId => .error (.unknownStep step.stepId depId)
    | none => checkReferences known steps

/-- The keys of the step map are the ids of the steps. -/
theorem mem_keys_stepMap {steps : List WorkflowStep} {x : String} :
    x ∈ (stepMap steps).keys ↔ x ∈ stepIds steps := by
  have hkeys : x ∈ (stepMap steps).keys ↔
      x ∈ stepIds steps ∨ x ∈ (Dict.empty : Dict String WorkflowStep).keys := Dict.mem_keys_setAll
  rw [hkeys]
  simp

/-- The reference check raises exactly when a reference is unknown. -/
theorem checkReferences_cases (steps : List WorkflowStep) :
    (checkReferences (stepMap steps) steps = .ok () ∧ ¬ HasUnknown steps) ∨
    (∃ stepId depId, checkReferences (stepMap steps) steps = .error (.unknownStep stepId depId) ∧
      HasUnknown steps) := by
  -- The loop over the rest of the steps still checks against the ids of all.
  have hcheck : ∀ l : List WorkflowStep,
      (checkReferences (stepMap steps) l = .ok () ∧
        ∀ s ∈ l, ∀ d ∈ s.dependsOn, d ∈ stepIds steps) ∨
      (∃ s ∈ l, ∃ d ∈ s.dependsOn, d ∉ stepIds steps ∧
        checkReferences (stepMap steps) l = .error (.unknownStep s.stepId d)) := by
    intro l
    induction l with
    | nil => exact Or.inl ⟨rfl, by simp⟩
    | cons s l ih =>
      unfold checkReferences
      cases hfind : s.dependsOn.find? fun depId => depId ∉ (stepMap steps).keys with
      | some d =>
        have hd := List.find?_some hfind
        rw [decide_eq_true_eq, mem_keys_stepMap] at hd
        exact Or.inr ⟨s, List.mem_cons_self, d, List.mem_of_find?_eq_some hfind, hd, rfl⟩
      | none =>
        have hknown : ∀ d ∈ s.dependsOn, d ∈ stepIds steps := by
          intro d hd
          have hnot := List.find?_eq_none.mp hfind d hd
          rwa [decide_eq_true_eq, not_not, mem_keys_stepMap] at hnot
        rcases ih with ⟨hok, hl⟩ | ⟨t, ht, d, hd, hunknown, herr⟩
        · refine Or.inl ⟨hok, fun t ht => ?_⟩
          rcases List.mem_cons.mp ht with rfl | ht
          · exact hknown
          · exact hl t ht
        · exact Or.inr ⟨t, List.mem_cons_of_mem _ ht, d, hd, hunknown, herr⟩
  rcases hcheck steps with ⟨hok, hknown⟩ | ⟨s, hs, d, hd, hunknown, herr⟩
  · refine Or.inl ⟨hok, ?_⟩
    rintro ⟨s, hs, d, hd, hunknown⟩
    exact hunknown (hknown s hs d hd)
  · exact Or.inr ⟨s.stepId, d, herr, s, hs, d, hd, hunknown⟩

/-! ## Recording results -/

/-- What happens to a step: it is handed to its agent, and a result is recorded for it. -/
inductive StepEvent where
  | started (stepId : String)
  | recorded (stepId : String)
deriving DecidableEq

/-- The results of a run so far, and its history. -/
structure Progress where
  results : Dict String StepResult := .empty
  log : List StepEvent := []
deriving DecidableEq

/-- What a workflow run returns, with its history. `stalled` says that the run gave up with steps
left. -/
structure Execution where
  result : WorkflowResult
  log : List StepEvent := []
  stalled : Bool := false
deriving DecidableEq

/-- What a workflow run raises, with its history. -/
structure Raised where
  error : WorkflowError
  log : List StepEvent := []
deriving DecidableEq

/-- The history of a run, however it ends. -/
def logOf : Except Raised Execution → List StepEvent
  | .ok e => e.log
  | .error e => e.log

/-- The exceptions that escape from the steps. -/
def escapes (agentExecutor : WorkflowStep → ExecOutcome) (steps : List WorkflowStep) :
    List PyException :=
  steps.filterMap fun s =>
    match runStep agentExecutor s with
    | .ok _ => none
    | .error exc => some exc

/-- There are exceptions if some step lets one escape. -/
theorem escapes_ne_nil_iff {agentExecutor : WorkflowStep → ExecOutcome}
    {steps : List WorkflowStep} :
    escapes agentExecutor steps ≠ [] ↔ ∃ s ∈ steps, StepEscapes agentExecutor s := by
  unfold escapes StepEscapes
  rw [ne_eq, List.filterMap_eq_nil_iff, not_forall]
  refine exists_congr fun s => ?_
  rw [Classical.not_imp]
  refine and_congr_right fun _ => ?_
  cases runStep agentExecutor s with
  | ok r => simp
  | error exc => simp

/-- The result of a step that is not run. -/
def skipResult (error : StepError) (step : WorkflowStep) : StepResult :=
  { stepId := step.stepId, success := false, error := some error }

namespace Progress

/-- `results[step.step_id] = …`, for each step in turn. -/
def recordAll (result : WorkflowStep → StepResult) (steps : List WorkflowStep) (p : Progress) :
    Progress :=
  steps.foldl (fun p s =>
    { results := p.results.set s.stepId (result s), log := .recorded s.stepId :: p.log }) p

/-- The steps are started. -/
def startAll (steps : List WorkflowStep) (p : Progress) : Progress :=
  { p with log := (steps.map fun s => .started s.stepId).reverse ++ p.log }

/-- `asyncio.gather` over the steps: all are started, and if all return it returns. Otherwise an
exception leaves it, and so the run. -/
def gather (agentExecutor : WorkflowStep → ExecOutcome) (steps : List WorkflowStep)
    (p : Progress) : Except Raised Progress :=
  if escapes agentExecutor steps = [] then
    .ok (p.startAll steps)
  else
    .error { error := .escaped (escapes agentExecutor steps), log := (p.startAll steps).log }

/-- The steps are run together, and then their results are recorded. -/
def runAll (agentExecutor : WorkflowStep → ExecOutcome) (steps : List WorkflowStep)
    (p : Progress) : Except Raised Progress :=
  match p.gather agentExecutor steps with
  | .error e => .error e
  | .ok p => .ok (p.recordAll (resultOf (runStep agentExecutor)) steps)

/-- `[results[s.step_id] for s in steps if s.step_id in results]`. -/
def ordered (p : Progress) (steps : List WorkflowStep) : List StepResult :=
  steps.filterMap fun s => p.results.get? s.stepId

/-- The id has a result. -/
def Recorded (p : Progress) (x : String) : Prop := x ∈ p.results.keys

/-- The id has a result, and it is a success. -/
def Succeeded (p : Progress) (x : String) : Prop :=
  ∃ r, p.results.get? x = some r ∧ r.success = true

instance (p : Progress) (x : String) : Decidable (p.Recorded x) := by
  unfold Recorded
  infer_instance

instance (p : Progress) (x : String) : Decidable (p.Succeeded x) :=
  match h : p.results.get? x with
  | none => isFalse (by simp [Succeeded, h])
  | some r => decidable_of_iff (r.success = true) (by simp [Succeeded, h])

variable {p : Progress} {steps : List WorkflowStep} {result : WorkflowStep → StepResult}

/-- A success is a result. -/
theorem Succeeded.recorded {x : String} (h : p.Succeeded x) : p.Recorded x := by
  obtain ⟨r, hr, -⟩ := h
  exact Dict.mem_keys_of_get? hr

/-- Recording results sets them. -/
theorem results_recordAll :
    (recordAll result steps p).results = Dict.setAll (·.stepId) result steps p.results := by
  induction steps generalizing p with
  | nil => rfl
  | cons s steps ih => exact ih

@[simp]
theorem recorded_recordAll {x : String} :
    (recordAll result steps p).Recorded x ↔ x ∈ stepIds steps ∨ p.Recorded x := by
  unfold Recorded
  rw [results_recordAll, Dict.mem_keys_setAll]
  rfl

/-- Results of other steps stay as they are. -/
theorem get?_recordAll_notMem {x : String} (hx : x ∉ stepIds steps) :
    (recordAll result steps p).results.get? x = p.results.get? x := by
  rw [results_recordAll, Dict.get?_setAll_of_notMem hx]

/-- The steps of a batch get their results. -/
theorem get?_recordAll_mem (hids : (stepIds steps).Nodup) {s : WorkflowStep} (hs : s ∈ steps) :
    (recordAll result steps p).results.get? s.stepId = some (result s) := by
  rw [results_recordAll]
  exact Dict.get?_setAll_of_mem hids hs

@[simp]
theorem log_recordAll : (recordAll result steps p).log =
    (steps.map fun s => StepEvent.recorded s.stepId).reverse ++ p.log := by
  induction steps generalizing p with
  | nil => rfl
  | cons s steps ih =>
    change (recordAll result steps { results := p.results.set s.stepId (result s),
                                     log := .recorded s.stepId :: p.log }).log = _
    rw [ih]
    simp

/-- What was recorded is kept by a batch of new steps. -/
theorem succeeded_recordAll {x : String} (hnew : ∀ s ∈ steps, ¬ p.Recorded s.stepId)
    (hx : p.Recorded x) : (recordAll result steps p).Succeeded x ↔ p.Succeeded x := by
  have hnot : x ∉ stepIds steps := by
    intro hmem
    obtain ⟨s, hs, rfl⟩ := List.mem_map.mp hmem
    exact hnew s hs hx
  unfold Succeeded
  rw [get?_recordAll_notMem hnot]

/-- Whether recorded dependencies succeeded is kept too. -/
theorem forall_succeeded_recordAll {ds : List String}
    (hnew : ∀ s ∈ steps, ¬ p.Recorded s.stepId) (hds : ∀ d ∈ ds, p.Recorded d) :
    (∀ d ∈ ds, (recordAll result steps p).Succeeded d) ↔ ∀ d ∈ ds, p.Succeeded d :=
  forall₂_congr fun d hd => succeeded_recordAll hnew (hds d hd)

end Progress

/-! ## The invariant of a run -/

/-- Every step was started after its dependencies were recorded. -/
def StartsAfterDeps (steps : List WorkflowStep) : List StepEvent → Prop
  | [] => True
  | .started x :: log =>
    (∀ d, DependsOn steps x d → .recorded d ∈ log) ∧ StartsAfterDeps steps log
  | .recorded _ :: log => StartsAfterDeps steps log

/-- The results are those that the dependencies demand, and each step was started as often as its
result shows. -/
structure Faithful (steps : List WorkflowStep) (agentExecutor : WorkflowStep → ExecOutcome)
    (skipError : StepError) (p : Progress) : Prop where
  settled : ∀ s ∈ steps, ∀ r, p.results.get? s.stepId = some r →
    (∀ d ∈ s.dependsOn, p.Recorded d) ∧
      if ∀ d ∈ s.dependsOn, p.Succeeded d then runStep agentExecutor s = .ok r
        else r = skipResult skipError s
  started : ∀ s ∈ steps, p.log.count (.started s.stepId) =
    if p.Recorded s.stepId ∧ ∀ d ∈ s.dependsOn, p.Succeeded d then 1 else 0
  onlySteps : ∀ x, .started x ∈ p.log → x ∈ stepIds steps
  logged : ∀ x, p.Recorded x ↔ .recorded x ∈ p.log
  inOrder : StartsAfterDeps steps p.log

namespace Faithful

variable {steps batch : List WorkflowStep} {agentExecutor : WorkflowStep → ExecOutcome}
  {skipError : StepError} {p : Progress}

/-- A run that has not begun is faithful. -/
theorem init : Faithful steps agentExecutor skipError {} := by
  constructor
  · intro s _ r hr
    cases hr
  · intro s _
    simp [Progress.Recorded]
  · simp
  · intro x
    simp [Progress.Recorded]
  · trivial

/-- Events that start only steps whose dependencies are recorded keep the starts in order. -/
theorem startsAfterDeps_append {events log : List StepEvent} (h : StartsAfterDeps steps log)
    (hstart : ∀ x, .started x ∈ events → ∀ d, DependsOn steps x d → .recorded d ∈ log) :
    StartsAfterDeps steps (events ++ log) := by
  induction events with
  | nil => exact h
  | cons e events ih =>
    have htail := ih fun x hx => hstart x (List.mem_cons_of_mem _ hx)
    cases e with
    | started x =>
      refine ⟨fun d hd => ?_, htail⟩
      exact List.mem_append_right _ (hstart x List.mem_cons_self d hd)
    | recorded x => exact htail

/-- Each step of a batch is started once. -/
theorem nodup_starts (hnodup : (stepIds batch).Nodup) (ready : WorkflowStep → Bool) :
    ((batch.filter ready).map fun s => StepEvent.started s.stepId).reverse.Nodup := by
  have hready : (stepIds (batch.filter ready)).Nodup :=
    List.Nodup.sublist (List.Sublist.map _ List.filter_sublist) hnodup
  have hmap := hready.map fun _ _ => StepEvent.started.inj
  rw [stepIds, List.map_map] at hmap
  exact List.nodup_reverse.mpr hmap

/-- A step of a batch is started once if it is ready, and no other step is started. -/
theorem count_starts (hids : (stepIds steps).Nodup) (hsub : batch ⊆ steps)
    (hnodup : (stepIds batch).Nodup) (ready : WorkflowStep → Bool) {s : WorkflowStep}
    (hs : s ∈ steps) :
    ((batch.filter ready).map fun t => StepEvent.started t.stepId).reverse.count
      (.started s.stepId) = if s ∈ batch ∧ ready s = true then 1 else 0 := by
  rw [(nodup_starts hnodup ready).count]
  refine if_congr ?_ rfl rfl
  rw [List.mem_reverse, List.mem_map]
  constructor
  · rintro ⟨t, ht, heq⟩
    have htbatch := List.mem_of_mem_filter ht
    obtain rfl := List.inj_on_of_nodup_map hids (hsub htbatch) hs (StepEvent.started.inj heq)
    exact List.mem_filter.mp ht
  · exact fun hready => ⟨s, List.mem_filter.mpr hready, rfl⟩

section Record

variable {result : WorkflowStep → StepResult} {starts : List StepEvent}

/-- The results after a batch are those that the dependencies demand. -/
theorem settled_record (h : Faithful steps agentExecutor skipError p)
    (hids : (stepIds steps).Nodup) (hsub : batch ⊆ steps) (hnodup : (stepIds batch).Nodup)
    (hnew : ∀ s ∈ batch, ¬ p.Recorded s.stepId)
    (hdeps : ∀ s ∈ batch, ∀ d ∈ s.dependsOn, p.Recorded d)
    (hresult : ∀ s ∈ batch, if ∀ d ∈ s.dependsOn, p.Succeeded d then
      runStep agentExecutor s = .ok (result s) else result s = skipResult skipError s)
    {s : WorkflowStep} (hs : s ∈ steps) {r : StepResult}
    (hr : (Progress.recordAll result batch p).results.get? s.stepId = some r) :
    (∀ d ∈ s.dependsOn, (Progress.recordAll result batch p).Recorded d) ∧
      if ∀ d ∈ s.dependsOn, (Progress.recordAll result batch p).Succeeded d then
        runStep agentExecutor s = .ok r else r = skipResult skipError s := by
  by_cases hb : s ∈ batch
  · rw [Progress.get?_recordAll_mem hnodup hb] at hr
    obtain rfl := Option.some.inj hr
    refine ⟨fun d hd => Progress.recorded_recordAll.mpr (Or.inr (hdeps s hb d hd)), ?_⟩
    simp only [Progress.forall_succeeded_recordAll hnew (hdeps s hb)]
    exact hresult s hb
  · rw [Progress.get?_recordAll_notMem fun hm => hb ((mem_stepIds_iff hids hsub hs).mp hm)] at hr
    obtain ⟨hd, hr⟩ := h.settled s hs r hr
    refine ⟨fun d hd' => Progress.recorded_recordAll.mpr (Or.inr (hd d hd')), ?_⟩
    simp only [Progress.forall_succeeded_recordAll hnew hd]
    exact hr

/-- After a batch each step was started as often as its result shows. -/
theorem started_record (h : Faithful steps agentExecutor skipError p)
    (hids : (stepIds steps).Nodup) (hsub : batch ⊆ steps) (hnodup : (stepIds batch).Nodup)
    (hnew : ∀ s ∈ batch, ¬ p.Recorded s.stepId)
    (hdeps : ∀ s ∈ batch, ∀ d ∈ s.dependsOn, p.Recorded d)
    (hstarts : starts = ((batch.filter fun s => ∀ d ∈ s.dependsOn, p.Succeeded d).map
      fun s => .started s.stepId).reverse)
    {s : WorkflowStep} (hs : s ∈ steps) :
    (starts ++ p.log).count (.started s.stepId) =
      if (Progress.recordAll result batch p).Recorded s.stepId ∧
        ∀ d ∈ s.dependsOn, (Progress.recordAll result batch p).Succeeded d then 1 else 0 := by
  have hcount : starts.count (.started s.stepId) =
      if s ∈ batch ∧ ∀ d ∈ s.dependsOn, p.Succeeded d then 1 else 0 := by
    rw [hstarts, count_starts hids hsub hnodup _ hs]
    exact if_congr (and_congr_right' decide_eq_true_iff) rfl rfl
  have hrec : (Progress.recordAll result batch p).Recorded s.stepId ↔
      s ∈ batch ∨ p.Recorded s.stepId := by
    rw [Progress.recorded_recordAll, mem_stepIds_iff hids hsub hs]
  rw [List.count_append, hcount, h.started s hs]
  by_cases hb : s ∈ batch
  · have hall : (∀ d ∈ s.dependsOn, (Progress.recordAll result batch p).Succeeded d) ↔
        ∀ d ∈ s.dependsOn, p.Succeeded d :=
      Progress.forall_succeeded_recordAll hnew (hdeps s hb)
    simp [hb, hrec, hnew s hb, hall]
  · by_cases hr : p.Recorded s.stepId
    · obtain ⟨r, hget⟩ := Dict.mem_keys_iff.mp hr
      have hall : (∀ d ∈ s.dependsOn, (Progress.recordAll result batch p).Succeeded d) ↔
          ∀ d ∈ s.dependsOn, p.Succeeded d :=
        Progress.forall_succeeded_recordAll hnew (h.settled s hs r hget).1
      simp [hb, hrec, hr, hall]
    · simp [hb, hrec, hr]

/-- A batch of new steps whose dependencies are recorded keeps the run faithful, if the steps whose
dependencies succeeded are started and run, and the others are skipped. -/
theorem record (h : Faithful steps agentExecutor skipError p) (starts : List StepEvent)
    (hids : (stepIds steps).Nodup) (hsub : batch ⊆ steps) (hnodup : (stepIds batch).Nodup)
    (hnew : ∀ s ∈ batch, ¬ p.Recorded s.stepId)
    (hdeps : ∀ s ∈ batch, ∀ d ∈ s.dependsOn, p.Recorded d)
    (hresult : ∀ s ∈ batch, if ∀ d ∈ s.dependsOn, p.Succeeded d then
      runStep agentExecutor s = .ok (result s) else result s = skipResult skipError s)
    (hstarts : starts = ((batch.filter fun s => ∀ d ∈ s.dependsOn, p.Succeeded d).map
      fun s => .started s.stepId).reverse) :
    Faithful steps agentExecutor skipError
      (Progress.recordAll result batch { p with log := starts ++ p.log }) := by
  -- The results do not depend on the log.
  have hresults : (Progress.recordAll result batch { p with log := starts ++ p.log }).results =
      (Progress.recordAll result batch p).results := by
    rw [Progress.results_recordAll, Progress.results_recordAll]
  have hrecorded : ∀ x, (Progress.recordAll result batch
      { p with log := starts ++ p.log }).Recorded x ↔
        (Progress.recordAll result batch p).Recorded x := by
    intro x
    unfold Progress.Recorded
    rw [hresults]
  have hsucceeded : ∀ x, (Progress.recordAll result batch
      { p with log := starts ++ p.log }).Succeeded x ↔
        (Progress.recordAll result batch p).Succeeded x := by
    intro x
    unfold Progress.Succeeded
    rw [hresults]
  have hstarted : ∀ x, .started x ∈ starts ↔
      ∃ t ∈ batch, (∀ d ∈ t.dependsOn, p.Succeeded d) ∧ t.stepId = x := by
    intro x
    rw [hstarts]
    simp [and_assoc]
  have hnotRecorded : ∀ x, .recorded x ∉ starts := by
    intro x
    rw [hstarts]
    simp
  constructor
  · intro s hs r hr
    simp only [hrecorded, hsucceeded]
    rw [hresults] at hr
    exact h.settled_record hids hsub hnodup hnew hdeps hresult hs hr
  · intro s hs
    have hrecs : (batch.map fun t => StepEvent.recorded t.stepId).reverse.count
        (.started s.stepId) = 0 := List.count_eq_zero.mpr (by simp)
    simp only [hrecorded, hsucceeded]
    rw [Progress.log_recordAll, List.count_append, hrecs, Nat.zero_add]
    exact h.started_record hids hsub hnodup hnew hdeps hstarts hs
  · intro x hx
    rw [Progress.log_recordAll, List.mem_append, List.mem_append] at hx
    rcases hx with hx | hx | hx
    · simp at hx
    · obtain ⟨t, ht, -, rfl⟩ := (hstarted x).mp hx
      exact List.mem_map.mpr ⟨t, hsub ht, rfl⟩
    · exact h.onlySteps x hx
  · intro x
    rw [hrecorded, Progress.recorded_recordAll, Progress.log_recordAll, h.logged x,
      List.mem_append, List.mem_append]
    simp [stepIds, hnotRecorded]
  · rw [Progress.log_recordAll, ← List.append_assoc]
    refine startsAfterDeps_append h.inOrder fun x hx d hd => ?_
    have hx' : .started x ∈ starts := by simpa using hx
    obtain ⟨t, ht, -, rfl⟩ := (hstarted x).mp hx'
    obtain ⟨s, hs, heq, hd⟩ := hd
    obtain rfl := List.inj_on_of_nodup_map hids hs (hsub ht) heq
    exact (h.logged d).mp (hdeps s ht d hd)

end Record

/-- Skipping new steps of which some dependency failed keeps the run faithful. -/
theorem skip (h : Faithful steps agentExecutor skipError p) (hids : (stepIds steps).Nodup)
    (hsub : batch ⊆ steps) (hnodup : (stepIds batch).Nodup)
    (hnew : ∀ s ∈ batch, ¬ p.Recorded s.stepId)
    (hdeps : ∀ s ∈ batch, ∀ d ∈ s.dependsOn, p.Recorded d)
    (hfailed : ∀ s ∈ batch, ¬ ∀ d ∈ s.dependsOn, p.Succeeded d) :
    Faithful steps agentExecutor skipError (p.recordAll (skipResult skipError) batch) := by
  have hnone : (batch.filter fun s => ∀ d ∈ s.dependsOn, p.Succeeded d) = [] :=
    List.filter_eq_nil_iff.mpr fun s hs => by simpa using hfailed s hs
  refine h.record [] hids hsub hnodup hnew hdeps (fun s hs => ?_) (by rw [hnone]; rfl)
  rw [if_neg (hfailed s hs)]

/-- Running new steps whose dependencies succeeded and that return keeps the run faithful. -/
theorem run (h : Faithful steps agentExecutor skipError p) (hids : (stepIds steps).Nodup)
    (hsub : batch ⊆ steps) (hnodup : (stepIds batch).Nodup)
    (hnew : ∀ s ∈ batch, ¬ p.Recorded s.stepId)
    (hready : ∀ s ∈ batch, ∀ d ∈ s.dependsOn, p.Succeeded d)
    (hreturns : ∀ s ∈ batch, ¬ StepEscapes agentExecutor s) :
    Faithful steps agentExecutor skipError
      ((p.startAll batch).recordAll (resultOf (runStep agentExecutor)) batch) := by
  have hall : (batch.filter fun s => ∀ d ∈ s.dependsOn, p.Succeeded d) = batch :=
    List.filter_eq_self.mpr fun s hs => by simpa using hready s hs
  refine h.record _ hids hsub hnodup hnew (fun s hs d hd => (hready s hs d hd).recorded)
    (fun s hs => ?_) (by rw [hall])
  rw [if_pos (hready s hs)]
  exact eq_ok_resultOf fun exc hexc => hreturns s hs ⟨exc, hexc⟩

/-- A wave that skips and runs new steps as their dependencies demand keeps the run faithful, and
records its steps, if those that are run return. -/
theorem wave (h : Faithful steps agentExecutor skipError p) (hids : (stepIds steps).Nodup)
    {skipped ready : List WorkflowStep} (hskippedSub : skipped ⊆ steps) (hreadySub : ready ⊆ steps)
    (hskippedNodup : (stepIds skipped).Nodup) (hreadyNodup : (stepIds ready).Nodup)
    (hskippedNew : ∀ s ∈ skipped, ¬ p.Recorded s.stepId)
    (hreadyNew : ∀ s ∈ ready, ¬ p.Recorded s.stepId)
    (hskipped : ∀ s ∈ skipped,
      (∀ d ∈ s.dependsOn, p.Recorded d) ∧ ¬ ∀ d ∈ s.dependsOn, p.Succeeded d)
    (hready : ∀ s ∈ ready, ∀ d ∈ s.dependsOn, p.Succeeded d)
    (hreturns : ∀ s ∈ ready, ¬ StepEscapes agentExecutor s) :
    Faithful steps agentExecutor skipError
        (((p.recordAll (skipResult skipError) skipped).startAll ready).recordAll
          (resultOf (runStep agentExecutor)) ready) ∧
      ∀ x, (((p.recordAll (skipResult skipError) skipped).startAll ready).recordAll
          (resultOf (runStep agentExecutor)) ready).Recorded x ↔
        x ∈ stepIds ready ∨ x ∈ stepIds skipped ∨ p.Recorded x := by
  constructor
  · refine (h.skip hids hskippedSub hskippedNodup hskippedNew (fun s hs => (hskipped s hs).1)
      (fun s hs => (hskipped s hs).2)).run hids hreadySub hreadyNodup (fun s hs hrec => ?_)
      (fun s hs d hd => ?_) hreturns
    · rcases Progress.recorded_recordAll.mp hrec with hmem | hold
      · obtain ⟨t, ht, heq⟩ := List.mem_map.mp hmem
        obtain rfl := List.inj_on_of_nodup_map hids (hskippedSub ht) (hreadySub hs) heq
        exact (hskipped t ht).2 (hready t hs)
      · exact hreadyNew s hs hold
    · have hd' := hready s hs d hd
      exact (Progress.succeeded_recordAll hskippedNew hd'.recorded).mpr hd'
  · intro x
    have hskip : (p.recordAll (skipResult skipError) skipped).Recorded x ↔
        x ∈ stepIds skipped ∨ p.Recorded x := Progress.recorded_recordAll
    rw [← hskip]
    exact Progress.recorded_recordAll

/-- A recorded result has the id of its step. -/
theorem stepId_eq (h : Faithful steps agentExecutor skipError p) {s : WorkflowStep} (hs : s ∈ steps)
    {r : StepResult} (hr : p.results.get? s.stepId = some r) : r.stepId = s.stepId := by
  have hsettled := (h.settled s hs r hr).2
  split_ifs at hsettled
  · exact stepId_of_runStep hsettled
  · rw [hsettled]
    rfl

/-! ### Complete runs -/

/-- Where every step has a result, the ordered results are one for each step. -/
theorem ordered_of_recorded {l : List WorkflowStep} (hl : ∀ s ∈ l, p.Recorded s.stepId) :
    p.ordered l = l.pmap (fun s hs => (p.results.get? s.stepId).get
      (Option.isSome_iff_exists.mpr (Dict.mem_keys_iff.mp hs))) hl := by
  induction l with
  | nil => rfl
  | cons s l ih =>
    obtain ⟨r, hr⟩ := Dict.mem_keys_iff.mp (hl s List.mem_cons_self)
    unfold Progress.ordered at ih ⊢
    rw [List.filterMap_cons, hr, ih fun s hs => hl s (List.mem_cons_of_mem _ hs)]
    simp [hr]

/-- The result of a step is among the ordered results. -/
theorem mem_ordered {r : StepResult} :
    r ∈ p.ordered steps ↔ ∃ s ∈ steps, p.results.get? s.stepId = some r := by
  unfold Progress.ordered
  rw [List.mem_filterMap]

/-- An id has a success among the ordered results exactly when its recorded result is one. -/
theorem exists_ordered_success (h : Faithful steps agentExecutor skipError p) {x : String}
    (hx : x ∈ stepIds steps) :
    (∃ r ∈ p.ordered steps, r.stepId = x ∧ r.success = true) ↔ p.Succeeded x := by
  constructor
  · rintro ⟨r, hr, rfl, hsucc⟩
    obtain ⟨s, hs, hget⟩ := mem_ordered.mp hr
    exact ⟨r, by rwa [h.stepId_eq hs hget], hsucc⟩
  · rintro ⟨r, hget, hsucc⟩
    obtain ⟨s, hs, rfl⟩ := List.mem_map.mp hx
    exact ⟨r, mem_ordered.mpr ⟨s, hs, hget⟩, h.stepId_eq hs hget, hsucc⟩

end Faithful

/-- What a workflow owes its caller: one result for each step, in input order; a step is run, once,
exactly when all its dependencies succeeded, and is given the failure `skipError` otherwise; a step
is started after its dependencies have results; and the status says whether all, some, or none of
the steps succeeded. -/
structure Delivers (steps : List WorkflowStep) (agentExecutor : WorkflowStep → ExecOutcome)
    (skipError : StepError) (e : Execution) : Prop where
  oneEach : e.result.stepResults.map (·.stepId) = stepIds steps
  executed : ∀ s ∈ steps,
    (∀ d ∈ s.dependsOn, ∃ r ∈ e.result.stepResults, r.stepId = d ∧ r.success = true) →
      (∃ r ∈ e.result.stepResults, runStep agentExecutor s = .ok r) ∧
        e.log.count (.started s.stepId) = 1
  skipped : ∀ s ∈ steps,
    (¬ ∀ d ∈ s.dependsOn, ∃ r ∈ e.result.stepResults, r.stepId = d ∧ r.success = true) →
      skipResult skipError s ∈ e.result.stepResults ∧ e.log.count (.started s.stepId) = 0
  onlySteps : ∀ x, .started x ∈ e.log → x ∈ stepIds steps
  inOrder : StartsAfterDeps steps e.log
  status : e.result.status =
    if ∀ r ∈ e.result.stepResults, r.success = true then .SUCCESS
    else if ∃ r ∈ e.result.stepResults, r.success = true then .PARTIAL
    else .FAILED

/-- A faithful run that recorded every step delivers. -/
theorem Faithful.delivers {steps : List WorkflowStep} {agentExecutor : WorkflowStep → ExecOutcome}
    {skipError : StepError} {p : Progress} (h : Faithful steps agentExecutor skipError p)
    (hknown : ¬ HasUnknown steps) (hrec : ∀ s ∈ steps, p.Recorded s.stepId) (stalled : Bool) :
    Delivers steps agentExecutor skipError ⟨makeResult (p.ordered steps), p.log, stalled⟩ := by
  have hresults : (makeResult (p.ordered steps)).stepResults = p.ordered steps := rfl
  have hdeps : ∀ s ∈ steps, (∀ d ∈ s.dependsOn, ∃ r ∈ p.ordered steps,
      r.stepId = d ∧ r.success = true) ↔ ∀ d ∈ s.dependsOn, p.Succeeded d := by
    intro s hs
    refine forall₂_congr fun d hd => h.exists_ordered_success ?_
    by_contra hnot
    exact hknown ⟨s, hs, d, hd, hnot⟩
  constructor
  · dsimp only
    rw [hresults, Faithful.ordered_of_recorded hrec, List.map_pmap, stepIds,
      ← List.pmap_eq_map hrec]
    refine List.pmap_congr_left steps fun s hs hr _ => ?_
    exact h.stepId_eq hs (Option.some_get _).symm
  · intro s hs hall
    dsimp only at hall ⊢
    rw [hresults, hdeps s hs] at hall
    obtain ⟨r, hr⟩ := Dict.mem_keys_iff.mp (hrec s hs)
    have hres := (h.settled s hs r hr).2
    rw [if_pos hall] at hres
    rw [hresults, h.started s hs, if_pos ⟨hrec s hs, hall⟩]
    exact ⟨⟨r, Faithful.mem_ordered.mpr ⟨s, hs, hr⟩, hres⟩, rfl⟩
  · intro s hs hnot
    dsimp only at hnot ⊢
    rw [hresults, hdeps s hs] at hnot
    obtain ⟨r, hr⟩ := Dict.mem_keys_iff.mp (hrec s hs)
    have hres := (h.settled s hs r hr).2
    rw [if_neg hnot] at hres
    rw [hresults, h.started s hs, if_neg fun hand => hnot hand.2]
    exact ⟨Faithful.mem_ordered.mpr ⟨s, hs, hres ▸ hr⟩, rfl⟩
  · exact h.onlySteps
  · exact h.inOrder
  · simp [makeResult]

namespace Delivers

variable {steps : List WorkflowStep} {agentExecutor : WorkflowStep → ExecOutcome}
  {skipError : StepError} {e : Execution}

/-- Each result is of one step, and a step has one result. -/
theorem eq_of_stepId (h : Delivers steps agentExecutor skipError e) (hids : (stepIds steps).Nodup)
    {r r' : StepResult} (hr : r ∈ e.result.stepResults) (hr' : r' ∈ e.result.stepResults)
    (heq : r.stepId = r'.stepId) : r = r' := by
  have hnodup : (e.result.stepResults.map (·.stepId)).Nodup := by rwa [h.oneEach]
  exact List.inj_on_of_nodup_map hnodup hr hr' heq

/-- Over acyclic known dependencies, the steps with a successful result are those that succeed. -/
theorem success_iff (h : Delivers steps agentExecutor skipError e) (hids : (stepIds steps).Nodup)
    (hknown : ¬ HasUnknown steps) (hacyclic : Acyclic (DependsOn steps)) {s : WorkflowStep}
    (hs : s ∈ steps) :
    (∃ r ∈ e.result.stepResults, r.stepId = s.stepId ∧ r.success = true) ↔
      Succeeds steps agentExecutor s.stepId := by
  -- Induction on how much the step depends on, directly and through other steps.
  induction hn : height (DependsOn steps) (stepIds steps) s.stepId using
    Nat.strong_induction_on generalizing s with
  | _ n ih =>
    have hdep : ∀ d ∈ s.dependsOn, (∃ r ∈ e.result.stepResults, r.stepId = d ∧ r.success = true) ↔
        Succeeds steps agentExecutor d := by
      intro d hd
      have hdep : DependsOn steps s.stepId d := ⟨s, hs, rfl, hd⟩
      have hmem := hdep.mem_right hknown
      obtain ⟨t, ht, rfl⟩ := List.mem_map.mp hmem
      exact ih _ (hn ▸ height_lt hacyclic hdep hmem) ht rfl
    constructor
    · rintro ⟨r, hr, hid, hsucc⟩
      by_cases hall : ∀ d ∈ s.dependsOn, ∃ r ∈ e.result.stepResults, r.stepId = d ∧ r.success = true
      · -- A successful result is not that of a skipped step, so the step was run.
        obtain ⟨r', hr', hrun⟩ := (h.executed s hs hall).1
        obtain rfl := h.eq_of_stepId hids hr hr' (hid.trans (stepId_of_runStep hrun).symm)
        exact .intro hs hrun hsucc fun d hd => (hdep d hd).mp (hall d hd)
      · have hskip := (h.skipped s hs hall).1
        obtain rfl := h.eq_of_stepId hids hr hskip hid
        cases hsucc
    · intro hsucc
      generalize hx : s.stepId = x at hsucc
      cases hsucc with
      | intro ht hrun hsucc hall =>
        obtain rfl := List.inj_on_of_nodup_map hids hs ht hx
        obtain ⟨r, hr, hrun'⟩ := (h.executed s hs fun d hd => (hdep d hd).mpr (hall d hd)).1
        obtain rfl := Except.ok.inj (hrun.symm.trans hrun')
        exact ⟨_, hr, stepId_of_runStep hrun, hsucc⟩

end Delivers

end MeshRouter.Workflows
