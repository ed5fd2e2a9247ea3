import Mathlib.Algebra.Group.Prod
import Mathlib.Algebra.Order.Group.Multiset
import MeshRouter.Lib.Footprint
import MeshRouter.Workflows.StepRuns

/-!
# Parallel steps in any order

The steps of a parallel step are executed one after the other on one context. A task reads what is
under its agent and under its inputs, and writes its outputs. A conditional step reads the first
segment of its condition, and what its branches read. So each step is an action on the context with
a footprint (`footprint_effect`), if the handlers depend on their arguments alone. Where no step of
a parallel step writes what another one reads or writes, the steps can be executed in any order
(`parallel_comm`).
-/

namespace MeshRouter.Workflows

open Lib

/-! ## What a step reads and writes -/

/-- The keys that the tasks of a step declare as outputs, down to any depth. -/
inductive Writes : YAMLWorkflowStep → String → Prop where
  | output {step : YAMLWorkflowStep} {key : String} (htype : step.stepType = .task)
      (hkey : key ∈ step.outputs) : Writes step key
  | nested {step sub : YAMLWorkflowStep} {key : String} (hsub : sub ∈ step.nested)
      (hkey : Writes sub key) : Writes step key

/-- The keys that a step reads, down to any depth: the agents and the inputs of tasks, and the first
segments of conditions. -/
inductive Reads : YAMLWorkflowStep → String → Prop where
  | agent {step : YAMLWorkflowStep} {key : String} (htype : step.stepType = .task)
      (hkey : step.agent = .str key) : Reads step key
  | input {step : YAMLWorkflowStep} {key : String} (htype : step.stepType = .task)
      (hkey : key ∈ step.inputs.values) : Reads step key
  | condition {step : YAMLWorkflowStep} {condition : String} (htype : step.stepType = .conditional)
      (hcondition : step.condition = some condition) :
      Reads step ((YAMLWorkflow.segments condition).headD "")
  | nested {step sub : YAMLWorkflowStep} {key : String} (hsub : sub ∈ step.nested)
      (hkey : Reads sub key) : Reads step key

/-- A task writes its outputs. -/
theorem writes_task_iff {step : YAMLWorkflowStep} {key : String} (htype : step.stepType = .task) :
    Writes step key ↔ key ∈ step.outputs := by
  constructor
  · intro h
    cases h with
    | output _ hkey => exact hkey
    | nested hsub hkey =>
      unfold YAMLWorkflowStep.nested at hsub
      rw [htype] at hsub
      cases hsub
  · exact .output htype

/-- A task reads its agent and its inputs. -/
theorem reads_task_iff {step : YAMLWorkflowStep} {key : String} (htype : step.stepType = .task) :
    Reads step key ↔ step.agent = .str key ∨ key ∈ step.inputs.values := by
  constructor
  · intro h
    cases h with
    | agent _ hkey => exact .inl hkey
    | input _ hkey => exact .inr hkey
    | condition hconditional _ => cases htype.symm.trans hconditional
    | nested hsub hkey =>
      unfold YAMLWorkflowStep.nested at hsub
      rw [htype] at hsub
      cases hsub
  · rintro (hkey | hkey)
    · exact .agent htype hkey
    · exact .input htype hkey

/-- The outputs of two steps are disjoint, and disjoint from what the other one reads. -/
structure DisjointSteps (a b : YAMLWorkflowStep) : Prop where
  writes : ∀ key, Writes a key → ¬ Writes b key
  left : ∀ key, Writes a key → ¬ Reads b key
  right : ∀ key, Writes b key → ¬ Reads a key

namespace YAMLWorkflow

variable {H σ : Type} {env : Environment H σ} {step : YAMLWorkflowStep} {s t : Store H σ}

/-- The handlers are functions of their arguments. -/
def PureHandlers (env : Environment H σ) : Prop :=
  ∃ outcome : H → Context H → HandlerOutcome,
    ∀ h arguments world, env.call h arguments world = (outcome h arguments, world)

/-- What a store has under a key. -/
abbrev lookup (store : Store H σ) (key : String) : Option (ContextValue H) :=
  store.context.get? key

/-! ## Tasks -/

/-- What the merge of a result puts under a key. -/
def merged (outputs : List String) (result : Value) (key : String) : Option (ContextValue H) :=
  match result with
  | .dict entries =>
    if key ∈ outputs then ((Dict.ofList entries).get? key).map ContextValue.value else none
  | result => if outputs.head? = some key then some (.value result) else none

theorem merged_eq_none {outputs : List String} {key : String} (hkey : key ∉ outputs)
    (result : Value) : (merged outputs result key : Option (ContextValue H)) = none := by
  have hhead : outputs.head? ≠ some key := fun hhead => hkey (List.mem_of_head? hhead)
  unfold merged
  cases result with
  | dict entries => exact if_neg hkey
  | _ => exact if_neg hhead

/-- The merge of a mapping puts the values that it has over those of the context. -/
theorem get?_mergeOutputs_dict (outputs : List String) (entries : List (String × Value))
    (context : Context H) (key : String) :
    (mergeOutputs outputs (.dict entries) context).get? key =
      (merged outputs (.dict entries) key).or (context.get? key) := by
  unfold mergeOutputs merged
  dsimp only
  induction outputs generalizing context with
  | nil => rfl
  | cons outputKey outputs ih =>
    rw [List.foldl_cons, ih]
    by_cases hkey : key = outputKey
    · subst hkey
      rw [if_pos List.mem_cons_self]
      cases hget : (Dict.ofList entries).get? key with
      | none => simp
      | some v =>
        dsimp only
        rw [Dict.get?_set, if_pos rfl]
        split_ifs <;> rfl
    · have hmem : key ∈ outputKey :: outputs ↔ key ∈ outputs := by simp [hkey]
      simp only [hmem]
      cases (Dict.ofList entries).get? outputKey with
      | none => rfl
      | some v =>
        dsimp only
        rw [Dict.get?_set, if_neg hkey]

/-- The merge puts its values over those of the context. -/
theorem get?_mergeOutputs (outputs : List String) (result : Value) (context : Context H)
    (key : String) :
    (mergeOutputs outputs result context).get? key =
      (merged outputs result key).or (context.get? key) := by
  have hset : ∀ (outputKey : String) (outputs : List String) (v : Value),
      (context.set outputKey (.value v)).get? key =
        (if (outputKey :: outputs).head? = some key then some (.value v) else none).or
          (context.get? key) := by
    intro outputKey outputs v
    rw [Dict.get?_set, List.head?_cons]
    by_cases hkey : key = outputKey
    · subst hkey
      rw [if_pos rfl, if_pos rfl]
      rfl
    · rw [if_neg hkey, if_neg fun heq => hkey (Option.some.inj heq).symm]
      rfl
  cases result with
  | dict entries => exact get?_mergeOutputs_dict outputs entries context key
  | _ =>
    cases outputs with
    | nil => rfl
    | cons outputKey outputs => exact hset outputKey outputs _

/-- A task does alike in stores that agree on what it reads. -/
theorem runTask_alike (hpure : PureHandlers env) (htype : step.stepType = .task)
    (hagree : AgreeOn lookup {key | Reads step key} s t) :
    (∃ e, runTask env step s = .error e ∧ runTask env step t = .error e) ∨
      ∃ failure s' t', runTask env step s = .ok (failure, s') ∧
        runTask env step t = .ok (failure, t') ∧ ChangedAlike lookup s s' t t' := by
  obtain ⟨outcome, hcall⟩ := hpure
  have hkept : ChangedAlike lookup s s t t := fun key => .inr ⟨rfl, rfl⟩
  have hlookup : lookupAgent s.context step.agent = lookupAgent t.context step.agent := by
    cases hagent : step.agent with
    | str key => exact congrArg Except.ok (hagree key (.agent htype hagent))
    | _ => rfl
  have hinputs : resolveInputs step.inputs s.context = resolveInputs step.inputs t.context := by
    refine Dict.mapValues_congr fun key hkey => ?_
    unfold Dict.getD
    rw [show s.context.get? key = t.context.get? key from hagree key (.input htype hkey)]
  by_cases hnone : step.agent = .none
  · unfold runTask
    rw [if_pos hnone, if_pos hnone]
    exact .inr ⟨some .agentMissing, s, t, rfl, rfl, hkept⟩
  cases hfound : lookupAgent t.context step.agent with
  | error e =>
    unfold runTask
    rw [if_neg hnone, if_neg hnone, hlookup, hfound]
    exact .inl ⟨e, rfl, rfl⟩
  | ok found =>
    rw [hfound] at hlookup
    by_cases hhandler : ∃ h, found = some (.handler h)
    · obtain ⟨h, rfl⟩ := hhandler
      rw [runTask_of_found hlookup, runTask_of_found hfound, hinputs, hcall, hcall]
      cases outcome h (resolveInputs step.inputs t.context) with
      | raised text =>
        cases text with
        | error e => exact .inl ⟨e, rfl, rfl⟩
        | ok text => exact .inr ⟨some (.handlerRaised text), s, t, rfl, rfl, hkept⟩
      | returned result =>
        refine .inr ⟨none, _, _, rfl, rfl, fun key => ?_⟩
        unfold lookup
        dsimp only
        rw [get?_mergeOutputs, get?_mergeOutputs]
        cases merged step.outputs result key with
        | none => exact .inr ⟨rfl, rfl⟩
        | some v => exact .inl rfl
    · have hhandler := not_exists.mp hhandler
      rw [runTask_of_not_found env hnone hlookup hhandler,
        runTask_of_not_found env hnone hfound hhandler]
      cases step.agent.toStr env.conv with
      | error e => exact .inl ⟨e, rfl, rfl⟩
      | ok agent => exact .inr ⟨some (notCalled found agent), s, t, rfl, rfl, hkept⟩

/-- A task changes nothing but its outputs. -/
theorem runTask_frame {failure : Option StepFailure}
    (hrun : runTask env step s = .ok (failure, t)) {key : String} (hkey : key ∉ step.outputs) :
    lookup t key = lookup s key := by
  have hmerge : ∀ result, (mergeOutputs step.outputs result s.context).get? key =
      s.context.get? key := by
    intro result
    rw [get?_mergeOutputs, merged_eq_none hkey]
    rfl
  by_cases hnone : step.agent = .none
  · unfold runTask at hrun
    rw [if_pos hnone] at hrun
    obtain ⟨-, rfl⟩ := Prod.mk.inj (Except.ok.inj hrun)
    rfl
  cases hfound : lookupAgent s.context step.agent with
  | error e =>
    unfold runTask at hrun
    rw [if_neg hnone, hfound] at hrun
    cases hrun
  | ok found =>
    by_cases hhandler : ∃ h, found = some (.handler h)
    · obtain ⟨h, rfl⟩ := hhandler
      rw [runTask_of_found hfound] at hrun
      rcases hcall : env.call h (resolveInputs step.inputs s.context) s.world with
        ⟨result | text, world⟩
      · rw [hcall] at hrun
        obtain ⟨-, rfl⟩ := Prod.mk.inj (Except.ok.inj hrun)
        exact hmerge result
      · rw [hcall] at hrun
        cases text with
        | error e => cases hrun
        | ok text =>
          obtain ⟨-, rfl⟩ := Prod.mk.inj (Except.ok.inj hrun)
          rfl
    · rw [runTask_of_not_found env hnone hfound (not_exists.mp hhandler)] at hrun
      cases htext : step.agent.toStr env.conv with
      | error e =>
        rw [htext] at hrun
        cases hrun
      | ok agent =>
        rw [htext] at hrun
        obtain ⟨-, rfl⟩ := Prod.mk.inj (Except.ok.inj hrun)
        rfl

/-! ## The effect of a step -/

/-- What a run adds to its lists, in any order. -/
abbrev Recorded := Multiset String × Multiset (String × StepFailure)

/-- What a run has recorded. -/
def recorded (r : RunState H σ) : Recorded := (r.stepsCompleted, r.errors)

/-- What an execution leaves, if it does not raise. -/
def summary : Except PyError (RunState H σ) → Option (Store H σ × Recorded)
  | .ok r => some (r.store, recorded r)
  | .error _ => none

/-- The effect of a step on a store. -/
def effect (env : Environment H σ) (step : YAMLWorkflowStep) (store : Store H σ) :
    Option (Store H σ × Recorded) :=
  summary (executeStep env step (.start store))

theorem recorded_extend (r r' : RunState H σ) :
    recorded (r.extend r') = recorded r + recorded r' := by
  unfold recorded
  simp

/-- The effect of a list of steps is that of the steps one after the other. -/
theorem summary_executeSteps (env : Environment H σ) (steps : List YAMLWorkflowStep)
    (store : Store H σ) :
    summary (executeSteps env steps (.start store)) = runAll (steps.map (effect env)) store := by
  induction steps generalizing store with
  | nil => rfl
  | cons step steps ih =>
    rw [executeSteps_cons, List.map_cons, runAll]
    cases hstep : executeStep env step (.start store) with
    | error e =>
      have heffect : effect env step store = none := by
        unfold effect
        rw [hstep]
        rfl
      rw [andThen_eq_none_of_first heffect]
      rfl
    | ok r =>
      have heffect : effect env step store = some (r.store, recorded r) := by
        unfold effect
        rw [hstep]
        rfl
      have hgo : (.ok r >>= executeSteps env steps) =
          (executeSteps env steps (.start r.store)).map r.extend := executeSteps_eq env steps r
      rw [hgo]
      cases hsteps : executeSteps env steps (.start r.store) with
      | error e =>
        rw [andThen_eq_none heffect (by rw [← ih, hsteps]; rfl)]
        rfl
      | ok r' =>
        have hrest : runAll (steps.map (effect env)) r.store = some (r'.store, recorded r') := by
          rw [← ih, hsteps]
          rfl
        rw [andThen_eq_some heffect hrest, ← recorded_extend]
        rfl

/-- What a task records. -/
def taskRecord (step : YAMLWorkflowStep) : Option StepFailure → Recorded
  | none => ({step.name}, 0)
  | some failure => (0, {(step.name, failure)})

/-- The effect of a task. -/
theorem effect_task (htype : step.stepType = .task) (store : Store H σ) :
    effect env step store =
      (runTask env step store).toOption.map fun result =>
        (result.2, taskRecord step result.1) := by
  unfold effect
  rw [executeStep_task htype]
  unfold executeTask
  rcases runTask env step store with e | ⟨failure | _, store'⟩
  · rfl
  · rfl
  · rfl

/-- A task has the footprint of what it reads and writes. -/
theorem footprint_task (hpure : PureHandlers env) (htype : step.stepType = .task) :
    HasFootprint (lookup : Store H σ → String → Option (ContextValue H)) {key | Reads step key}
      {key | Writes step key} (effect env step) where
  frame {s s' o} hrun key hkey := by
    rw [effect_task htype] at hrun
    obtain ⟨⟨failure, t⟩, htask, hmade⟩ := Option.map_eq_some_iff.mp hrun
    obtain ⟨rfl, -⟩ := Prod.mk.inj hmade
    cases hresult : runTask env step s with
    | error e =>
      rw [hresult] at htask
      cases htask
    | ok result =>
      rw [hresult] at htask
      obtain rfl := Option.some.inj htask
      exact runTask_frame hresult fun hmem => hkey (.output htype hmem)
  alike {s t} hagree := by
    rw [effect_task htype, effect_task htype]
    obtain ⟨e, hs, ht⟩ | ⟨failure, s', t', hs, ht, hchanged⟩ := runTask_alike hpure htype hagree
    · rw [hs, ht]
      exact .inl ⟨rfl, rfl⟩
    · rw [hs, ht]
      exact .inr ⟨s', t', taskRecord step failure, rfl, rfl, hchanged⟩

/-- What a composite step adds to what is recorded beneath it. -/
def addOwn (step : YAMLWorkflowStep) (beneath : Recorded) : Recorded :=
  (beneath.1 + if step.stepType = .conditional ∨ beneath.2 = 0 then {step.name} else 0, beneath.2)

/-- The own name of a composite step is added to what is recorded beneath. -/
theorem addOwn_recorded (step : YAMLWorkflowStep) (beneath : RunState H σ) :
    addOwn step (recorded beneath) =
      (↑(beneath.stepsCompleted ++ ownName step beneath), ↑beneath.errors) := by
  unfold addOwn recorded ownName
  rw [← Multiset.coe_add]
  simp only [Multiset.coe_eq_zero]
  split_ifs
  · rfl
  · rfl

/-- The effect of a composite step is that of the steps that it has chosen, and its own. -/
theorem effect_composite (htype : step.stepType ≠ .task)
    (hcondition : step.stepType = .conditional → step.condition ≠ none) (store : Store H σ) :
    effect env step store =
      (runAll ((chosen env step store.context).map (effect env)) store).map fun result =>
        (result.1, addOwn step result.2) := by
  rw [← summary_executeSteps]
  unfold effect
  rw [executeStep_composite htype hcondition]
  dsimp only
  cases executeSteps env (chosen env step store.context) (.start store) with
  | error e => rfl
  | ok beneath =>
    dsimp only [Except.map, summary, Option.map_some]
    rw [addOwn_recorded]
    rfl

/-- The condition of a step selects by what the step reads. -/
theorem chosen_congr (env : Environment H σ)
    (hagree : AgreeOn lookup {key | Reads step key} s t) :
    chosen env step s.context = chosen env step t.context := by
  unfold chosen
  cases htype : step.stepType with
  | conditional =>
    cases hcondition : step.condition with
    | none => rfl
    | some condition =>
      have hfirst := hagree _ (.condition htype hcondition)
      unfold lookup at hfirst
      dsimp only
      unfold resolveDotPath
      rw [hfirst]
  | _ => rfl

/-- The effect of a step has the footprint of what it reads and writes. -/
theorem footprint_effect (hpure : PureHandlers env) (step : YAMLWorkflowStep) :
    HasFootprint (lookup : Store H σ → String → Option (ContextValue H)) {key | Reads step key}
      {key | Writes step key} (effect env step) := by
  induction step using YAMLWorkflowStep.nestedInduction with
  | h step ih =>
    have hnested : ∀ steps : List YAMLWorkflowStep, (∀ sub ∈ steps, sub ∈ step.nested) →
        HasFootprint (lookup : Store H σ → String → Option (ContextValue H)) {key | Reads step key}
          {key | Writes step key} (runAll (steps.map (effect env))) := by
      intro steps hsteps
      refine HasFootprint.runAll fun f hf => ?_
      obtain ⟨sub, hsub, rfl⟩ := List.mem_map.mp hf
      have hmem := hsteps sub hsub
      exact (ih sub hmem).mono (fun key hkey => .nested hmem hkey) fun key hkey => .nested hmem hkey
    by_cases htask : step.stepType = .task
    · exact footprint_task hpure htask
    · by_cases hcondition : step.stepType = .conditional → step.condition ≠ none
      · have hselect : HasFootprint (lookup : Store H σ → String → Option (ContextValue H))
            {key | Reads step key} {key | Writes step key}
            fun store => runAll ((chosen env step store.context).map (effect env)) store :=
          HasFootprint.select
            (fun store => hnested (chosen env step store.context) fun sub => nested_of_chosen)
            fun s t hagree => congrArg (List.map (effect env)) (chosen_congr env hagree)
        rw [funext (effect_composite htask hcondition)]
        exact hselect.mapOutput (addOwn step)
      · -- Without a condition nothing is executed.
        obtain ⟨htype, hnone⟩ := Classical.not_imp.mp hcondition
        have heffect : ∀ store : Store H σ, effect env step store =
            (runAll (([] : List YAMLWorkflowStep).map (effect env)) store).map fun result =>
              (result.1, (0, {(step.name, .conditionMissing)})) := by
          intro store
          unfold effect
          rw [executeStep_noCondition htype (not_not.mp hnone)]
          rfl
        rw [funext heffect]
        exact (hnested [] fun sub hsub => by cases hsub).mapOutput fun _ => _

/-! ## Permutations -/

/-- A step as an action with its footprint. -/
def stepAction (hpure : PureHandlers env) (step : YAMLWorkflowStep) :
    Action (lookup : Store H σ → String → Option (ContextValue H)) Recorded where
  run := effect env step
  reads := {key | Reads step key}
  writes := {key | Writes step key}
  footprint := footprint_effect hpure step

/-- Steps with disjoint outputs that the other one does not read are independent actions. -/
theorem independent_stepAction (hpure : PureHandlers env) {a b : YAMLWorkflowStep}
    (h : DisjointSteps a b) : Independent (stepAction hpure a) (stepAction hpure b) where
  writes := h.writes
  left := h.left
  right := h.right

/-- The effects of two permutations of a list of disjoint steps are the same. -/
theorem same_of_perm (hpure : PureHandlers env) {steps steps' : List YAMLWorkflowStep}
    (hperm : steps.Perm steps') (hdisjoint : steps.Pairwise DisjointSteps) (store : Store H σ) :
    Same lookup (runAll (steps.map (effect env)) store) (runAll (steps'.map (effect env)) store) :=
  by
  have hrun : ∀ steps : List YAMLWorkflowStep,
      steps.map (effect env) = (steps.map (stepAction hpure)).map Action.run := by
    intro steps
    rw [List.map_map]
    rfl
  rw [hrun, hrun]
  refine runAll_perm (hperm.map _) ?_ fun key => rfl
  rw [List.pairwise_map]
  exact hdisjoint.imp fun h => independent_stepAction hpure h

/-- Steps with the same effect do the same to every run. -/
theorem executeStep_of_same {a b : YAMLWorkflowStep} (s : RunState H σ)
    (hsame : Same lookup (effect env a s.store) (effect env b s.store)) :
    ((∃ e, executeStep env a s = .error e) ∧ ∃ e, executeStep env b s = .error e) ∨
    ∃ t t', executeStep env a s = .ok t ∧ executeStep env b s = .ok t' ∧
      (∀ key, t.store.context.get? key = t'.store.context.get? key) ∧
      t.stepsCompleted.Perm t'.stepsCompleted ∧ t.errors.Perm t'.errors := by
  rw [executeStep_eq env a, executeStep_eq env b]
  unfold effect at hsame
  cases ha : executeStep env a (.start s.store) with
  | error e =>
    rw [ha] at hsame
    obtain ⟨-, hnone⟩ | ⟨_, _, _, hsome, -⟩ := hsame
    · cases hb : executeStep env b (.start s.store) with
      | error e' => exact .inl ⟨⟨e, rfl⟩, e', rfl⟩
      | ok r' =>
        rw [hb] at hnone
        cases hnone
    · cases hsome
  | ok r =>
    rw [ha] at hsame
    obtain ⟨hnone, -⟩ | ⟨t, t', o, ht, ht', hlookup⟩ := hsame
    · cases hnone
    · cases hb : executeStep env b (.start s.store) with
      | error e' =>
        rw [hb] at ht'
        cases ht'
      | ok r' =>
        rw [hb] at ht'
        obtain ⟨rfl, rfl⟩ := Prod.mk.inj (Option.some.inj ht)
        obtain ⟨rfl, hrecorded⟩ := Prod.mk.inj (Option.some.inj ht')
        obtain ⟨hcompleted, herrors⟩ := Prod.mk.inj hrecorded
        exact .inr ⟨s.extend r, s.extend r', rfl, rfl, hlookup,
          (Multiset.coe_eq_coe.mp hcompleted).symm.append_left s.stepsCompleted,
          (Multiset.coe_eq_coe.mp herrors).symm.append_left s.errors⟩

/-- The effect of a parallel step is that of its steps, and its own. -/
theorem effect_parallel (htype : step.stepType = .parallel) (store : Store H σ) :
    effect env step store =
      (runAll (step.subSteps.map (effect env)) store).map fun result =>
        (result.1, addOwn step result.2) := by
  have htask : step.stepType ≠ .task := by
    rw [htype]
    exact StepType.noConfusion
  have hcondition : step.stepType = .conditional → step.condition ≠ none := by
    rw [htype]
    exact fun hconditional => by cases hconditional
  have hchosen : chosen env step store.context = step.subSteps := by
    unfold chosen
    rw [htype]
  rw [effect_composite htask hcondition, hchosen]

/-- Where the handlers are functions of their arguments, and the outputs of the steps of a parallel
step are pairwise disjoint and disjoint from what the other steps read, the steps can be executed in
any order: both orders raise, or both leave the same context and record the same completed steps and
the same errors, up to their order. -/
theorem parallel_comm (hpure : PureHandlers env) (htype : step.stepType = .parallel)
    (hdisjoint : step.subSteps.Pairwise DisjointSteps) {permuted : List YAMLWorkflowStep}
    (hperm : permuted.Perm step.subSteps) (s : RunState H σ) :
    ((∃ e, executeStep env step s = .error e) ∧
      ∃ e, executeStep env { step with subSteps := permuted } s = .error e) ∨
    ∃ t t', executeStep env step s = .ok t ∧
      executeStep env { step with subSteps := permuted } s = .ok t' ∧
      (∀ key, t.store.context.get? key = t'.store.context.get? key) ∧
      t.stepsCompleted.Perm t'.stepsCompleted ∧ t.errors.Perm t'.errors := by
  refine executeStep_of_same s ?_
  have htype' : { step with subSteps := permuted }.stepType = .parallel := htype
  rw [effect_parallel htype, effect_parallel htype']
  exact (same_of_perm hpure hperm.symm hdisjoint s.store).mapOutput (addOwn step)

/-- Handlers that return themselves. -/
def constant : Environment Value Unit where
  conv := ⟨fun _ => none, fun _ => none, fun _ => .ok ""⟩
  call h _ world := (.returned h, world)
  truthy _ := true
  differs _ _ := true

/-- A task with one output. -/
def assign (agent output : String) : YAMLWorkflowStep where
  name := output
  stepType := .task
  agent := .str agent
  outputs := [output]

/-- A parallel step with two tasks. -/
def assignBoth : YAMLWorkflowStep where
  name := "p"
  stepType := .parallel
  subSteps := [assign "a" "x", assign "b" "y"]

/-- A run on a context with two handlers. -/
def twoHandlers : RunState Value Unit :=
  .start ⟨.ofList [("a", .handler (.int 1)), ("b", .handler (.int 2))], ()⟩

/-- The two tasks can change places. -/
theorem parallel_comm_assignBoth :
    ∃ t t', executeStep constant assignBoth twoHandlers = .ok t ∧
      executeStep constant { assignBoth with subSteps := [assign "b" "y", assign "a" "x"] }
        twoHandlers = .ok t' ∧
      (∀ key, t.store.context.get? key = t'.store.context.get? key) ∧
      t.stepsCompleted.Perm t'.stepsCompleted ∧ t.errors.Perm t'.errors := by
  have hpure : PureHandlers constant := ⟨fun h _ => .returned h, fun _ _ _ => rfl⟩
  have hwrites : ∀ agent output key, Writes (assign agent output) key ↔ key = output :=
    fun agent output key => (writes_task_iff rfl).trans List.mem_singleton
  have hreads : ∀ agent output key, Reads (assign agent output) key ↔ agent = key := by
    intro agent output key
    rw [reads_task_iff rfl]
    exact (or_iff_left List.not_mem_nil).trans (Value.str.injEq agent key).to_iff
  have hdisjoint : assignBoth.subSteps.Pairwise DisjointSteps := by
    refine List.pairwise_pair.mpr ⟨fun key => ?_, fun key => ?_, fun key => ?_⟩
    · rw [hwrites, hwrites]
      rintro rfl
      decide
    · rw [hwrites, hreads]
      rintro rfl
      decide
    · rw [hwrites, hreads]
      rintro rfl
      decide
  refine (parallel_comm hpure rfl hdisjoint (.swap _ _ _) twoHandlers).resolve_left ?_
  rintro ⟨⟨e, he⟩, -⟩
  cases he

end YAMLWorkflow

end MeshRouter.Workflows
