import MeshRouter.Workflows.Execution

/-!
# What the execution of a step comes to

A task completes, fails or raises something that is not caught, and which of the three is decided by
what is under its agent and by the call of the handler (`runTask_cases`). The execution of a step
only appends to the lists of a run, so that it is known from the run that starts with empty lists
(`executeStep_extend`). A parallel step and a conditional step then do the same: they execute the
steps that they have chosen, and append a name (`executeStep_composite`). They differ in when the
name is appended (`ownName`).
-/

namespace MeshRouter.Workflows

open Lib

namespace YAMLWorkflowStep

/-- The steps that a step may execute: those of a parallel step, and those of the two branches of a
conditional one. -/
def nested (step : YAMLWorkflowStep) : List YAMLWorkflowStep :=
  match step.stepType with
  | .task => []
  | .parallel => step.subSteps
  | .conditional => step.ifSteps ++ step.elseSteps

/-- A step is more than each step beneath it. -/
theorem sizeOf_lt_of_nested {step sub : YAMLWorkflowStep} (h : sub ∈ step.nested) :
    sizeOf sub < sizeOf step := by
  obtain ⟨name, stepType, agent, inputs, outputs, condition, ifSteps, elseSteps, subSteps⟩ := step
  have hspec := YAMLWorkflowStep.mk.sizeOf_spec name stepType agent inputs outputs condition
    ifSteps elseSteps subSteps
  have hlt : ∀ {steps}, sub ∈ steps → sizeOf sub < sizeOf steps := List.sizeOf_lt_of_mem
  unfold nested at h
  cases stepType with
  | task => cases h
  | parallel =>
    have hsub := hlt h
    dsimp only at hsub
    omega
  | conditional =>
    rcases List.mem_append.mp h with h | h
    · have hsub := hlt h
      dsimp only at hsub
      omega
    · have hsub := hlt h
      dsimp only at hsub
      omega

/-- What holds of a step if it holds of the steps beneath it, holds of every step. -/
theorem nestedInduction {P : YAMLWorkflowStep → Prop}
    (h : ∀ step, (∀ sub ∈ step.nested, P sub) → P step) (step : YAMLWorkflowStep) : P step := by
  induction hsize : sizeOf step using Nat.strong_induction_on generalizing step with
  | _ n ih =>
    subst hsize
    exact h step fun sub hsub => ih _ (sizeOf_lt_of_nested hsub) sub rfl

end YAMLWorkflowStep

namespace YAMLWorkflow

variable {H σ : Type} {env : Environment H σ} {step : YAMLWorkflowStep} {store : Store H σ}

/-! ## Tasks -/

/-- What is under an agent, if it is a handler. -/
def handlerOf (context : Context H) : Value → Option H
  | .str key =>
    match context.get? key with
    | some (.handler h) => some h
    | _ => none
  | _ => none

/-- A task completes: it has a handler, and the handler returns. -/
def Succeeds (env : Environment H σ) (step : YAMLWorkflowStep) (store : Store H σ) : Prop :=
  ∃ h result world, handlerOf store.context step.agent = some h ∧
    env.call h (resolveInputs step.inputs store.context) store.world = (.returned result, world)

/-- Something is raised in a task outside what is caught: the agent cannot be a key, or it is to be
named in an error and cannot be written as a text, or the handler raises an exception that cannot
be. -/
def Uncaught (env : Environment H σ) (step : YAMLWorkflowStep) (store : Store H σ) : Prop :=
  step.agent.hashable = false ∨
  (step.agent ≠ .none ∧ handlerOf store.context step.agent = none ∧
    ∃ e, step.agent.toStr env.conv = .error e) ∨
  ∃ h e world, handlerOf store.context step.agent = some h ∧
    env.call h (resolveInputs step.inputs store.context) store.world = (.raised (.error e), world)

/-- A handler is found under an agent that is a text. -/
theorem lookupAgent_of_handlerOf {context : Context H} {agent : Value} {h : H}
    (hh : handlerOf context agent = some h) :
    agent.hashable = true ∧ lookupAgent context agent = .ok (some (.handler h)) := by
  unfold handlerOf at hh
  cases agent with
  | str key =>
    refine ⟨rfl, ?_⟩
    unfold lookupAgent
    dsimp only at hh ⊢
    cases hget : context.get? key with
    | none =>
      rw [hget] at hh
      cases hh
    | some found =>
      rw [hget] at hh
      cases found with
      | value v => cases hh
      | handler h' => rw [Option.some.inj hh]
  | _ => cases hh

/-- Without a handler nothing or a value is found, under an agent that can be a key. -/
theorem lookupAgent_of_no_handler {context : Context H} {agent : Value}
    (hkey : agent.hashable = true) (hh : handlerOf context agent = none) :
    ∃ found, lookupAgent context agent = .ok found ∧ ∀ h, found ≠ some (.handler h) := by
  cases agent with
  | str key =>
    refine ⟨context.get? key, rfl, fun h hget => ?_⟩
    unfold handlerOf at hh
    dsimp only at hh
    rw [hget] at hh
    cases hh
  | list xs => cases hkey
  | dict entries => cases hkey
  | _ => exact ⟨none, rfl, fun h hnone => by cases hnone⟩

/-- A task that finds a handler does what the call comes to. -/
theorem runTask_of_found {h : H}
    (hlookup : lookupAgent store.context step.agent = .ok (some (.handler h))) :
    runTask env step store =
      match env.call h (resolveInputs step.inputs store.context) store.world with
      | (.raised text, world) =>
        text.map fun text => (some (.handlerRaised text), { store with world := world })
      | (.returned result, world) =>
        .ok (none, { context := mergeOutputs step.outputs result store.context, world := world })
      := by
  have hnone : step.agent ≠ .none := by
    intro hnone
    rw [hnone] at hlookup
    cases hlookup
  unfold runTask
  rw [if_neg hnone, hlookup]
  dsimp only [bind, Except.bind]
  rcases env.call h (resolveInputs step.inputs store.context) store.world with
    ⟨result | text, world⟩
  · rfl
  · cases text <;> rfl

/-- Why a task that finds no handler fails. -/
def notCalled : Option (ContextValue H) → String → StepFailure
  | none | some (.value .none) => .agentNotFound
  | _ => .agentNotCallable

/-- A task that finds no handler names its agent in an error. -/
theorem runTask_of_not_found (env : Environment H σ) (hnone : step.agent ≠ .none)
    {found : Option (ContextValue H)} (hlookup : lookupAgent store.context step.agent = .ok found)
    (hfound : ∀ h, found ≠ some (.handler h)) :
    runTask env step store =
      (step.agent.toStr env.conv).map fun agent => (some (notCalled found agent), store) := by
  unfold runTask
  rw [if_neg hnone, hlookup]
  dsimp only [bind, Except.bind]
  rcases found with _ | (v | h)
  · cases step.agent.toStr env.conv <;> rfl
  · cases v <;> cases step.agent.toStr env.conv <;> rfl
  · exact absurd rfl (hfound h)

/-- A task whose agent cannot be a key raises. -/
theorem runTask_of_not_hashable (hagent : step.agent.hashable = false) :
    runTask env step store = .error .typeError := by
  unfold runTask lookupAgent
  cases h : step.agent with
  | list xs => rfl
  | dict entries => rfl
  | _ =>
    rw [h] at hagent
    cases hagent

/-- A task completes, raises or fails. -/
theorem runTask_cases (env : Environment H σ) (step : YAMLWorkflowStep) (store : Store H σ) :
    (Succeeds env step store ∧ ¬ Uncaught env step store ∧
      ∃ store', runTask env step store = .ok (none, store')) ∨
    (¬ Succeeds env step store ∧ Uncaught env step store ∧ ∃ e, runTask env step store = .error e) ∨
    (¬ Succeeds env step store ∧ ¬ Uncaught env step store ∧
      ∃ failure store', runTask env step store = .ok (some failure, store')) := by
  unfold Succeeds Uncaught
  cases hh : handlerOf store.context step.agent with
  | some h =>
    obtain ⟨hkey, hlookup⟩ := lookupAgent_of_handlerOf hh
    rw [runTask_of_found hlookup]
    rcases hcall : env.call h (resolveInputs step.inputs store.context) store.world with
      ⟨result | text, world⟩
    · exact .inl ⟨⟨h, result, world, rfl, hcall⟩, by simp [hkey, hcall], _, rfl⟩
    · cases text with
      | error e =>
        exact .inr (.inl ⟨by simp [hcall], .inr (.inr ⟨h, e, world, rfl, hcall⟩), e, rfl⟩)
      | ok text =>
        exact .inr (.inr ⟨by simp [hcall], by simp [hkey, hcall], _, _, rfl⟩)
  | none =>
    have hno : ¬ ∃ h result world, (none : Option H) = some h ∧
        env.call h (resolveInputs step.inputs store.context) store.world =
          (.returned result, world) := by
      simp
    by_cases hkey : step.agent.hashable = true
    · by_cases hnone : step.agent = .none
      · refine .inr (.inr ⟨hno, by simp [hnone, Value.hashable], .agentMissing, store, ?_⟩)
        unfold runTask
        rw [if_pos hnone]
      · obtain ⟨found, hlookup, hfound⟩ := lookupAgent_of_no_handler hkey hh
        rw [runTask_of_not_found env hnone hlookup hfound]
        cases htext : step.agent.toStr env.conv with
        | ok text => exact .inr (.inr ⟨hno, by simp [hkey], notCalled found text, store, rfl⟩)
        | error e => exact .inr (.inl ⟨hno, .inr (.inl ⟨hnone, rfl, e, rfl⟩), e, rfl⟩)
    · have hkey := Bool.eq_false_iff.mpr hkey
      exact .inr (.inl ⟨hno, .inl hkey, .typeError, runTask_of_not_hashable hkey⟩)

/-! ## Runs -/

/-- The run that starts with a store and empty lists. -/
abbrev RunState.start (store : Store H σ) : RunState H σ := { store := store }

/-- A run that goes on with another one. -/
def RunState.extend (s r : RunState H σ) : RunState H σ where
  store := r.store
  stepsCompleted := s.stepsCompleted ++ r.stepsCompleted
  errors := s.errors ++ r.errors

@[simp]
theorem RunState.extend_store (s r : RunState H σ) : (s.extend r).store = r.store := rfl

@[simp]
theorem RunState.extend_errors (s r : RunState H σ) : (s.extend r).errors = s.errors ++ r.errors :=
  rfl

@[simp]
theorem RunState.extend_stepsCompleted (s r : RunState H σ) :
    (s.extend r).stepsCompleted = s.stepsCompleted ++ r.stepsCompleted := rfl

/-- A run goes on from its own store. -/
theorem RunState.extend_start (s : RunState H σ) : s.extend (.start s.store) = s := by
  unfold extend
  simp

/-- The steps that a step executes: those of a parallel step, and the branch of a conditional one
that its condition selects. -/
def chosen (env : Environment H σ) (step : YAMLWorkflowStep) (context : Context H) :
    List YAMLWorkflowStep :=
  match step.stepType with
  | .task => []
  | .parallel => step.subSteps
  | .conditional =>
    match step.condition with
    | none => []
    | some condition =>
      if isTruthy env (resolveDotPath context condition) then step.ifSteps else step.elseSteps

/-- What is chosen is beneath the step. -/
theorem nested_of_chosen {context : Context H} {sub : YAMLWorkflowStep}
    (h : sub ∈ chosen env step context) : sub ∈ step.nested := by
  unfold chosen at h
  unfold YAMLWorkflowStep.nested
  cases htype : step.stepType with
  | task =>
    rw [htype] at h
    cases h
  | parallel =>
    rw [htype] at h
    exact h
  | conditional =>
    rw [htype] at h
    rw [List.mem_append]
    cases hcondition : step.condition with
    | none =>
      rw [hcondition] at h
      cases h
    | some condition =>
      rw [hcondition] at h
      dsimp only at h
      split_ifs at h with htruthy
      · exact .inl h
      · exact .inr h

theorem executeStep_task (htype : step.stepType = .task) (s : RunState H σ) :
    executeStep env step s = executeTask env step s := by
  obtain ⟨name, stepType, agent, inputs, outputs, condition, ifSteps, elseSteps, subSteps⟩ := step
  obtain rfl : stepType = .task := htype
  rw [executeStep]

theorem executeStep_parallel (htype : step.stepType = .parallel) (s : RunState H σ) :
    executeStep env step s =
      (executeSteps env step.subSteps (.start s.store)).map fun sub => {
        store := sub.store
        stepsCompleted :=
          if sub.errors = [] then s.stepsCompleted ++ sub.stepsCompleted ++ [step.name]
          else s.stepsCompleted ++ sub.stepsCompleted
        errors := s.errors ++ sub.errors } := by
  obtain ⟨name, stepType, agent, inputs, outputs, condition, ifSteps, elseSteps, subSteps⟩ := step
  obtain rfl : stepType = .parallel := htype
  rw [executeStep]
  rfl

theorem executeStep_conditional {condition : String} (htype : step.stepType = .conditional)
    (hcondition : step.condition = some condition) (s : RunState H σ) :
    executeStep env step s =
      (executeSteps env (chosen env step s.store.context) s).map fun s' =>
        { s' with stepsCompleted := s'.stepsCompleted ++ [step.name] } := by
  obtain ⟨name, stepType, agent, inputs, outputs, cond, ifSteps, elseSteps, subSteps⟩ := step
  obtain rfl : stepType = .conditional := htype
  obtain rfl : cond = some condition := hcondition
  rw [executeStep]
  unfold chosen
  dsimp only
  split_ifs with htruthy
  · rfl
  · rfl

theorem executeStep_noCondition (htype : step.stepType = .conditional)
    (hcondition : step.condition = none) (s : RunState H σ) :
    executeStep env step s =
      .ok { s with errors := s.errors ++ [(step.name, .conditionMissing)] } := by
  obtain ⟨name, stepType, agent, inputs, outputs, cond, ifSteps, elseSteps, subSteps⟩ := step
  obtain rfl : stepType = .conditional := htype
  obtain rfl : cond = none := hcondition
  rw [executeStep]

theorem executeSteps_cons (step : YAMLWorkflowStep) (steps : List YAMLWorkflowStep)
    (s : RunState H σ) :
    executeSteps env (step :: steps) s = executeStep env step s >>= executeSteps env steps := by
  rw [executeSteps]

/-- The steps of a list only append to the lists of a run if each of them does. -/
theorem executeSteps_extend_of {steps : List YAMLWorkflowStep}
    (h : ∀ step ∈ steps, ∀ s r : RunState H σ,
      executeStep env step (s.extend r) = (executeStep env step r).map s.extend)
    (s r : RunState H σ) :
    executeSteps env steps (s.extend r) = (executeSteps env steps r).map s.extend := by
  induction steps generalizing r with
  | nil => rfl
  | cons step steps ih =>
    obtain ⟨hstep, hsteps⟩ := List.forall_mem_cons.mp h
    rw [executeSteps_cons, executeSteps_cons, hstep]
    cases hrun : executeStep env step r with
    | error e => rfl
    | ok r' => exact ih hsteps r'

/-- A step only appends to the lists of a run. -/
theorem executeStep_extend (env : Environment H σ) (step : YAMLWorkflowStep) (s r : RunState H σ) :
    executeStep env step (s.extend r) = (executeStep env step r).map s.extend := by
  induction step using YAMLWorkflowStep.nestedInduction generalizing s r with
  | h step ih =>
    cases htype : step.stepType with
    | task =>
      rw [executeStep_task htype, executeStep_task htype]
      unfold executeTask
      rw [RunState.extend_store]
      rcases runTask env step r.store with e | ⟨failure | _, store⟩
      · rfl
      · simp [Except.map, RunState.extend]
      · simp [Except.map, RunState.extend]
    | parallel =>
      rw [executeStep_parallel htype, executeStep_parallel htype, RunState.extend_store]
      cases executeSteps env step.subSteps (.start r.store) with
      | error e => rfl
      | ok sub =>
        dsimp only [Except.map, RunState.extend]
        split_ifs <;> simp
    | conditional =>
      cases hcondition : step.condition with
      | none =>
        rw [executeStep_noCondition htype hcondition, executeStep_noCondition htype hcondition]
        simp [Except.map, RunState.extend]
      | some condition =>
        rw [executeStep_conditional htype hcondition, executeStep_conditional htype hcondition,
          RunState.extend_store]
        have hchosen : ∀ sub ∈ chosen env step r.store.context, ∀ s r : RunState H σ,
            executeStep env sub (s.extend r) = (executeStep env sub r).map s.extend :=
          fun sub hsub => ih sub (nested_of_chosen hsub)
        rw [executeSteps_extend_of hchosen]
        cases executeSteps env (chosen env step r.store.context) r with
        | error e => rfl
        | ok s' => simp [Except.map, RunState.extend]

/-- The steps of a list only append to the lists of a run. -/
theorem executeSteps_extend (env : Environment H σ) (steps : List YAMLWorkflowStep)
    (s r : RunState H σ) :
    executeSteps env steps (s.extend r) = (executeSteps env steps r).map s.extend :=
  executeSteps_extend_of (fun step _ => executeStep_extend env step) s r

/-- What a step does to a run is what it does to one with empty lists. -/
theorem executeStep_eq (env : Environment H σ) (step : YAMLWorkflowStep) (s : RunState H σ) :
    executeStep env step s = (executeStep env step (.start s.store)).map s.extend := by
  rw [← executeStep_extend, RunState.extend_start]

theorem executeSteps_eq (env : Environment H σ) (steps : List YAMLWorkflowStep)
    (s : RunState H σ) :
    executeSteps env steps s = (executeSteps env steps (.start s.store)).map s.extend := by
  rw [← executeSteps_extend, RunState.extend_start]

/-- The own name of a composite step, if it is added: a parallel step asks for no errors beneath it,
and a conditional one does not. -/
def ownName (step : YAMLWorkflowStep) (beneath : RunState H σ) : List String :=
  if step.stepType = .conditional ∨ beneath.errors = [] then [step.name] else []

/-- A composite step executes what it has chosen, and then adds its own name. -/
theorem executeStep_composite (htype : step.stepType ≠ .task)
    (hcondition : step.stepType = .conditional → step.condition ≠ none) (s : RunState H σ) :
    executeStep env step s =
      (executeSteps env (chosen env step s.store.context) (.start s.store)).map fun beneath => {
        store := beneath.store
        stepsCompleted := s.stepsCompleted ++ beneath.stepsCompleted ++ ownName step beneath
        errors := s.errors ++ beneath.errors } := by
  cases hkind : step.stepType with
  | task => exact absurd hkind htype
  | parallel =>
    have hchosen : chosen env step s.store.context = step.subSteps := by
      unfold chosen
      rw [hkind]
    rw [executeStep_parallel hkind, hchosen]
    cases executeSteps env step.subSteps (.start s.store) with
    | error e => rfl
    | ok beneath =>
      dsimp only [Except.map, ownName]
      rw [hkind]
      split_ifs with herrors hown hown
      · rfl
      · exact absurd (.inr herrors) hown
      · rcases hown with hown | hown
        · cases hown
        · exact absurd hown herrors
      · rw [List.append_nil]
  | conditional =>
    obtain ⟨condition, hsome⟩ := Option.ne_none_iff_exists'.mp (hcondition hkind)
    rw [executeStep_conditional hkind hsome, executeSteps_eq]
    cases executeSteps env (chosen env step s.store.context) (.start s.store) with
    | error e => rfl
    | ok beneath =>
      dsimp only [Except.map, ownName, RunState.extend]
      rw [if_pos (.inl hkind)]

end YAMLWorkflow

end MeshRouter.Workflows
