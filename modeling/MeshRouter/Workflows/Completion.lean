import MeshRouter.Workflows.ExecutedTasks

/-!
# Which composite steps are listed as completed

A parallel step collects the errors of its steps in a list of its own, and is completed if the list
is empty. A conditional step executes its branch on the lists of the run, and is listed as completed
afterwards in any case. Its name tells that nothing beneath it failed only if nothing did
(`truthful_conditional_iff`), where that of a parallel step always tells it (`truthful_parallel`).
-/

namespace MeshRouter.Workflows

open Lib

namespace YAMLWorkflow

section Executions

variable {H σ : Type} {env : Environment H σ} {step sub : YAMLWorkflowStep}
  {steps : List YAMLWorkflowStep} {s u : RunState H σ}

/-- The run with which a composite step executes the steps that it has chosen: a parallel step has
lists of its own, and a conditional step shares those of the run. -/
def entered (step : YAMLWorkflowStep) (s : RunState H σ) : RunState H σ :=
  if step.stepType = .conditional then s else .start s.store

/-- While a step is executed from a run, a step is executed from a run. -/
inductive Executes (env : Environment H σ) :
    YAMLWorkflowStep → RunState H σ → YAMLWorkflowStep → RunState H σ → Prop where
  | self (step : YAMLWorkflowStep) (s : RunState H σ) : Executes env step s step s
  | beneath {step first sub : YAMLWorkflowStep} {before after : List YAMLWorkflowStep}
      {s t u : RunState H σ}
      (hchosen : chosen env step s.store.context = before ++ first :: after)
      (hbefore : executeSteps env before (entered step s) = .ok t)
      (hfirst : Executes env first t sub u) : Executes env step s sub u

/-- While the steps of a list are executed from a run, a step is executed from a run. -/
def ExecutesIn (env : Environment H σ) (steps : List YAMLWorkflowStep) (s : RunState H σ)
    (sub : YAMLWorkflowStep) (u : RunState H σ) : Prop :=
  ∃ before first after t, steps = before ++ first :: after ∧
    executeSteps env before s = .ok t ∧ Executes env first t sub u

/-- The execution of a composite step from a run adds the name of the step, after what the steps
beneath it add, exactly if none of them recorded an error. -/
def Truthful (env : Environment H σ) (step : YAMLWorkflowStep) (u : RunState H σ) : Prop :=
  ∀ u', executeStep env step u = .ok u' →
    ∃ beneath, executeSteps env (chosen env step u.store.context) (.start u.store) = .ok beneath ∧
      u'.stepsCompleted = u.stepsCompleted ++ beneath.stepsCompleted ++
        if beneath.errors = [] then [step.name] else []

/-- The tasks that are executed beneath a step. -/
def tasksBeneath (env : Environment H σ) (step : YAMLWorkflowStep) (store : Store H σ) :
    List (StartedTask H σ) :=
  (walkSteps env (chosen env step store.context) store).1

/-- What is executed in a step is beneath it, and has its conditions too. -/
theorem Executes.conditioned (h : Executes env step s sub u) (hstep : Conditioned step) :
    Conditioned sub := by
  induction h with
  | self => exact hstep
  | @beneath step first sub before after s t u hchosen hbefore hfirst ih =>
    have hmem : first ∈ chosen env step s.store.context := by
      rw [hchosen]
      exact List.mem_append_right before List.mem_cons_self
    exact ih (hstep.nested (nested_of_chosen hmem))

theorem ExecutesIn.conditioned (h : ExecutesIn env steps s sub u)
    (hsteps : ∀ step ∈ steps, Conditioned step) : Conditioned sub := by
  obtain ⟨before, first, after, t, rfl, -, hfirst⟩ := h
  exact hfirst.conditioned (hsteps first (List.mem_append_right before List.mem_cons_self))

/-- A composite step is truthful if it adds its own name where it should. -/
theorem truthful_iff (htype : step.stepType ≠ .task)
    (hcondition : step.stepType = .conditional → step.condition ≠ none) :
    Truthful env step u ↔
      ∀ beneath, executeSteps env (chosen env step u.store.context) (.start u.store) = .ok beneath →
        ownName step beneath = if beneath.errors = [] then [step.name] else [] := by
  unfold Truthful
  rw [executeStep_composite htype hcondition]
  cases executeSteps env (chosen env step u.store.context) (.start u.store) with
  | error e => exact iff_of_true (fun u' h => by cases h) (fun beneath h => by cases h)
  | ok beneath =>
    constructor
    · intro h beneath' heq
      obtain rfl := Except.ok.inj heq
      obtain ⟨_, heq', hcompleted⟩ := h _ rfl
      obtain rfl := Except.ok.inj heq'
      exact List.append_cancel_left hcompleted
    · intro h u' heq
      obtain rfl := Except.ok.inj heq
      refine ⟨beneath, rfl, ?_⟩
      dsimp only
      rw [h beneath rfl]

/-- A parallel step is truthful. -/
theorem truthful_parallel (htype : step.stepType = .parallel) (u : RunState H σ) :
    Truthful env step u := by
  have hnotConditional : step.stepType ≠ .conditional := by
    rw [htype]
    exact StepType.noConfusion
  rw [truthful_iff (by rw [htype]; exact StepType.noConfusion)
    fun hconditional => absurd hconditional hnotConditional]
  intro beneath _
  unfold ownName
  simp only [hnotConditional, false_or]

/-- A conditional step is truthful if every task beneath it succeeds, or the step is not executed to
its end. -/
theorem truthful_conditional_iff (htype : step.stepType = .conditional)
    (hconditioned : Conditioned step) :
    Truthful env step u ↔
      ((∀ task ∈ tasksBeneath env step u.store, ¬ Uncaught env task.1 task.2) →
        ∀ task ∈ tasksBeneath env step u.store, Succeeds env task.1 task.2) := by
  rw [truthful_iff (by rw [htype]; exact StepType.noConfusion) hconditioned.condition]
  have hsubs : ∀ sub ∈ chosen env step u.store.context, Conditioned sub :=
    fun sub hsub => hconditioned.nested (nested_of_chosen hsub)
  have hagrees : Agrees env _ _ := agrees_executeSteps hsubs u.store
  have hown : ∀ beneath : RunState H σ, ownName step beneath = [step.name] :=
    fun beneath => if_pos (.inl htype)
  obtain ⟨hcaught, r, hrun, hr⟩ | ⟨⟨task, htask, huncaught⟩, e, hrun⟩ := hagrees
  · have htruthful : (∀ beneath, executeSteps env (chosen env step u.store.context)
        (.start u.store) = .ok beneath →
        ownName step beneath = if beneath.errors = [] then [step.name] else []) ↔
        r.errors = [] := by
      rw [hrun]
      constructor
      · intro h
        have hname := h r rfl
        rw [hown] at hname
        by_contra herrors
        rw [if_neg herrors] at hname
        cases hname
      · intro herrors beneath heq
        obtain rfl := Except.ok.inj heq
        rw [hown, if_pos herrors]
    rw [htruthful, hr.errors, filterMap_report_eq_nil_iff hcaught]
    exact ⟨fun hall _ => hall, fun hall => hall hcaught⟩
  · refine iff_of_true ?_ fun hcaught => absurd huncaught (hcaught task htask)
    intro beneath hok
    cases hrun.symm.trans hok

/-- In every run of a workflow that was read from a document, in every context: each parallel or
conditional step that is executed is listed as completed exactly if no step beneath it recorded an
error, if and only if under each conditional step that is executed to its end every task succeeds.
-/
theorem completion_truthful_iff {document : Value} {name : String}
    (hparse : parseWorkflowDocument env.conv document = .ok (name, steps)) (context : Context H)
    (world : σ) :
    (∀ step u, ExecutesIn env steps (.start ⟨context, world⟩) step u → step.stepType ≠ .task →
      Truthful env step u) ↔
    ∀ step u, ExecutesIn env steps (.start ⟨context, world⟩) step u →
      step.stepType = .conditional →
      (∀ task ∈ tasksBeneath env step u.store, ¬ Uncaught env task.1 task.2) →
        ∀ task ∈ tasksBeneath env step u.store, Succeeds env task.1 task.2 := by
  have hconditioned := conditioned_of_parseWorkflowDocument hparse
  constructor
  · intro htruthful step u hin htype
    refine (truthful_conditional_iff htype (hin.conditioned hconditioned)).mp ?_
    exact htruthful step u hin (by rw [htype]; exact StepType.noConfusion)
  · intro hsucceeds step u hin htype
    cases hkind : step.stepType with
    | task => exact absurd hkind htype
    | parallel => exact truthful_parallel hkind u
    | conditional =>
      exact (truthful_conditional_iff hkind (hin.conditioned hconditioned)).mpr
        (hsucceeds step u hin hkind)

end Executions

/-- A document with one conditional step, which has one task as its `else_steps`. -/
def oneBranch (agent : Value) : Value :=
  .dict [("name", .str "w"), ("steps", .list [.dict [("name", .str "b"),
    ("type", .str "conditional"), ("condition", .str "c"), ("else_steps", .list [
      .dict [("name", .str "s"), ("type", .str "task"), ("agent", agent)]])]])]

/-- The step that is read from it. -/
def branchStep (agent : Value) : YAMLWorkflowStep where
  name := "b"
  stepType := .conditional
  condition := some "c"
  elseSteps := [taskStep agent]

theorem parseWorkflowDocument_oneBranch (conv : TextConversions) (agent : Value) :
    parseWorkflowDocument conv (oneBranch agent) = .ok ("w", [branchStep agent]) := rfl

/-- A context with one handler. -/
def oneHandler : Context Unit := Dict.empty.set "a" (.handler ())

/-- A list with one element splits only at that element. -/
theorem split_singleton {α : Type} {a b : α} {before after : List α}
    (h : [a] = before ++ b :: after) : before = [] ∧ a = b ∧ after = [] := by
  rcases List.singleton_eq_append_iff.mp h with ⟨rfl, htail⟩ | ⟨-, htail⟩
  · obtain ⟨rfl, rfl⟩ := List.cons.inj htail
    exact ⟨rfl, rfl, rfl⟩
  · cases htail

/-- Where the task of the branch succeeds, the conditional step is truthful. -/
theorem completion_truthful_iff_oneHandler :
    Truthful silent (branchStep (.str "a")) (.start ⟨oneHandler, ()⟩) := by
  refine (completion_truthful_iff (parseWorkflowDocument_oneBranch silent.conv (.str "a"))
    oneHandler ()).mpr ?_ _ _ ⟨[], _, [], _, rfl, rfl, .self _ _⟩ StepType.noConfusion
  intro step u hin htype hcaught task htask
  obtain ⟨before, first, after, t, hsplit, hbefore, hfirst⟩ := hin
  obtain ⟨rfl, rfl, rfl⟩ := split_singleton hsplit
  obtain rfl := Except.ok.inj hbefore
  cases hfirst with
  | self =>
    obtain rfl := List.mem_singleton.mp htask
    exact ⟨(), .none, (), rfl, rfl⟩
  | beneath hchosen hbefore hfirst =>
    -- Beneath is the task alone.
    obtain ⟨rfl, rfl, rfl⟩ := split_singleton hchosen
    cases hfirst with
    | self => cases htype
    | beneath hchosen hbefore hfirst => simp [chosen, taskStep] at hchosen

/-- A task without an agent fails, and the conditional step above it is listed as completed. -/
theorem failedBranch_completed :
    (∀ conv, parseWorkflowDocument conv (oneBranch .none) = .ok ("w", [branchStep .none])) ∧
    executeSteps silent [branchStep .none] (.start ⟨.empty, ()⟩) =
      .ok { store := ⟨.empty, ()⟩, stepsCompleted := ["b"], errors := [("s", .agentMissing)] } ∧
    ¬ ∀ (env : Environment Unit Unit) document name steps,
      parseWorkflowDocument env.conv document = .ok (name, steps) →
        ∀ context world step u, ExecutesIn env steps (.start ⟨context, world⟩) step u →
          step.stepType ≠ .task → Truthful env step u := by
  have hparse := fun conv => parseWorkflowDocument_oneBranch conv .none
  have hrun : executeSteps silent [branchStep .none] (.start ⟨.empty, ()⟩) =
      .ok { store := ⟨.empty, ()⟩, stepsCompleted := ["b"], errors := [("s", .agentMissing)] } :=
    rfl
  refine ⟨hparse, hrun, fun htruthful => ?_⟩
  have hin : ExecutesIn silent [branchStep .none] (.start ⟨.empty, ()⟩) (branchStep .none)
      (.start ⟨.empty, ()⟩) := ⟨[], _, [], _, rfl, rfl, .self _ _⟩
  obtain ⟨beneath, hbeneath, hcompleted⟩ :=
    htruthful silent _ _ _ (hparse silent.conv) .empty () _ _ hin StepType.noConfusion _ rfl
  obtain rfl := Except.ok.inj hbeneath
  cases hcompleted

end YAMLWorkflow

end MeshRouter.Workflows
