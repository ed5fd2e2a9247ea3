import MeshRouter.Workflows.DocumentChecks
import MeshRouter.Workflows.StepRuns

/-!
# The tasks of a run

`walkSteps` goes through the tasks that the steps execute, each with the store that it starts with,
as if nothing were raised: a parallel step goes on to all of its steps, a conditional step to the
branch that it selects, and a task that fails keeps no other from its turn. If no task on the walk
raises something that is not caught, then the execution returns, and it reports the failures of the
tasks in the order of the walk; otherwise it raises (`agrees_executeSteps`).

A conditional step without a condition would report an error of its own. No document has one:
the condition is a required field (`conditioned_of_parseStep`). The agent of a task is not checked,
and so a document can make the execution raise (`execute_returns_iff`).
-/

namespace MeshRouter.Workflows

open Lib

/-! ## Conditions of parsed steps -/

/-- Every conditional step, down to any depth, has a condition. -/
inductive Conditioned : YAMLWorkflowStep → Prop where
  | step {step : YAMLWorkflowStep}
      (hcondition : step.stepType = .conditional → step.condition ≠ none)
      (hnested : ∀ sub ∈ step.nested, Conditioned sub) : Conditioned step

theorem Conditioned.condition {step : YAMLWorkflowStep} (h : Conditioned step) :
    step.stepType = .conditional → step.condition ≠ none := by
  cases h with
  | step hcondition hnested => exact hcondition

theorem Conditioned.nested {step sub : YAMLWorkflowStep} (h : Conditioned step)
    (hsub : sub ∈ step.nested) : Conditioned sub := by
  cases h with
  | step hcondition hnested => exact hnested sub hsub

section Parsed

variable {conv : TextConversions} {entries : List (String × Value)}
  {step parsed : YAMLWorkflowStep} {steps : List YAMLWorkflowStep} {stepIndex : ℕ}

/-- Each step of a list was read from one of its elements. -/
theorem mem_parseList {rawSteps : List Value}
    (h : parseList conv rawSteps stepIndex = .ok steps) (hmem : step ∈ steps) :
    ∃ x ∈ rawSteps, ∃ i, parseStep conv x i = .ok step := by
  induction rawSteps generalizing stepIndex steps with
  | nil =>
    obtain rfl := Except.ok.inj h
    cases hmem
  | cons x rawSteps ih =>
    rw [parseList_cons] at h
    obtain ⟨first, hfirst, hrest⟩ := bind_eq_ok.mp h
    obtain ⟨others, hothers, hmade⟩ := bind_eq_ok.mp hrest
    obtain rfl := Except.ok.inj hmade
    rcases List.mem_cons.mp hmem with rfl | hmem
    · exact ⟨x, List.mem_cons_self, stepIndex, hfirst⟩
    · obtain ⟨y, hy, i, hi⟩ := ih hothers hmem
      exact ⟨y, List.mem_cons_of_mem x hy, i, hi⟩

/-- Each step that is read at a key was read from one of the values listed there. -/
theorem mem_parseSteps {key : String}
    (h : parseSteps conv (field (.ofList entries) key (.list [])) = .ok steps)
    (hmem : step ∈ steps) :
    ∃ values, listed entries key = .ok values ∧
      ∃ x ∈ values, ∃ i, parseStep conv x i = .ok step := by
  rw [parseSteps_eq] at h
  obtain ⟨values, hvalues, hlist⟩ := bind_eq_ok.mp h
  exact ⟨values, mapError_eq_ok_iff.mp hvalues, mem_parseList hlist hmem⟩

/-- What is read after the common fields: a conditional step has a condition, and each step beneath
was read from a value listed at some key. -/
theorem parseOwn_spec (h : parseOwn conv (.ofList entries) step = .ok parsed) :
    (parsed.stepType = .conditional → parsed.condition ≠ none) ∧
      ∀ sub ∈ parsed.nested, ∃ key values, listed entries key = .ok values ∧
        ∃ x ∈ values, ∃ i, parseStep conv x i = .ok sub := by
  unfold parseOwn at h
  unfold YAMLWorkflowStep.nested
  cases htype : step.stepType with
  | task =>
    rw [htype] at h
    obtain rfl := Except.ok.inj h
    rw [htype]
    exact ⟨StepType.noConfusion, fun sub hmem => by cases hmem⟩
  | parallel =>
    rw [htype] at h
    dsimp only at h
    cases hfield : field (.ofList entries) "steps" (.list []) with
    | list rawSteps =>
      rw [hfield] at h
      obtain ⟨subSteps, hsubSteps, hmade⟩ := bind_eq_ok.mp h
      obtain rfl := Except.ok.inj hmade
      refine ⟨StepType.noConfusion, fun sub hmem => ?_⟩
      refine ⟨"steps", rawSteps, ?_, mem_parseList hsubSteps hmem⟩
      unfold listed
      rw [hfield]
      rfl
    | _ =>
      rw [hfield] at h
      cases h
  | conditional =>
    rw [htype] at h
    obtain ⟨condition, -, hrest⟩ := bind_eq_ok.mp h
    obtain ⟨ifSteps, hifSteps, hrest⟩ := bind_eq_ok.mp hrest
    obtain ⟨elseSteps, helseSteps, hmade⟩ := bind_eq_ok.mp hrest
    obtain rfl := Except.ok.inj hmade
    refine ⟨fun _ => Option.some_ne_none condition, fun sub hmem => ?_⟩
    rcases List.mem_append.mp hmem with hmem | hmem
    · exact ⟨"if_steps", mem_parseSteps hifSteps hmem⟩
    · exact ⟨"else_steps", mem_parseSteps helseSteps hmem⟩

/-- A step that is read has its conditions. -/
theorem conditioned_of_parseStep {x : Value} (h : parseStep conv x stepIndex = .ok parsed) :
    Conditioned parsed := by
  -- The steps beneath are read from smaller values.
  induction hsize : sizeOf x using Nat.strong_induction_on generalizing x stepIndex parsed with
  | _ n ih =>
    subst hsize
    have hmapping : ∀ {y i step}, parseStep conv y i = .ok step → ∃ entries, y = .dict entries := by
      intro y i step hy
      by_contra hnot
      have houtcome : Outcome conv y := outcome_of_not_mapping (not_exists.mp hnot)
      have hwell := (houtcome.returns i).mp ⟨step, hy⟩
      cases hwell with
      | step steps hfields hlisted hsteps => exact hnot ⟨_, rfl⟩
    obtain ⟨entries, rfl⟩ := hmapping h
    rw [parseStep_dict] at h
    obtain ⟨step, -, hown⟩ := bind_eq_ok.mp h
    obtain ⟨hcondition, hbeneath⟩ := parseOwn_spec hown
    refine .step hcondition fun sub hsub => ?_
    obtain ⟨key, values, hlisted, y, hy, i, hi⟩ := hbeneath sub hsub
    obtain ⟨entries', rfl⟩ := hmapping hi
    exact ih _ (sizeOf_lt_of_listed hlisted hy) hi rfl

/-- The steps of a document that is read have their conditions. -/
theorem conditioned_of_parseWorkflowDocument {document : Value} {name : String}
    (h : parseWorkflowDocument conv document = .ok (name, steps)) :
    ∀ step ∈ steps, Conditioned step := by
  intro step hstep
  rcases steps_or_invalid conv document with
    ⟨entries, text, rawSteps, rfl, hname, hsteps⟩ | ⟨e, he⟩
  · rw [parseWorkflowDocument_of_steps hname hsteps] at h
    obtain ⟨parsed, hparsed, hmade⟩ := bind_eq_ok.mp h
    obtain ⟨-, rfl⟩ := Prod.mk.inj (Except.ok.inj hmade)
    obtain ⟨x, -, i, hx⟩ := mem_parseList hparsed hstep
    exact conditioned_of_parseStep hx
  · cases he.symm.trans h

end Parsed

namespace YAMLWorkflow

/-! ## The walk -/

section Walk

variable {H σ : Type}

/-- A task of a run: the step, and the store that it starts with. -/
abbrev StartedTask (H σ : Type) := YAMLWorkflowStep × Store H σ

/-- The store after a task, which is the store before it if the task raises. -/
def afterTask (env : Environment H σ) (task : StartedTask H σ) : Store H σ :=
  match runTask env task.1 task.2 with
  | .ok (_, store) => store
  | .error _ => task.2

/-- The error that a task reports. -/
def report (env : Environment H σ) (task : StartedTask H σ) : Option (String × StepFailure) :=
  match runTask env task.1 task.2 with
  | .ok (failure, _) => failure.map fun failure => (task.1.name, failure)
  | .error _ => none

mutual

/-- The tasks that a step executes, and the store that they leave. -/
def walkStep (env : Environment H σ) :
    YAMLWorkflowStep → Store H σ → List (StartedTask H σ) × Store H σ
  | step@⟨_, stepType, _, _, _, condition, ifSteps, elseSteps, subSteps⟩, store =>
    match stepType with
    | .task => ([(step, store)], afterTask env (step, store))
    | .parallel => walkSteps env subSteps store
    | .conditional =>
      match condition with
      | none => ([], store)
      | some condition =>
        if isTruthy env (resolveDotPath store.context condition) then
          walkSteps env ifSteps store
        else
          walkSteps env elseSteps store

/-- The tasks that the steps of a list execute, and the store that they leave. -/
def walkSteps (env : Environment H σ) :
    List YAMLWorkflowStep → Store H σ → List (StartedTask H σ) × Store H σ
  | [], store => ([], store)
  | step :: steps, store =>
    let first := walkStep env step store
    let rest := walkSteps env steps first.2
    (first.1 ++ rest.1, rest.2)

end

/-- The tasks that a workflow executes in a context. -/
def executedTasks (env : Environment H σ) (steps : List YAMLWorkflowStep) (context : Context H)
    (world : σ) : List (StartedTask H σ) :=
  (walkSteps env steps ⟨context, world⟩).1

variable {env : Environment H σ} {step : YAMLWorkflowStep} {store : Store H σ}

theorem walkStep_task (htype : step.stepType = .task) (store : Store H σ) :
    walkStep env step store = ([(step, store)], afterTask env (step, store)) := by
  obtain ⟨name, stepType, agent, inputs, outputs, condition, ifSteps, elseSteps, subSteps⟩ := step
  obtain rfl : stepType = .task := htype
  rw [walkStep]

/-- A composite step walks through what it has chosen. -/
theorem walkStep_composite (htype : step.stepType ≠ .task) (store : Store H σ) :
    walkStep env step store = walkSteps env (chosen env step store.context) store := by
  obtain ⟨name, stepType, agent, inputs, outputs, condition, ifSteps, elseSteps, subSteps⟩ := step
  unfold chosen
  cases stepType with
  | task => exact absurd rfl htype
  | parallel => rw [walkStep]
  | conditional =>
    cases condition with
    | none =>
      rw [walkStep, walkSteps]
    | some condition =>
      rw [walkStep]
      dsimp only
      split_ifs with htruthy
      · rfl
      · rfl

theorem walkSteps_cons (step : YAMLWorkflowStep) (steps : List YAMLWorkflowStep)
    (store : Store H σ) :
    walkSteps env (step :: steps) store =
      ((walkStep env step store).1 ++ (walkSteps env steps (walkStep env step store).2).1,
        (walkSteps env steps (walkStep env step store).2).2) := by
  rw [walkSteps]

/-- A task reports nothing if it succeeds, or raises. -/
theorem report_eq_none_iff {task : StartedTask H σ} :
    report env task = none ↔ Succeeds env task.1 task.2 ∨ Uncaught env task.1 task.2 := by
  unfold report
  rcases runTask_cases env task.1 task.2 with
    ⟨hsucceeds, -, store', hrun⟩ | ⟨-, huncaught, e, hrun⟩ | ⟨hnot, hno, failure, store', hrun⟩
  · rw [hrun]
    exact iff_of_true rfl (.inl hsucceeds)
  · rw [hrun]
    exact iff_of_true rfl (.inr huncaught)
  · rw [hrun]
    exact iff_of_false (by simp) (not_or.mpr ⟨hnot, hno⟩)

/-- Where nothing is uncaught, nothing is reported if every task succeeds. -/
theorem filterMap_report_eq_nil_iff {tasks : List (StartedTask H σ)}
    (hcaught : ∀ task ∈ tasks, ¬ Uncaught env task.1 task.2) :
    tasks.filterMap (report env) = [] ↔ ∀ task ∈ tasks, Succeeds env task.1 task.2 := by
  rw [List.filterMap_eq_nil_iff]
  refine forall₂_congr fun task htask => ?_
  rw [report_eq_none_iff, or_iff_left (hcaught task htask)]

/-! ## The execution follows the walk -/

/-- A run that starts with empty lists has come to the end of a walk. -/
structure Follows (env : Environment H σ) (walk : List (StartedTask H σ) × Store H σ)
    (r : RunState H σ) : Prop where
  store : r.store = walk.2
  errors : r.errors = walk.1.filterMap (report env)
  stepsCompleted : ∀ task ∈ walk.1, Succeeds env task.1 task.2 → task.1.name ∈ r.stepsCompleted

/-- An execution follows a walk to its end, or raises where a task on it does. -/
def Agrees (env : Environment H σ) (walk : List (StartedTask H σ) × Store H σ)
    (x : Except PyError (RunState H σ)) : Prop :=
  ((∀ task ∈ walk.1, ¬ Uncaught env task.1 task.2) ∧ ∃ r, x = .ok r ∧ Follows env walk r) ∨
  ((∃ task ∈ walk.1, Uncaught env task.1 task.2) ∧ ∃ e, x = .error e)

variable {walk rest : List (StartedTask H σ) × Store H σ} {x : Except PyError (RunState H σ)}

/-- A task is a walk of its own. -/
theorem agrees_executeTask (env : Environment H σ) (step : YAMLWorkflowStep) (store : Store H σ) :
    Agrees env ([(step, store)], afterTask env (step, store))
      (executeTask env step (.start store)) := by
  unfold Agrees
  simp only [List.mem_singleton, forall_eq, exists_eq_left]
  unfold executeTask
  rcases runTask_cases env step store with
    ⟨-, hnot, store', hrun⟩ | ⟨-, huncaught, e, hrun⟩ | ⟨hfails, hnot, failure, store', hrun⟩
  · rw [hrun]
    refine .inl ⟨hnot, _, rfl, ?_, ?_, ?_⟩
    · simp [afterTask, hrun]
    · simp [report, hrun]
    · simp
  · rw [hrun]
    exact .inr ⟨huncaught, e, rfl⟩
  · rw [hrun]
    refine .inl ⟨hnot, _, rfl, ?_, ?_, ?_⟩
    · simp [afterTask, hrun]
    · simp [report, hrun]
    · simp [hfails]

/-- What goes on from the end of a walk follows the longer walk. -/
theorem Agrees.bind {steps : List YAMLWorkflowStep} (h : Agrees env walk x)
    (hrest : Agrees env rest (executeSteps env steps (.start walk.2))) :
    Agrees env (walk.1 ++ rest.1, rest.2) (x >>= executeSteps env steps) := by
  obtain ⟨hcaught, r, rfl, hr⟩ | ⟨⟨task, htask, huncaught⟩, e, rfl⟩ := h
  · have hgo : (.ok r >>= executeSteps env steps) =
        (executeSteps env steps (.start walk.2)).map r.extend := by
      rw [← hr.store]
      exact executeSteps_eq env steps r
    rw [hgo]
    obtain ⟨hcaught', r', hrun, hr'⟩ | ⟨⟨task, htask, huncaught⟩, e, hrun⟩ := hrest
    · rw [hrun]
      refine .inl ⟨List.forall_mem_append.mpr ⟨hcaught, hcaught'⟩, r.extend r', rfl, ?_, ?_, ?_⟩
      · exact hr'.store
      · rw [RunState.extend_errors, hr.errors, hr'.errors, List.filterMap_append]
      · intro task htask hsucceeds
        rw [RunState.extend_stepsCompleted, List.mem_append]
        rcases List.mem_append.mp htask with htask | htask
        · exact .inl (hr.stepsCompleted task htask hsucceeds)
        · exact .inr (hr'.stepsCompleted task htask hsucceeds)
    · rw [hrun]
      exact .inr ⟨⟨task, List.mem_append_right walk.1 htask, huncaught⟩, e, rfl⟩
  · exact .inr ⟨⟨task, List.mem_append_left rest.1 htask, huncaught⟩, e, rfl⟩

/-- What is added to the completed steps at the end of a walk changes nothing. -/
theorem Agrees.map (h : Agrees env walk x) (f : RunState H σ → RunState H σ)
    (hstore : ∀ r, (f r).store = r.store) (herrors : ∀ r, (f r).errors = r.errors)
    (hcompleted : ∀ r, r.stepsCompleted ⊆ (f r).stepsCompleted) : Agrees env walk (x.map f) := by
  obtain ⟨hcaught, r, rfl, hr⟩ | ⟨huncaught, e, rfl⟩ := h
  · refine .inl ⟨hcaught, f r, rfl, ?_, ?_, ?_⟩
    · rw [hstore, hr.store]
    · rw [herrors, hr.errors]
    · exact fun task htask hsucceeds => hcompleted r (hr.stepsCompleted task htask hsucceeds)
  · exact .inr ⟨huncaught, e, rfl⟩

/-- The steps of a list follow the walk through them if each of them does. -/
theorem agrees_executeSteps_of {steps : List YAMLWorkflowStep}
    (h : ∀ step ∈ steps, ∀ store : Store H σ,
      Agrees env (walkStep env step store) (executeStep env step (.start store)))
    (store : Store H σ) :
    Agrees env (walkSteps env steps store) (executeSteps env steps (.start store)) := by
  induction steps generalizing store with
  | nil =>
    rw [walkSteps, executeSteps]
    exact .inl ⟨by simp, _, rfl, rfl, rfl, by simp⟩
  | cons step steps ih =>
    obtain ⟨hstep, hsteps⟩ := List.forall_mem_cons.mp h
    rw [walkSteps_cons, executeSteps_cons]
    exact (hstep store).bind (ih hsteps _)

/-- The execution of a step follows the walk through it. -/
theorem agrees_executeStep (hconditioned : Conditioned step) (store : Store H σ) :
    Agrees env (walkStep env step store) (executeStep env step (.start store)) := by
  induction step using YAMLWorkflowStep.nestedInduction generalizing store with
  | h step ih =>
    by_cases htype : step.stepType = .task
    · rw [walkStep_task htype, executeStep_task htype]
      exact agrees_executeTask env step store
    · rw [walkStep_composite htype, executeStep_composite htype hconditioned.condition]
      have hchosen : ∀ sub ∈ chosen env step store.context, ∀ store : Store H σ,
          Agrees env (walkStep env sub store) (executeStep env sub (.start store)) :=
        fun sub hsub =>
          ih sub (nested_of_chosen hsub) (hconditioned.nested (nested_of_chosen hsub))
      have hbeneath := agrees_executeSteps_of hchosen store
      refine hbeneath.map _ (fun r => rfl) (fun r => by simp) fun r => ?_
      dsimp only
      rw [List.nil_append]
      exact List.subset_append_left r.stepsCompleted (ownName step r)

/-- The execution of steps follows the walk through them. -/
theorem agrees_executeSteps {steps : List YAMLWorkflowStep}
    (hconditioned : ∀ step ∈ steps, Conditioned step) (store : Store H σ) :
    Agrees env (walkSteps env steps store) (executeSteps env steps (.start store)) :=
  agrees_executeSteps_of (fun step hstep => agrees_executeStep (hconditioned step hstep)) store

/-! ## Whether a run returns -/

/-- A workflow returns, reports every task that fails, in the order in which they run, and lists
every task that succeeds. -/
def ReturnsReport (env : Environment H σ) (steps : List YAMLWorkflowStep) (context : Context H)
    (world : σ) : Prop :=
  ∃ result world', execute env steps context world = .ok (result, world') ∧
    result.errors = (executedTasks env steps context world).filterMap (report env) ∧
    ∀ task ∈ executedTasks env steps context world, Succeeds env task.1 task.2 →
      task.1.name ∈ result.stepsCompleted

/-- A workflow raises with its steps. -/
theorem execute_error {steps : List YAMLWorkflowStep} {context : Context H} {world : σ}
    {e : PyError} (h : executeSteps env steps (.start ⟨context, world⟩) = .error e) :
    execute env steps context world = .error e := by
  unfold execute
  rw [h]
  rfl

/-- A workflow that was read from a document returns in every context, and reports what failed, if
no task that it executes raises something that is not caught. -/
theorem execute_returns_iff {env : Environment H σ} {document : Value} {name : String}
    {steps : List YAMLWorkflowStep}
    (hparse : parseWorkflowDocument env.conv document = .ok (name, steps)) (context : Context H)
    (world : σ) :
    ReturnsReport env steps context world ↔
      ∀ task ∈ executedTasks env steps context world, ¬ Uncaught env task.1 task.2 := by
  have hconditioned := conditioned_of_parseWorkflowDocument hparse
  have hagrees : Agrees env _ _ := agrees_executeSteps hconditioned ⟨context, world⟩
  unfold ReturnsReport executedTasks
  obtain ⟨hcaught, r, hrun, hr⟩ | ⟨⟨task, htask, huncaught⟩, e, hrun⟩ := hagrees
  · refine iff_of_true ?_ hcaught
    unfold execute
    rw [hrun]
    exact ⟨_, _, rfl, hr.errors, hr.stepsCompleted⟩
  · refine iff_of_false ?_ fun hcaught => hcaught task htask huncaught
    rintro ⟨result, world', hok, -⟩
    cases (execute_error hrun).symm.trans hok

end Walk

/-- A document with one task, whose agent is given. -/
def oneTask (agent : Value) : Value :=
  .dict [("name", .str "w"), ("steps", .list [.dict [("name", .str "s"), ("type", .str "task"),
    ("agent", agent)]])]

/-- The step that is read from it. -/
def taskStep (agent : Value) : YAMLWorkflowStep where
  name := "s"
  stepType := .task
  agent := agent

theorem parseWorkflowDocument_oneTask (conv : TextConversions) (agent : Value) :
    parseWorkflowDocument conv (oneTask agent) = .ok ("w", [taskStep agent]) := rfl

/-- Handlers that return nothing. -/
def silent : Environment Unit Unit where
  conv := ⟨fun _ => none, fun _ => none, fun _ => .ok ""⟩
  call _ _ world := (.returned .none, world)
  truthy _ := true
  differs _ _ := false

/-- A task whose agent is not in the context is reported. -/
theorem execute_returns_iff_notFound :
    ReturnsReport silent [taskStep (.str "a")] .empty () := by
  refine (execute_returns_iff (parseWorkflowDocument_oneTask silent.conv (.str "a")) .empty ()).mpr
    fun task htask => ?_
  obtain rfl := List.mem_singleton.mp htask
  simp [Uncaught, Value.hashable, Value.toStr, handlerOf]

/-- An agent that is a list is read, and no context can be asked for it. -/
theorem listAgent_raises :
    (∀ conv, parseWorkflowDocument conv (oneTask (.list [.str "a"])) =
      .ok ("w", [taskStep (.list [.str "a"])])) ∧
    (∀ (env : Environment Unit Unit) context world,
      execute env [taskStep (.list [.str "a"])] context world = .error .typeError) ∧
    ¬ ∀ (env : Environment Unit Unit) document name steps,
      parseWorkflowDocument env.conv document = .ok (name, steps) →
        ∀ context world, ReturnsReport env steps context world := by
  have hparse := fun conv => parseWorkflowDocument_oneTask conv (.list [.str "a"])
  have hraises : ∀ (env : Environment Unit Unit) context world,
      execute env [taskStep (.list [.str "a"])] context world = .error .typeError :=
    fun env context world => rfl
  refine ⟨hparse, hraises, fun hreturns => ?_⟩
  obtain ⟨result, world', hok, -⟩ := hreturns silent _ _ _ (hparse silent.conv) .empty ()
  cases (hraises silent .empty ()).symm.trans hok

end YAMLWorkflow

end MeshRouter.Workflows
