import MeshRouter.Workflows.Document

/-!
# The execution of a workflow

`YAMLWorkflow.execute` of `workflows/yaml_workflow.py` and what it calls. The steps share one
context, which holds values and handlers under texts, and they run one after the other, those of a
parallel step too. A task calls the handler under its agent and writes its declared outputs back
into the context.

Handlers are outside the program, so what a call does is given (`Environment`). A handler may depend
on more than its arguments and change it, which is the `world`. That an exception is rendered into
an error message can raise too, and so can the rendering of an agent, which may be of any type. What
is raised outside the call of a handler is not caught. The duration of a run is left out.
-/

namespace MeshRouter.Workflows

open Lib

namespace YAMLWorkflow

/-- What a context has under a key: a value, or a handler. -/
inductive ContextValue (H : Type) where
  | value (v : Value)
  | handler (h : H)

/-- An execution context. -/
abbrev Context (H : Type) := Dict String (ContextValue H)

/-- How the call of a handler ends: it returns a value, or it raises an exception, of which `str`
gives a text or raises. -/
inductive HandlerOutcome where
  | returned (result : Value)
  | raised (text : Except PyError String)

/-- What is outside the program. -/
structure Environment (H σ : Type) where
  conv : TextConversions
  /-- `handler(**resolved_inputs)`. -/
  call : H → Context H → σ → HandlerOutcome × σ
  /-- `bool(handler)`. -/
  truthy : H → Bool
  /-- `a != b`, of what contexts have under a key. -/
  differs : ContextValue H → ContextValue H → Bool

/-- Why a step is reported as an error. -/
inductive StepFailure where
  /-- "Task step missing 'agent' key." -/
  | agentMissing
  /-- "Agent '…' not found in execution context." -/
  | agentNotFound (agent : String)
  /-- "Agent '…' in context is not callable." -/
  | agentNotCallable (agent : String)
  /-- "Handler raised an exception: …" -/
  | handlerRaised (text : String)
  /-- "Conditional step missing 'condition' field." -/
  | conditionMissing
deriving DecidableEq

/-- What the steps of a run share: the context, and the world of the handlers. -/
structure Store (H σ : Type) where
  context : Context H
  world : σ

/-- The state of a run: the store, and the lists to which the steps append. -/
structure RunState (H σ : Type) where
  store : Store H σ
  stepsCompleted : List String := []
  errors : List (String × StepFailure) := []

/-- The outcome of executing a workflow. -/
structure YAMLWorkflowResult (H : Type) where
  stepsCompleted : List String
  outputs : Context H
  errors : List (String × StepFailure)

/-- `success`. -/
def YAMLWorkflowResult.success {H : Type} (result : YAMLWorkflowResult H) : Bool :=
  decide (result.errors.length = 0)

section Evaluation

variable {H σ : Type}

/-! ## Context evaluation -/

/-- The segments of a path: `path.split(".")`. -/
def segments (path : String) : List String := (path.toList.splitOn '.').map String.ofList

/-- The loop of `_resolve_dot_path`, for the segments that are left. -/
def descend : Value → List String → Value
  | current, [] => current
  | .dict entries, part :: parts => descend ((Dict.ofList entries).getD part .none) parts
  | _, _ :: _ => .none

/-- `_resolve_dot_path`. The context is where the path begins. -/
def resolveDotPath (context : Context H) (path : String) : ContextValue H :=
  match context.get? ((segments path).headD "") with
  | none => .value .none
  | some (.value v) => .value (descend v (segments path).tail)
  | some (.handler h) => if (segments path).tail = [] then .handler h else .value .none

/-- `bool(value)`, of a value. -/
def truthyValue : Value → Bool
  | .none => false
  | .bool b => b
  | .int n => decide (n ≠ 0)
  | .float x => decide (x ≠ 0)
  | .infinite _ => true
  | .nan => true
  | .str s => decide (s ≠ "")
  | .list xs => !xs.isEmpty
  | .dict entries => !entries.isEmpty

/-- `_is_truthy`. -/
def isTruthy (env : Environment H σ) : ContextValue H → Bool
  | .value v => truthyValue v
  | .handler h => env.truthy h

/-- `_resolve_inputs`: a key that is not in the context stands for itself. -/
def resolveInputs (stepInputs : Dict String String) (context : Context H) : Context H :=
  stepInputs.mapValues fun contextKey => context.getD contextKey (.value (.str contextKey))

/-! ## Tasks -/

/-- `context.get(step.agent)`: the keys of a context are texts, and no key can be a list or a
mapping. -/
def lookupAgent (context : Context H) (agent : Value) : Except PyError (Option (ContextValue H)) :=
  match agent with
  | .str key => .ok (context.get? key)
  | agent => if agent.hashable then .ok none else .error .typeError

/-- The merge of a result into the context: the declared outputs that a mapping has, or another
result as the first declared output. -/
def mergeOutputs (outputs : List String) (result : Value) (context : Context H) : Context H :=
  match result with
  | .dict entries =>
    outputs.foldl (fun context outputKey =>
      match (Dict.ofList entries).get? outputKey with
      | some v => context.set outputKey (.value v)
      | none => context) context
  | result =>
    match outputs with
    | [] => context
    | outputKey :: _ => context.set outputKey (.value result)

/-- `_execute_task` up to its report: the error that it appends, or none if it completes, and the
store that it leaves. -/
def runTask (env : Environment H σ) (step : YAMLWorkflowStep) (store : Store H σ) :
    Except PyError (Option StepFailure × Store H σ) :=
  if step.agent = .none then
    .ok (some .agentMissing, store)
  else do
    match ← lookupAgent store.context step.agent with
    | none | some (.value .none) =>
      let agent ← step.agent.toStr env.conv
      return (some (.agentNotFound agent), store)
    | some (.value _) =>
      let agent ← step.agent.toStr env.conv
      return (some (.agentNotCallable agent), store)
    | some (.handler h) =>
      match env.call h (resolveInputs step.inputs store.context) store.world with
      | (.raised text, world) =>
        let text ← text
        return (some (.handlerRaised text), { store with world := world })
      | (.returned result, world) =>
        return (none, { context := mergeOutputs step.outputs result store.context, world := world })

/-- `_execute_task`. -/
def executeTask (env : Environment H σ) (step : YAMLWorkflowStep) (s : RunState H σ) :
    Except PyError (RunState H σ) :=
  (runTask env step s.store).map fun (failure, store) =>
    match failure with
    | some failure => { s with store := store, errors := s.errors ++ [(step.name, failure)] }
    | none => { s with store := store, stepsCompleted := s.stepsCompleted ++ [step.name] }

/-! ## Steps -/

mutual

/-- `_execute_step`, with `_execute_parallel` and `_execute_conditional`. -/
def executeStep (env : Environment H σ) :
    YAMLWorkflowStep → RunState H σ → Except PyError (RunState H σ)
  | step@⟨name, stepType, _, _, _, condition, ifSteps, elseSteps, subSteps⟩, s =>
    match stepType with
    | .task => executeTask env step s
    | .parallel => do
      let sub ← executeSteps env subSteps { store := s.store }
      let stepsCompleted := s.stepsCompleted ++ sub.stepsCompleted
      return {
        store := sub.store
        stepsCompleted := if sub.errors = [] then stepsCompleted ++ [name] else stepsCompleted
        errors := s.errors ++ sub.errors }
    | .conditional =>
      match condition with
      | none => .ok { s with errors := s.errors ++ [(name, .conditionMissing)] }
      | some condition =>
        if isTruthy env (resolveDotPath s.store.context condition) then do
          let s ← executeSteps env ifSteps s
          return { s with stepsCompleted := s.stepsCompleted ++ [name] }
        else do
          let s ← executeSteps env elseSteps s
          return { s with stepsCompleted := s.stepsCompleted ++ [name] }

/-- The steps of a list, one after the other. -/
def executeSteps (env : Environment H σ) :
    List YAMLWorkflowStep → RunState H σ → Except PyError (RunState H σ)
  | [], s => .ok s
  | step :: steps, s => do
    let s ← executeStep env step s
    executeSteps env steps s

end

/-- The outputs of a run: the keys that are new in the context, and those whose value differs. -/
def outputsOf (env : Environment H σ) (context final : Context H) : Context H :=
  let outputs := Dict.ofList (final.entries.filter fun entry => entry.1 ∉ context.keys)
  final.entries.foldl (fun outputs entry =>
    match context.get? entry.1 with
    | some old => if env.differs old entry.2 then outputs.set entry.1 entry.2 else outputs
    | none => outputs) outputs

/-- `execute`: the result, and the world afterwards. -/
def execute (env : Environment H σ) (steps : List YAMLWorkflowStep) (context : Context H)
    (world : σ) : Except PyError (YAMLWorkflowResult H × σ) := do
  let s ← executeSteps env steps { store := ⟨context, world⟩ }
  return ({
    stepsCompleted := s.stepsCompleted
    outputs := outputsOf env context s.store.context
    errors := s.errors }, s.store.world)

end Evaluation

end YAMLWorkflow

end MeshRouter.Workflows
