import MeshRouter.Exceptions
import MeshRouter.Lib.Dict
import MeshRouter.Value

/-!
# Workflow steps and results

The data of `workflows/base.py`, and what all executors share: running one step, and the status of
a list of results. The agents are outside the program, so an executor takes how each step ends as a
function `agentExecutor`, and `runStep` turns an end into a result as `_run_step` does, or lets an
exception escape. Durations and workflow ids are left out.

The parameters of a step are objects of any kind. No executor looks into them, but two steps are
compared where a list of steps is searched, and the comparison of two objects runs code of their
classes, which may raise (`Comparison`).
-/

namespace MeshRouter.Workflows

open Lib

/-- Overall status of a workflow execution. -/
inductive WorkflowStatus where
  | SUCCESS
  | PARTIAL
  | FAILED
  | CANCELLED
deriving DecidableEq, Repr

/-- What an agent returns for a step. -/
abbrev Output := Dict String Value

/-- An object of any kind, by its identity. -/
structure PyObject where
  id : ℕ
deriving DecidableEq

/-- `bool(a == b)`, of two objects. -/
abbrev Comparison := PyObject → PyObject → Except PyException Bool

/-- A single step within a workflow. -/
structure WorkflowStep where
  agentId : String
  action : String
  params : Dict String PyObject := .empty
  stepId : String
  /-- Maximum seconds allowed for this step. -/
  timeoutSeconds : Option ℚ := none
  /-- The steps that must complete successfully before this one may execute. -/
  dependsOn : List String := []
deriving DecidableEq

/-- The error text of a failed step. -/
inductive StepError where
  /-- "dependency_failed". -/
  | dependencyFailed
  /-- "parent_step_failed". -/
  | parentStepFailed
  /-- "cancelled". -/
  | cancelled
  /-- "Step timed out after …s." -/
  | timedOut (timeoutSeconds : Option ℚ)
  /-- The text of the exception that the agent raised. -/
  | raised (message : String)
deriving DecidableEq

/-- The outcome of executing a single step. -/
structure StepResult where
  stepId : String
  success : Bool
  output : Option Output := none
  error : Option StepError := none
deriving DecidableEq

/-- Aggregate outcome of a workflow execution. -/
structure WorkflowResult where
  stepResults : List StepResult
  status : WorkflowStatus
deriving DecidableEq

namespace WorkflowStep

variable (eq : Comparison)

/-- The comparison of two dictionaries of one size, up to the first difference. An object is
compared with another one only: it equals itself. -/
def entriesEqual : List (String × PyObject) → Dict String PyObject → Except PyException Bool
  | [], _ => .ok true
  | (key, value) :: entries, params =>
    match params.get? key with
    | none => .ok false
    | some value' =>
      match if value = value' then .ok true else eq value value' with
      | .ok true => entriesEqual entries params
      | .ok false => .ok false
      | .error exc => .error exc

/-- `params == params'`. -/
def paramsEqual (params params' : Dict String PyObject) : Except PyException Bool :=
  if params.size = params'.size then entriesEqual eq params.entries params' else .ok false

/-- `step == step'`: the fields are compared in turn, up to the first difference. -/
def equal (step step' : WorkflowStep) : Except PyException Bool :=
  if step.agentId = step'.agentId ∧ step.action = step'.action then
    match paramsEqual eq step.params step'.params with
    | .error exc => .error exc
    | .ok same => .ok (same && decide (step.stepId = step'.stepId ∧
        step.timeoutSeconds = step'.timeoutSeconds ∧ step.dependsOn = step'.dependsOn))
  else
    .ok false

end WorkflowStep

namespace WorkflowResult

/-- `successful_steps`. -/
def successfulSteps (r : WorkflowResult) : List StepResult := r.stepResults.filter (·.success)

/-- `failed_steps`. -/
def failedSteps (r : WorkflowResult) : List StepResult := r.stepResults.filter (!·.success)

/-- `is_success`. -/
def isSuccess (r : WorkflowResult) : Bool := decide (r.status = .SUCCESS)

end WorkflowResult

/-- What an executor raises. -/
inductive WorkflowError where
  /-- "Step … depends on unknown step …." -/
  | unknownStep (stepId depId : String)
  /-- "Circular dependency detected in workflow steps." -/
  | circularDependency
  /-- Python's own error, for a recursion that does not end. -/
  | recursionError
  /-- Python's own error, for a missing key. -/
  | keyError (key : String)
  /-- "list.remove(x): x not in list". -/
  | notInList
  /-- An exception of a comparison of two steps. -/
  | comparison (exc : PyException)
  /-- One of the exceptions that escaped from steps that ran at the same time: that of the step that
  ended first. -/
  | escaped (exceptions : List PyException)
deriving DecidableEq

/-- The errors that the executors raise themselves are `ValueError`s. -/
def WorkflowError.IsValueError : WorkflowError → Prop
  | .unknownStep _ _ | .circularDependency | .notInList => True
  | .recursionError | .keyError _ => False
  | .comparison exc => exc.kind = .valueError
  | .escaped exceptions => ∃ exc ∈ exceptions, exc.kind = .valueError

/-- How the agent's work on a step ends. -/
inductive ExecOutcome where
  | returned (output : Output)
  /-- The agent raises a `TimeoutError`, or `asyncio.wait_for` does so after the step's timeout. -/
  | timedOut
  | raised (exc : PyException)
deriving DecidableEq

section RunStep

variable (agentExecutor : WorkflowStep → ExecOutcome) (step : WorkflowStep)

/-- `_run_step`: the result of a step, or what escapes. An exception is caught if it is an
`Exception`, and its text is taken, which may raise another one. -/
def runStep : Except PyException StepResult :=
  match agentExecutor step with
  | .returned output => .ok { stepId := step.stepId, success := true, output := some output }
  | .timedOut =>
    .ok { stepId := step.stepId, success := false, error := some (.timedOut step.timeoutSeconds) }
  | .raised exc =>
    match exc.caughtText with
    | .ok message =>
      .ok { stepId := step.stepId, success := false, error := some (.raised message) }
    | .error escaped => .error escaped

/-- `_run_step` of the executors that cancel steps, which also catches the cancellation. -/
def runStepCancellable : Except PyException StepResult :=
  match agentExecutor step with
  | .raised exc =>
    if exc.kind = .cancelledError then
      .ok { stepId := step.stepId, success := false, error := some .cancelled }
    else
      runStep agentExecutor step
  | _ => runStep agentExecutor step

end RunStep

/-- The result of a step. If an exception escapes there is none, and this is a failure that no run
records. -/
def resultOf (run : WorkflowStep → Except PyException StepResult) (step : WorkflowStep) :
    StepResult :=
  match run step with
  | .ok result => result
  | .error _ => { stepId := step.stepId, success := false }

/-- `_make_result`: the status is `SUCCESS` when all results succeeded, `PARTIAL` when some did,
and `FAILED` when none did. -/
def makeResult (stepResults : List StepResult) : WorkflowResult :=
  let allSuccess := stepResults.all (·.success)
  let anySuccess := stepResults.any (·.success)
  { stepResults := stepResults
    status := if allSuccess then .SUCCESS else if anySuccess then .PARTIAL else .FAILED }

section ResultOf

variable {run : WorkflowStep → Except PyException StepResult} {step : WorkflowStep}
  {agentExecutor : WorkflowStep → ExecOutcome} {result : StepResult}

/-- The result of a step that returns. -/
theorem resultOf_of_ok (h : run step = .ok result) : resultOf run step = result := by
  unfold resultOf
  rw [h]

/-- A step that returns gives its result. -/
theorem eq_ok_resultOf (h : ∀ exc, run step ≠ .error exc) : run step = .ok (resultOf run step) := by
  cases hrun : run step with
  | ok result => rw [resultOf_of_ok hrun]
  | error exc => exact absurd hrun (h exc)

/-- A success is the result of a step that returned. -/
theorem eq_ok_of_success (h : (resultOf run step).success = true) :
    run step = .ok (resultOf run step) := by
  cases hrun : run step with
  | ok result => rw [resultOf_of_ok hrun]
  | error exc =>
    unfold resultOf at h
    rw [hrun] at h
    cases h

/-- If results carry the ids of their steps, so does what stands for one. -/
theorem resultOf_stepId_of (h : ∀ result, run step = .ok result → result.stepId = step.stepId) :
    (resultOf run step).stepId = step.stepId := by
  cases hrun : run step with
  | ok result => rw [resultOf_of_ok hrun, h result hrun]
  | error exc =>
    unfold resultOf
    rw [hrun]

/-- A result carries the id of its step. -/
theorem stepId_of_runStep (h : runStep agentExecutor step = .ok result) :
    result.stepId = step.stepId := by
  unfold runStep at h
  split at h
  · cases h; rfl
  · cases h; rfl
  · split at h
    · cases h; rfl
    · cases h

/-- A result carries the id of its step, also where cancellation is caught. -/
theorem stepId_of_runStepCancellable (h : runStepCancellable agentExecutor step = .ok result) :
    result.stepId = step.stepId := by
  unfold runStepCancellable at h
  split at h
  · split_ifs at h
    · cases h; rfl
    · exact stepId_of_runStep h
  · exact stepId_of_runStep h

@[simp]
theorem runStep_stepId (agentExecutor : WorkflowStep → ExecOutcome) (step : WorkflowStep) :
    (resultOf (runStep agentExecutor) step).stepId = step.stepId :=
  resultOf_stepId_of fun _ h => stepId_of_runStep h

end ResultOf

end MeshRouter.Workflows
