import Mathlib.Algebra.Order.Floor.Semiring
import Mathlib.Data.Rat.Floor
import MeshRouter.Workflows.Schedule

/-!
# The consensus workflow

`ConsensusWorkflow` of `workflows/consensus.py`. All steps are started at once, and the completion
loop takes them in the batches in which they complete. It leaves early in two ways, each of which
cancels the steps that are still pending: with the quorum met, after which it records a result for
every cancelled step, and with the quorum out of reach, after which it records none. It is left with
an exception if a completed task cannot be read.

When the steps complete, and how the cancelled ones end, is not up to the program (`Schedule`,
`CancelOutcome`). The required quorum is the product of a length and a float, which is rounded: the
product is a parameter, and `exactProduct` is the one without rounding.
-/

namespace MeshRouter.Workflows

open Lib

/-- "quorum_fraction must be in (0.0, 1.0], got …." -/
structure QuorumFractionError where
  got : ℚ
deriving DecidableEq

/-- A consensus workflow: the fraction of the agents that must succeed. -/
structure ConsensusWorkflow where
  quorumFraction : ℚ
  quorumFraction_pos : 0 < quorumFraction
  quorumFraction_le_one : quorumFraction ≤ 1

/-- `n * q`, of an integer and a float. -/
abbrev Product := ℕ → ℚ → ℚ

/-- The product that is not rounded. -/
def exactProduct : Product := fun n q => n * q

namespace ConsensusWorkflow

/-- `__init__`. -/
def init (quorumFraction : ℚ) : Except QuorumFractionError ConsensusWorkflow :=
  if h : 0 < quorumFraction ∧ quorumFraction ≤ 1 then
    .ok ⟨quorumFraction, h.1, h.2⟩
  else
    .error ⟨quorumFraction⟩

/-- `math.ceil(len(steps) * quorum_fraction)`. -/
def requiredQuorum (product : Product) (w : ConsensusWorkflow) (steps : List WorkflowStep) : ℕ :=
  ⌈product steps.length w.quorumFraction⌉₊

/-- `successful_results` and `all_results`. -/
structure Collected where
  successfulResults : List StepResult := []
  allResults : Dict String StepResult := .empty
deriving DecidableEq

/-- What the completion loop leaves. -/
structure LoopResult where
  collected : Collected
  quorumMet : Bool
  /-- The steps whose tasks were cancelled. -/
  cancelled : List WorkflowStep
deriving DecidableEq

/-- What `execute` returns, and the steps that it cancelled. -/
structure ConsensusExecution where
  result : WorkflowResult
  cancelled : List WorkflowStep := []
deriving DecidableEq

variable (agentExecutor : WorkflowStep → ExecOutcome)
  (cancelOutcome : WorkflowStep → CancelOutcome)

/-- The loop over `done`: the results of the completed tasks. -/
def collectAll : List WorkflowStep → Collected → Except PyException Collected
  | [], c => .ok c
  | step :: done, c =>
    match readTask agentExecutor step with
    | .error exc => .error exc
    | .ok stepResult =>
      collectAll done
        { successfulResults :=
            if stepResult.success then c.successfulResults ++ [stepResult]
            else c.successfulResults
          allResults := c.allResults.set stepResult.stepId stepResult }

/-- The body of the loop over the cancelled tasks. -/
def collectCancelled (c : Collected) (step : WorkflowStep) : Collected :=
  { c with allResults := c.allResults.set step.stepId (cancelResult cancelOutcome step) }

/-- `while pending`: the completion loop, over the batches that `asyncio.wait` returns. -/
def completionLoop (required : ℕ) :
    List (List WorkflowStep) → List WorkflowStep → Collected → Except PyException LoopResult
  | [], _, c => .ok ⟨c, false, []⟩
  | batch :: batches, pending, c =>
    -- The test of `while pending`.
    if pending = [] then
      .ok ⟨c, false, []⟩
    else
      let pending := pending.filter fun s => s ∉ batch
      match collectAll agentExecutor batch c with
      | .error exc => .error exc
      | .ok c =>
        let currentSuccesses := c.successfulResults.length
        let maxPossible := currentSuccesses + pending.length
        if required ≤ currentSuccesses then
          -- The quorum is met: what is pending is cancelled, and recorded.
          .ok ⟨pending.foldl (collectCancelled cancelOutcome) c, true, pending⟩
        else if maxPossible < required then
          -- The quorum is out of reach: what is pending is cancelled, and not recorded.
          .ok ⟨c, false, pending⟩
        else
          completionLoop required batches pending c

/-- `merge_outputs`: later outputs overwrite earlier ones, and the size of the quorum all. -/
def mergeOutputs (successfulResults : List StepResult) : Output :=
  let merged : Output := successfulResults.foldl (fun (merged : Output) (result : StepResult) =>
    match result.output with
    | some output => if output.size = 0 then merged else Dict.update merged output
    | none => merged) Dict.empty
  Dict.set merged "__quorum_size__" (.int successfulResults.length)

/-- `execute`. -/
def execute (product : Product) (w : ConsensusWorkflow) (steps : List WorkflowStep)
    (schedule : Schedule steps) : Except PyException ConsensusExecution :=
  if steps = [] then
    .ok { result := { stepResults := [], status := .SUCCESS } }
  else
    match completionLoop agentExecutor cancelOutcome (w.requiredQuorum product steps)
      schedule.batches steps {} with
    | .error exc => .error exc
    | .ok loop =>
      let ordered := steps.filterMap fun s => loop.collected.allResults.get? s.stepId
      if loop.quorumMet then
        let consensusResult : StepResult :=
          { stepId := "__consensus__", success := true,
            output := some (mergeOutputs loop.collected.successfulResults) }
        .ok { result := { stepResults := ordered ++ [consensusResult], status := .SUCCESS }
              cancelled := loop.cancelled }
      else
        let anySuccess := loop.collected.successfulResults ≠ []
        .ok { result :=
                { stepResults := ordered, status := if anySuccess then .PARTIAL else .FAILED }
              cancelled := loop.cancelled }

end ConsensusWorkflow

end MeshRouter.Workflows
