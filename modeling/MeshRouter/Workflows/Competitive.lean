import MeshRouter.Workflows.Schedule

/-!
# The competitive workflow

`CompetitiveWorkflow` of `workflows/competitive.py`. All steps are started at once, and the loop
takes them in the batches in which they complete. The first success that it reads wins: the steps
that are still pending are cancelled and recorded, and the loop is left, in the middle of the batch
if the winner is not the last of it. It is left with an exception if a completed task cannot be
read. A single step is run without a task, and so without the clause that reads its exception.

When the steps complete is up to a `Schedule`, and how a cancelled step ends to a `CancelOutcome`.
-/

namespace MeshRouter.Workflows

open Lib

/-- A competitive workflow: whether the results include the losers. -/
structure CompetitiveWorkflow where
  includeAllResults : Bool := false

namespace CompetitiveWorkflow

/-- `winner_result`, `all_results` and `pending`. -/
structure RaceState where
  winner : Option StepResult := none
  allResults : Dict String StepResult := .empty
  pending : List WorkflowStep
deriving DecidableEq

variable (agentExecutor : WorkflowStep → ExecOutcome)
  (cancelOutcome : WorkflowStep → CancelOutcome)

/-- The body of the loop over `zip(list(pending), cancel_outcomes)`. -/
def collectLoser (allResults : Dict String StepResult) (step : WorkflowStep) :
    Dict String StepResult :=
  allResults.set step.stepId (cancelResult cancelOutcome step)

/-- `for completed_task in done`. -/
def readDone : List WorkflowStep → RaceState → Except PyException RaceState
  | [], race => .ok race
  | step :: done, race =>
    match readTask agentExecutor step with
    | .error exc => .error exc
    | .ok stepResult =>
      let allResults := race.allResults.set stepResult.stepId stepResult
      if stepResult.success ∧ race.winner = none then
        -- The losers are cancelled, and `break` leaves the rest of the batch.
        .ok { winner := some stepResult
              allResults := race.pending.foldl (collectLoser cancelOutcome) allResults
              pending := [] }
      else
        readDone done { race with allResults := allResults }

/-- `while pending`, over the batches that `asyncio.wait` returns. -/
def raceLoop : List (List WorkflowStep) → RaceState → Except PyException RaceState
  | [], race => .ok race
  | done :: batches, race =>
    if race.pending = [] then
      .ok race
    else
      let pending := race.pending.filter fun s => s ∉ done
      match readDone agentExecutor cancelOutcome done { race with pending := pending } with
      | .error exc => .error exc
      | .ok race => raceLoop batches race

/-- The results that were collected, in the order of the steps. -/
def inOrder (steps : List WorkflowStep) (allResults : Dict String StepResult) : List StepResult :=
  steps.filterMap fun s => allResults.get? s.stepId

/-- `execute`, past its two shortcuts. -/
def executeRace (w : CompetitiveWorkflow) (steps : List WorkflowStep) (schedule : Schedule steps) :
    Except PyException WorkflowResult :=
  match raceLoop agentExecutor cancelOutcome schedule.batches { pending := steps } with
  | .error exc => .error exc
  | .ok race =>
    match race.winner with
    | some winnerResult =>
      .ok { stepResults :=
              if w.includeAllResults then inOrder steps race.allResults else [winnerResult]
            status := .SUCCESS }
    | none => .ok { stepResults := inOrder steps race.allResults, status := .FAILED }

/-- `execute`. -/
def execute (w : CompetitiveWorkflow) (steps : List WorkflowStep) (schedule : Schedule steps) :
    Except PyException WorkflowResult :=
  match steps, schedule with
  | [], _ => .ok { stepResults := [], status := .SUCCESS }
  | [step], _ =>
    match runStepCancellable agentExecutor step with
    | .error exc => .error exc
    | .ok result =>
      .ok { stepResults := [result], status := if result.success then .SUCCESS else .FAILED }
  | step :: step' :: rest, schedule =>
    executeRace agentExecutor cancelOutcome w (step :: step' :: rest) schedule

end CompetitiveWorkflow

end MeshRouter.Workflows
