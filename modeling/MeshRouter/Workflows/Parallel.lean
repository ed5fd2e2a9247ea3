import MeshRouter.Workflows.Dependencies

/-!
# The parallel workflow

`ParallelWorkflow` of `workflows/parallel.py`. The dependencies are validated first, with Kahn's
algorithm for the cycles. Then the steps run in waves: each turn of the loop skips the steps that
have a failed dependency, runs those whose dependencies all succeeded, and keeps the others.

Both loops are recursions on what they use up. Kahn's loop uses up the queue and the in-degrees
(`kahnWeight`), and the wave loop the remaining steps; a turn that finds nothing to do is the
stall branch of the source, which gives up. A step with its result is searched among the remaining
ones with `==`, which compares the parameters of the steps before it.
-/

namespace MeshRouter.Workflows

open Lib

namespace ParallelWorkflow

/-! ## Kahn's algorithm -/

/-- `in_degree`: the number of dependencies of each step. -/
def inDegrees (steps : List WorkflowStep) : Dict String ℤ :=
  steps.foldl (fun inDegree step =>
    let inDegree :=
      if step.stepId ∈ inDegree.keys then inDegree else inDegree.set step.stepId 0
    step.dependsOn.foldl (fun inDegree _ =>
      inDegree.set step.stepId (inDegree.getD step.stepId 0 + 1)) inDegree) .empty

/-- The inner loop of Kahn's algorithm: each dependent has one dependency less, and is queued when
it has none left. -/
def release (inDegree : Dict String ℤ) (queue : List String) :
    List String → Dict String ℤ × List String
  | [] => (inDegree, queue)
  | dependentId :: dependentIds =>
    let degree := inDegree.getD dependentId 0 - 1
    release (inDegree.set dependentId degree)
      (if degree = 0 then queue ++ [dependentId] else queue) dependentIds

/-- What Kahn's loop has left: the queue, and the dependencies that are not yet released. -/
def kahnWeight (inDegree : Dict String ℤ) (queue : List String) : ℕ :=
  queue.length + (inDegree.values.map Int.toNat).sum

/-- A step is queued only when its last dependency is released, so releasing adds no weight. -/
theorem kahnWeight_release (inDegree : Dict String ℤ) (queue dependentIds : List String) :
    kahnWeight (release inDegree queue dependentIds).1 (release inDegree queue dependentIds).2 ≤
      kahnWeight inDegree queue := by
  induction dependentIds generalizing inDegree queue with
  | nil => exact le_rfl
  | cons x xs ih =>
    unfold release
    dsimp only
    refine (ih _ _).trans ?_
    -- The weight of a dependent goes from its in-degree to the queue, or out of the sum.
    have hsum := Dict.sum_values_set Int.toNat inDegree x (inDegree.getD x 0 - 1)
    have hold : ((inDegree.get? x).map Int.toNat).getD 0 = (inDegree.getD x 0).toNat := by
      unfold Dict.getD
      cases inDegree.get? x <;> rfl
    unfold kahnWeight
    split_ifs with hzero
    · rw [List.length_append, List.length_singleton]
      omega
    · omega

/-- The loop of Kahn's algorithm: the number of steps that it visits. -/
def kahnLoop (dependents : Dict String (List String)) (inDegree : Dict String ℤ) :
    List String → ℕ
  | [] => 0
  | node :: queue =>
    let next := release inDegree queue (dependents.getD node [])
    kahnLoop dependents next.1 next.2 + 1
termination_by queue => kahnWeight inDegree queue
decreasing_by
  refine (kahnWeight_release inDegree queue _).trans_lt ?_
  unfold kahnWeight
  rw [List.length_cons]
  omega

/-- `_validate_dependencies`. -/
def validateDependencies (steps : List WorkflowStep) : Except WorkflowError Unit :=
  match checkReferences (stepMap steps) steps with
  | .error e => .error e
  | .ok () =>
    let inDegree := inDegrees steps
    let queue := (stepIds steps).filter fun x => inDegree.getD x 0 = 0
    if kahnLoop (dependents steps) inDegree queue ≠ steps.length then
      .error .circularDependency
    else
      .ok ()

/-! ## The waves -/

/-- What a turn of the wave loop does with a step. -/
inductive Readiness where
  | waiting
  | ready
  | skipNow
deriving DecidableEq

/-- A step waits until all its dependencies have results, and is skipped if one of them failed. -/
def readiness (results : Dict String StepResult) (step : WorkflowStep) : Readiness :=
  let depResults := step.dependsOn.map fun depId => results.get? depId
  if ¬ depResults.all Option.isSome then .waiting
  else if depResults.any fun r => r.any fun r => !r.success then .skipNow
  else .ready

/-- `remaining.remove(step)`: the first step that is `step`, or equals it, is taken out. -/
def remove (eq : Comparison) (step : WorkflowStep) :
    List WorkflowStep → Except WorkflowError (List WorkflowStep)
  | [] => .error .notInList
  | s :: remaining =>
    match if s = step then .ok true else s.equal eq step with
    | .error exc => .error (.comparison exc)
    | .ok true => .ok remaining
    | .ok false => (remove eq step remaining).map (s :: ·)

/-- The two loops of a turn over steps that have their results: each result is stored, and its step
is taken out of the remaining ones. -/
def settle (eq : Comparison) (result : WorkflowStep → StepResult) :
    List WorkflowStep → Progress → List WorkflowStep →
      Except Raised (Progress × List WorkflowStep)
  | [], p, remaining => .ok (p, remaining)
  | step :: steps, p, remaining =>
    let p := p.recordAll result [step]
    match remove eq step remaining with
    | .error e => .error { error := e, log := p.log }
    | .ok remaining => settle eq result steps p remaining

/-- A turn of the loop of `execute`, with the steps that it skips and those that it runs. -/
def turn (eq : Comparison) (agentExecutor : WorkflowStep → ExecOutcome) (p : Progress)
    (remaining skipNow ready : List WorkflowStep) : Except Raised (Progress × List WorkflowStep) :=
  match settle eq (skipResult .dependencyFailed) skipNow p remaining with
  | .error e => .error e
  | .ok (p, remaining) =>
    match p.gather agentExecutor ready with
    | .error e => .error e
    | .ok p => settle eq (resultOf (runStep agentExecutor)) ready p remaining

/-- Taking a step out leaves one step less. -/
theorem length_remove {eq : Comparison} {step : WorkflowStep}
    {remaining remaining' : List WorkflowStep}
    (h : remove eq step remaining = .ok remaining') : remaining'.length + 1 = remaining.length := by
  induction remaining generalizing remaining' with
  | nil => cases h
  | cons s remaining ih =>
    unfold remove at h
    split at h
    · cases h
    · obtain rfl := Except.ok.inj h
      rfl
    · cases hrest : remove eq step remaining with
      | error e =>
        rw [hrest] at h
        cases h
      | ok rest =>
        rw [hrest] at h
        obtain rfl := Except.ok.inj h
        have hlen := ih hrest
        simp only [List.length_cons]
        omega

/-- Settling steps leaves so many steps less. -/
theorem length_settle {eq : Comparison} {result : WorkflowStep → StepResult}
    {steps remaining : List WorkflowStep} {p : Progress} {next : Progress × List WorkflowStep}
    (h : settle eq result steps p remaining = .ok next) :
    next.2.length + steps.length = remaining.length := by
  induction steps generalizing p remaining with
  | nil =>
    obtain rfl := Except.ok.inj h
    rfl
  | cons step steps ih =>
    unfold settle at h
    cases hremove : remove eq step remaining with
    | error e =>
      rw [hremove] at h
      cases h
    | ok rest =>
      rw [hremove] at h
      have hlen := length_remove hremove
      have hrest := ih h
      rw [List.length_cons]
      omega

/-- A turn with a step to skip or to run leaves fewer remaining steps. -/
theorem length_turn_lt {eq : Comparison} {agentExecutor : WorkflowStep → ExecOutcome}
    {p : Progress} {remaining skipNow ready : List WorkflowStep}
    {next : Progress × List WorkflowStep} (hsome : ¬ (ready = [] ∧ skipNow = []))
    (h : turn eq agentExecutor p remaining skipNow ready = .ok next) :
    next.2.length < remaining.length := by
  have hpos : 0 < ready.length + skipNow.length := by
    by_contra hzero
    exact hsome ⟨List.length_eq_zero_iff.mp (by omega), List.length_eq_zero_iff.mp (by omega)⟩
  unfold turn at h
  split at h
  · cases h
  · have hskip := length_settle ‹_›
    split at h
    · cases h
    · have hready := length_settle h
      simp only at hskip
      omega

/-- The loop of `execute` over the remaining steps: the progress, and whether the loop stalled. -/
def waveLoop (eq : Comparison) (agentExecutor : WorkflowStep → ExecOutcome) (p : Progress) :
    List WorkflowStep → Except Raised (Progress × Bool)
  | [] => .ok (p, false)
  | step :: steps =>
    let remaining := step :: steps
    let ready := remaining.filter fun s => readiness p.results s = .ready
    let skipNow := remaining.filter fun s => readiness p.results s = .skipNow
    -- No progress is possible: the source logs an error and breaks.
    if _hstall : ready = [] ∧ skipNow = [] then
      .ok (p, true)
    else
      match _hturn : turn eq agentExecutor p remaining skipNow ready with
      | .error e => .error e
      | .ok next => waveLoop eq agentExecutor next.1 next.2
termination_by remaining => remaining.length
decreasing_by exact length_turn_lt _hstall _hturn

/-- `execute`. -/
def execute (eq : Comparison) (agentExecutor : WorkflowStep → ExecOutcome)
    (steps : List WorkflowStep) : Except Raised Execution :=
  if steps = [] then
    .ok { result := { stepResults := [], status := .SUCCESS } }
  else
    match validateDependencies steps with
    | .error e => .error { error := e }
    | .ok () =>
      match waveLoop eq agentExecutor {} steps with
      | .error e => .error e
      | .ok (p, stalled) =>
        .ok { result := makeResult (p.ordered steps), log := p.log, stalled := stalled }

end ParallelWorkflow

end MeshRouter.Workflows
