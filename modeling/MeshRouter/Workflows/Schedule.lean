import MeshRouter.Workflows.Dependencies

/-!
# The order in which steps complete

Two workflows start all their steps at once and take them as they complete: `ConsensusWorkflow` and
`CompetitiveWorkflow`. When a step completes is not up to them. A `Schedule` is one way for it to
happen: batches of steps, none empty, in which every step occurs once. The order within a batch is
that in which the set of completed tasks is traversed.

Both read the completed tasks and cancel others in the same way. An exception that escapes from
`_run_step` is found in its task, and taken as a failure unless it has no text (`readTask`). How a
cancelled task ends is not up to the workflows either: its agent may end in its own way, also after
it has seen the cancellation.
-/

namespace MeshRouter.Workflows

/-- An order in which the tasks of the steps can complete: each batch is what one `asyncio.wait`
returns. -/
structure Schedule (steps : List WorkflowStep) where
  batches : List (List WorkflowStep)
  nonempty : ∀ batch ∈ batches, batch ≠ []
  perm : batches.flatten.Perm steps

/-- The steps that have completed after the first `m` batches. -/
def Schedule.completed {steps : List WorkflowStep} (schedule : Schedule steps) (m : ℕ) :
    List WorkflowStep :=
  (schedule.batches.take m).flatten

/-- The completed steps come first in the order of completion. -/
theorem Schedule.completed_sublist {steps : List WorkflowStep} (schedule : Schedule steps) (m : ℕ) :
    (schedule.completed m).Sublist schedule.batches.flatten := by
  unfold Schedule.completed
  conv_rhs => rw [← List.take_append_drop m schedule.batches, List.flatten_append]
  exact List.sublist_append_left _ _

/-- A completed step is one of the steps. -/
theorem Schedule.completed_mem {steps : List WorkflowStep} (schedule : Schedule steps) {m : ℕ}
    {s : WorkflowStep} (hs : s ∈ schedule.completed m) : s ∈ steps :=
  schedule.perm.subset ((schedule.completed_sublist m).subset hs)

/-- `completed_task.result()`, with the `except` clause around it: an exception of the task is a
failure with the text of the exception, and `str` may raise another one. -/
def readTask (agentExecutor : WorkflowStep → ExecOutcome) (step : WorkflowStep) :
    Except PyException StepResult :=
  match runStepCancellable agentExecutor step with
  | .ok result => .ok result
  | .error exc =>
    match exc.caughtText with
    | .ok message =>
      .ok { stepId := step.stepId, success := false, error := some (.raised message) }
    | .error escaped => .error escaped

/-- Reading the task of the step raises. -/
def Crashes (agentExecutor : WorkflowStep → ExecOutcome) (step : WorkflowStep) : Prop :=
  ∃ exc, readTask agentExecutor step = .error exc

/-- The result that is read carries the id of its step. -/
theorem stepId_of_readTask {agentExecutor : WorkflowStep → ExecOutcome} {step : WorkflowStep}
    {result : StepResult} (h : readTask agentExecutor step = .ok result) :
    result.stepId = step.stepId := by
  unfold readTask at h
  split at h
  · rename_i hrun
    obtain rfl := Except.ok.inj h
    exact stepId_of_runStepCancellable hrun
  · split at h
    · obtain rfl := Except.ok.inj h
      rfl
    · cases h

@[simp]
theorem readTask_stepId (agentExecutor : WorkflowStep → ExecOutcome) (step : WorkflowStep) :
    (resultOf (readTask agentExecutor) step).stepId = step.stepId :=
  resultOf_stepId_of fun _ h => stepId_of_readTask h

/-- A task that can be read has a result. -/
theorem readTask_eq {agentExecutor : WorkflowStep → ExecOutcome} {step : WorkflowStep}
    (h : ¬ Crashes agentExecutor step) :
    readTask agentExecutor step = .ok (resultOf (readTask agentExecutor) step) :=
  eq_ok_resultOf fun exc hexc => h ⟨exc, hexc⟩

/-- How the task of a cancelled step ends: its agent ends, with the `CancelledError` or without, or
the task is cancelled before it runs. -/
inductive CancelOutcome where
  | ended (outcome : ExecOutcome)
  | cancelledError
deriving DecidableEq

/-- The result that is recorded for a cancelled step: the one that its task returns, or else
"cancelled". -/
def cancelResult (cancelOutcome : WorkflowStep → CancelOutcome) (step : WorkflowStep) :
    StepResult :=
  match cancelOutcome step with
  | .cancelledError => { stepId := step.stepId, success := false, error := some .cancelled }
  | .ended outcome =>
    match runStepCancellable (fun _ => outcome) step with
    | .ok result => result
    | .error _ => { stepId := step.stepId, success := false, error := some .cancelled }

@[simp]
theorem cancelResult_stepId (cancelOutcome : WorkflowStep → CancelOutcome) (step : WorkflowStep) :
    (cancelResult cancelOutcome step).stepId = step.stepId := by
  unfold cancelResult
  split
  · rfl
  · split
    · exact stepId_of_runStepCancellable ‹_›
    · rfl

/-- The steps still pending after a batch are those of the later batches. -/
theorem perm_filter_notMem {batch later pending : List WorkflowStep}
    (hperm : (batch ++ later).Perm pending) (hnodup : pending.Nodup) :
    later.Perm (pending.filter fun s => s ∉ batch) := by
  have hdisj : batch.Disjoint later := (List.nodup_append'.mp (hperm.nodup_iff.mpr hnodup)).2.2
  have hbatch : batch.filter (fun s => s ∉ batch) = [] := List.filter_eq_nil_iff.mpr (by simp)
  have hlater : later.filter (fun s => s ∉ batch) = later :=
    List.filter_eq_self.mpr fun s hs => by simpa using fun hb => hdisj hb hs
  have hfilter := hperm.filter fun s => decide (s ∉ batch)
  rwa [List.filter_append, hbatch, hlater, List.nil_append] at hfilter

/-- While a batch is left, a step is pending. -/
theorem pending_ne_nil {batch pending : List WorkflowStep} {batches : List (List WorkflowStep)}
    (hbatch : batch ≠ []) (hperm : (batch :: batches).flatten.Perm pending) : pending ≠ [] := by
  rintro rfl
  rw [List.flatten_cons] at hperm
  exact hbatch (List.append_eq_nil_iff.mp (List.perm_nil.mp hperm)).1

end MeshRouter.Workflows
