import MeshRouter.Workflows.Consensus
import MeshRouter.Workflows.Dependencies

/-!
# The verdict of the consensus workflow

The completion loop goes on while the quorum is neither met nor out of reach, and both are
questions about counts: how many completed steps succeeded, and how many steps are pending.
`LoopState` says what has been collected when the steps `done` have completed. `LoopEnd` says where
the loop stops, and `completionLoop_cases` shows that it stops there or in a batch with a task that
cannot be read, by induction on the batches.

* The status does not depend on the schedule (`execute_verdict`): it is `SUCCESS` exactly when
  enough steps succeed, whatever the order and the batches in which they complete.
* The results do depend on it (`execute_complete_iff`): a step that is cancelled because the quorum
  is out of reach has no result.
-/

namespace MeshRouter.Workflows

open Lib

namespace ConsensusWorkflow

section Counts

variable (agentExecutor : WorkflowStep → ExecOutcome)

/-- The number of steps that succeed when they run to completion. -/
def successes (steps : List WorkflowStep) : ℕ :=
  steps.countP fun s => (resultOf (readTask agentExecutor) s).success

/-- The number of steps that fail when they run to completion. -/
def failures (steps : List WorkflowStep) : ℕ :=
  steps.countP fun s => !(resultOf (readTask agentExecutor) s).success

/-- Every step succeeds or fails. -/
theorem successes_add_failures (steps : List WorkflowStep) :
    successes agentExecutor steps + failures agentExecutor steps = steps.length := by
  rw [successes, failures,
    List.length_eq_countP_add_countP fun s => (resultOf (readTask agentExecutor) s).success]
  simp

@[simp]
theorem successes_append (l l' : List WorkflowStep) :
    successes agentExecutor (l ++ l') = successes agentExecutor l + successes agentExecutor l' :=
  List.countP_append

/-- No more steps succeed than there are. -/
theorem successes_le_length (l : List WorkflowStep) : successes agentExecutor l ≤ l.length :=
  List.countP_le_length

end Counts

/-- The exact required quorum is positive, since the fraction and the number of steps are. -/
theorem requiredQuorum_pos (w : ConsensusWorkflow) {steps : List WorkflowStep}
    (hsteps : steps ≠ []) : 0 < w.requiredQuorum exactProduct steps := by
  have hlength : (0 : ℚ) < steps.length := by
    exact_mod_cast List.length_pos_iff.mpr hsteps
  exact Nat.ceil_pos.mpr (mul_pos hlength w.quorumFraction_pos)

section Loop

variable {agentExecutor : WorkflowStep → ExecOutcome} {cancelOutcome : WorkflowStep → CancelOutcome}
  {required : ℕ} {done pending batch : List WorkflowStep} {batches : List (List WorkflowStep)}
  {c : Collected}

/-! ## What is collected -/

/-- What has been collected when the steps `done` have completed and those in `pending` have not. -/
structure LoopState (agentExecutor : WorkflowStep → ExecOutcome) (done pending : List WorkflowStep)
    (c : Collected) : Prop where
  successful : c.successfulResults.length = successes agentExecutor done
  completed : ∀ s ∈ done, c.allResults.get? s.stepId = some (resultOf (readTask agentExecutor) s)
  waiting : ∀ s ∈ pending, c.allResults.get? s.stepId = none

/-- What is collected when a task that can be read has completed. -/
def collect (agentExecutor : WorkflowStep → ExecOutcome) (c : Collected) (step : WorkflowStep) :
    Collected :=
  let stepResult := resultOf (readTask agentExecutor) step
  { successfulResults :=
      if stepResult.success then c.successfulResults ++ [stepResult] else c.successfulResults
    allResults := c.allResults.set stepResult.stepId stepResult }

/-- A batch is collected, unless one of its tasks cannot be read. -/
theorem collectAll_cases (agentExecutor : WorkflowStep → ExecOutcome) (batch : List WorkflowStep)
    (c : Collected) :
    (collectAll agentExecutor batch c = .ok (batch.foldl (collect agentExecutor) c) ∧
      ∀ s ∈ batch, ¬ Crashes agentExecutor s) ∨
    ∃ exc, collectAll agentExecutor batch c = .error exc ∧
      ∃ s ∈ batch, Crashes agentExecutor s := by
  induction batch generalizing c with
  | nil => exact Or.inl ⟨rfl, by simp⟩
  | cons s batch ih =>
    unfold collectAll
    by_cases hcrash : Crashes agentExecutor s
    · obtain ⟨exc, hexc⟩ := hcrash
      rw [hexc]
      exact Or.inr ⟨exc, rfl, s, List.mem_cons_self, exc, hexc⟩
    · rw [readTask_eq hcrash]
      rcases ih (collect agentExecutor c s) with ⟨hok, hreads⟩ | ⟨exc, herr, t, ht, hcrash'⟩
      · refine Or.inl ⟨hok, fun t ht => ?_⟩
        rcases List.mem_cons.mp ht with rfl | ht
        · exact hcrash
        · exact hreads t ht
      · exact Or.inr ⟨exc, herr, t, List.mem_cons_of_mem s ht, hcrash'⟩

/-- Collecting a completed step. -/
theorem LoopState.collect {s : WorkflowStep} (h : LoopState agentExecutor done pending c)
    (hnew : s.stepId ∉ stepIds done) {rest : List WorkflowStep} (hrest : rest ⊆ pending)
    (hs : s.stepId ∉ stepIds rest) :
    LoopState agentExecutor (done ++ [s]) rest (collect agentExecutor c s) := by
  have hget : ∀ x, (ConsensusWorkflow.collect agentExecutor c s).allResults.get? x =
      if x = s.stepId then some (resultOf (readTask agentExecutor) s)
      else c.allResults.get? x := by
    intro x
    unfold ConsensusWorkflow.collect
    dsimp only
    rw [Dict.get?_set, readTask_stepId]
  constructor
  · unfold ConsensusWorkflow.collect
    rw [successes_append, ← h.successful]
    cases hsucc : (resultOf (readTask agentExecutor) s).success with
    | true => simp [successes, hsucc]
    | false => simp [successes, hsucc]
  · intro t ht
    rw [hget]
    rcases List.mem_append.mp ht with ht | ht
    · have hne : t.stepId ≠ s.stepId := fun heq => hnew (heq ▸ List.mem_map_of_mem ht)
      rw [if_neg hne]
      exact h.completed t ht
    · obtain rfl := List.mem_singleton.mp ht
      rw [if_pos rfl]
  · intro t ht
    have hne : t.stepId ≠ s.stepId := fun heq => hs (heq ▸ List.mem_map_of_mem ht)
    rw [hget, if_neg hne]
    exact h.waiting t (hrest ht)

/-- Collecting a batch of completed steps. -/
theorem LoopState.collectBatch (h : LoopState agentExecutor done pending c)
    {rest : List WorkflowStep} (hids : (stepIds (done ++ batch ++ rest)).Nodup)
    (hsub : batch ++ rest ⊆ pending) :
    LoopState agentExecutor (done ++ batch) rest
      (batch.foldl (ConsensusWorkflow.collect agentExecutor) c) := by
  -- Induction on the batch: what is collected is done, the others are still pending.
  induction batch generalizing done pending c with
  | nil =>
    rw [List.append_nil, List.foldl_nil]
    exact ⟨h.successful, h.completed, fun s hs => h.waiting s (hsub hs)⟩
  | cons s batch ih =>
    have hids' : (stepIds (done ++ [s] ++ (batch ++ rest))).Nodup := by
      simpa [List.append_assoc] using hids
    have hparts := hids'
    rw [stepIds, List.map_append, List.map_append, List.nodup_append', List.nodup_append'] at hparts
    obtain ⟨⟨-, -, hdone⟩, -, hrest⟩ := hparts
    have hstep : LoopState agentExecutor (done ++ [s]) (batch ++ rest)
        (ConsensusWorkflow.collect agentExecutor c s) := by
      refine h.collect (fun hmem => hdone hmem (by simp)) (fun t ht => hsub ?_)
        (fun hmem => hrest (by simp) hmem)
      exact List.mem_cons_of_mem s ht
    rw [List.foldl_cons]
    have hrec := ih hstep (by simpa [List.append_assoc] using hids') (List.Subset.refl _)
    rwa [List.append_assoc, List.singleton_append] at hrec

/-- Cancelling steps sets their results. -/
theorem allResults_collectCancelled (c : Collected) :
    (pending.foldl (collectCancelled cancelOutcome) c).allResults =
      Dict.setAll (·.stepId) (cancelResult cancelOutcome) pending c.allResults := by
  induction pending generalizing c with
  | nil => rfl
  | cons s pending ih => exact ih _

/-- Cancelling steps records nothing for other steps. -/
theorem get?_collectCancelled_notMem {x : String} (hx : x ∉ stepIds pending) :
    (pending.foldl (collectCancelled cancelOutcome) c).allResults.get? x = c.allResults.get? x := by
  rw [allResults_collectCancelled, Dict.get?_setAll_of_notMem hx]

/-- Cancelling steps records a result for each of them. -/
theorem get?_collectCancelled_mem (hids : (stepIds pending).Nodup) {s : WorkflowStep}
    (hs : s ∈ pending) :
    (pending.foldl (collectCancelled cancelOutcome) c).allResults.get? s.stepId =
      some (cancelResult cancelOutcome s) := by
  rw [allResults_collectCancelled]
  exact Dict.get?_setAll_of_mem hids hs

/-- Cancelling steps collects no success. -/
theorem successfulResults_collectCancelled (c : Collected) :
    (pending.foldl (collectCancelled cancelOutcome) c).successfulResults = c.successfulResults := by
  induction pending generalizing c with
  | nil => rfl
  | cons s pending ih =>
    rw [List.foldl_cons, ih]
    rfl

/-! ## Where the loop ends -/

/-- Where the loop ends: `finished` have completed and `r.cancelled` have not. Either the quorum is
met, or it is out of reach. -/
structure LoopEnd (agentExecutor : WorkflowStep → ExecOutcome)
    (cancelOutcome : WorkflowStep → CancelOutcome) (required : ℕ) (finished : List WorkflowStep)
    (r : LoopResult) : Prop where
  successful : r.collected.successfulResults.length = successes agentExecutor finished
  completed : ∀ s ∈ finished,
    r.collected.allResults.get? s.stepId = some (resultOf (readTask agentExecutor) s)
  met : r.quorumMet = true → required ≤ successes agentExecutor finished ∧
    ∀ s ∈ r.cancelled, r.collected.allResults.get? s.stepId = some (cancelResult cancelOutcome s)
  unmet : r.quorumMet = false →
    successes agentExecutor finished + r.cancelled.length < required ∧
      ∀ s ∈ r.cancelled, r.collected.allResults.get? s.stepId = none

/-- Meeting the quorum ends the loop, with the pending steps cancelled and recorded. -/
theorem LoopState.quorumMet (h : LoopState agentExecutor done pending c)
    (hids : (stepIds (done ++ pending)).Nodup) (hmet : required ≤ successes agentExecutor done) :
    LoopEnd agentExecutor cancelOutcome required done
      ⟨pending.foldl (collectCancelled cancelOutcome) c, true, pending⟩ := by
  rw [stepIds, List.map_append] at hids
  obtain ⟨-, hpending, hdisj⟩ := List.nodup_append'.mp hids
  refine ⟨?_, fun s hs => ?_, fun _ => ⟨hmet, fun s hs => get?_collectCancelled_mem hpending hs⟩,
    fun hfalse => by cases hfalse⟩
  · rw [successfulResults_collectCancelled, h.successful]
  · have hs' : s.stepId ∉ stepIds pending := fun hp => hdisj (List.mem_map_of_mem hs) hp
    rw [get?_collectCancelled_notMem hs']
    exact h.completed s hs

/-- A quorum out of reach ends the loop, with the pending steps cancelled and not recorded. -/
theorem LoopState.unachievable (h : LoopState agentExecutor done pending c)
    (hout : successes agentExecutor done + pending.length < required) :
    LoopEnd agentExecutor cancelOutcome required done ⟨c, false, pending⟩ :=
  ⟨h.successful, h.completed, fun hfalse => (by cases hfalse), fun _ => ⟨hout, h.waiting⟩⟩

/-- The quorum is neither met nor out of reach: the loop goes on. -/
def Undecided (agentExecutor : WorkflowStep → ExecOutcome) (required total : ℕ)
    (finished : List WorkflowStep) : Prop :=
  successes agentExecutor finished < required ∧
    failures agentExecutor finished + required ≤ total

/-- A batch cannot be read, or it is collected: then it decides, one way or the other, or the loop
goes on with the others. -/
theorem LoopState.batch_cases (hstate : LoopState agentExecutor done pending c)
    (hids : (stepIds (done ++ pending)).Nodup)
    (hbatches : ∀ b ∈ batch :: batches, b ≠ [])
    (hperm : (batch :: batches).flatten.Perm pending) :
    ∃ rest, batches.flatten.Perm rest ∧ (done ++ batch ++ rest).Perm (done ++ pending) ∧
      ∀ (cancelOutcome : WorkflowStep → CancelOutcome) (required : ℕ),
        (∃ exc, completionLoop agentExecutor cancelOutcome required (batch :: batches) pending c =
            .error exc ∧ ∃ s ∈ batch, Crashes agentExecutor s) ∨
        ∃ c', (∀ s ∈ batch, ¬ Crashes agentExecutor s) ∧
          LoopState agentExecutor (done ++ batch) rest c' ∧
          (stepIds (done ++ batch ++ rest)).Nodup ∧
          ((∃ r, completionLoop agentExecutor cancelOutcome required (batch :: batches) pending c =
              .ok r ∧ (done ++ batch ++ r.cancelled).Perm (done ++ pending) ∧
              LoopEnd agentExecutor cancelOutcome required (done ++ batch) r) ∨
            (successes agentExecutor (done ++ batch) < required ∧
              required ≤ successes agentExecutor (done ++ batch) + rest.length) ∧
            completionLoop agentExecutor cancelOutcome required (batch :: batches) pending c =
              completionLoop agentExecutor cancelOutcome required batches rest c') := by
  rw [List.flatten_cons] at hperm
  have hpending : pending ≠ [] := pending_ne_nil (hbatches batch List.mem_cons_self) hperm
  have hnodup : pending.Nodup := (List.nodup_append'.mp (List.Nodup.of_map _ hids)).2.1
  have hrest := perm_filter_notMem hperm hnodup
  set rest := pending.filter fun s => s ∉ batch with hrestDef
  have hbatchRest : (batch ++ rest).Perm pending := (hrest.symm.append_left batch).trans hperm
  have hsplit : (done ++ batch ++ rest).Perm (done ++ pending) := by
    rw [List.append_assoc]
    exact hbatchRest.append_left done
  have hids' : (stepIds (done ++ batch ++ rest)).Nodup := (hsplit.map _).nodup_iff.mpr hids
  refine ⟨rest, hrest, hsplit, fun cancelOutcome required => ?_⟩
  rw [completionLoop.eq_2, if_neg hpending]
  dsimp only
  rw [← hrestDef]
  rcases collectAll_cases agentExecutor batch c with ⟨hok, hreads⟩ | ⟨exc, herr, hcrash⟩
  · rw [hok]
    have hcollected := hstate.collectBatch hids' hbatchRest.subset
    refine Or.inr ⟨_, hreads, hcollected, hids', ?_⟩
    dsimp only
    rw [hcollected.successful]
    by_cases hmet : required ≤ successes agentExecutor (done ++ batch)
    · rw [if_pos hmet]
      exact Or.inl ⟨_, rfl, hsplit, hcollected.quorumMet hids' hmet⟩
    · rw [if_neg hmet]
      by_cases hout : successes agentExecutor (done ++ batch) + rest.length < required
      · rw [if_pos hout]
        exact Or.inl ⟨_, rfl, hsplit, hcollected.unachievable hout⟩
      · rw [if_neg hout]
        exact Or.inr ⟨⟨Nat.lt_of_not_le hmet, not_lt.mp hout⟩, rfl⟩
  · rw [herr]
    exact Or.inl ⟨exc, rfl, hcrash⟩

/-- The loop ends after the first batches that decide whether the quorum can be met, or in the batch
after some that do not, in which a task cannot be read. -/
theorem LoopState.completionLoop_cases (hstate : LoopState agentExecutor done pending c)
    (cancelOutcome : WorkflowStep → CancelOutcome) (required : ℕ)
    (hids : (stepIds (done ++ pending)).Nodup)
    (hbatches : ∀ b ∈ batch :: batches, b ≠ [])
    (hperm : (batch :: batches).flatten.Perm pending) :
    (∃ m r, completionLoop agentExecutor cancelOutcome required (batch :: batches) pending c =
        .ok r ∧
      let finished := done ++ ((batch :: batches).take (m + 1)).flatten
      (finished ++ r.cancelled).Perm (done ++ pending) ∧
      LoopEnd agentExecutor cancelOutcome required finished r ∧
      (∀ s ∈ ((batch :: batches).take (m + 1)).flatten, ¬ Crashes agentExecutor s) ∧
      ∀ j < m, Undecided agentExecutor required (done ++ pending).length
        (done ++ ((batch :: batches).take (j + 1)).flatten)) ∨
    ∃ m exc, completionLoop agentExecutor cancelOutcome required (batch :: batches) pending c =
        .error exc ∧
      (∃ s ∈ ((batch :: batches).take (m + 1)).flatten, Crashes agentExecutor s) ∧
      ∀ j < m, Undecided agentExecutor required (done ++ pending).length
        (done ++ ((batch :: batches).take (j + 1)).flatten) := by
  -- Induction on the batches, with the steps of the earlier ones in `done`.
  induction batches generalizing batch done pending c with
  | nil =>
    have hall := hstate.batch_cases hids hbatches hperm
    obtain ⟨rest, hrest, hsplit, hunfold⟩ := hall
    -- No batch is left, so no step is pending: the quorum is met or out of reach.
    have hnil : rest = [] := by simpa using hrest.length_eq.symm
    rcases hunfold cancelOutcome required with
      ⟨exc, herr, hcrash⟩ | ⟨c', hreads, hstate', hids', hdecide⟩
    · exact Or.inr ⟨0, exc, herr, by simpa using hcrash, by simp⟩
    · rcases hdecide with ⟨r, hok, hperm', hend⟩ | ⟨⟨hmet, hout⟩, -⟩
      · exact Or.inl ⟨0, r, hok, by simpa using hperm', by simpa using hend, by simpa using hreads,
          by simp⟩
      · rw [hnil, List.length_nil] at hout
        omega
  | cons next batches ih =>
    obtain ⟨rest, hrest, hsplit, hunfold⟩ := hstate.batch_cases hids hbatches hperm
    have htake : ∀ j, done ++ ((batch :: next :: batches).take (j + 1)).flatten =
        done ++ batch ++ ((next :: batches).take j).flatten := by
      intro j
      rw [List.take_succ_cons, List.flatten_cons, List.append_assoc]
    have hone : done ++ ((batch :: next :: batches).take (0 + 1)).flatten = done ++ batch := by
      rw [htake 0, List.take_zero, List.flatten_nil, List.append_nil]
    have hmem : ∀ m s, s ∈ ((batch :: next :: batches).take (m + 1)).flatten ↔
        s ∈ batch ∨ s ∈ ((next :: batches).take m).flatten := by
      intro m s
      rw [List.take_succ_cons, List.flatten_cons, List.mem_append]
    rcases hunfold cancelOutcome required with ⟨exc, herr, s, hs, hcrash⟩ |
      ⟨c', hreads, hstate', hids', hdecide⟩
    · exact Or.inr ⟨0, exc, herr, ⟨s, (hmem 0 s).mpr (Or.inl hs), hcrash⟩, by simp⟩
    · rcases hdecide with ⟨r, hok, hperm', hend⟩ | ⟨⟨hmet, hout⟩, hgo⟩
      · refine Or.inl ⟨0, r, hok, by rwa [hone], by rwa [hone], fun s hs => ?_, by simp⟩
        rcases (hmem 0 s).mp hs with hs | hs
        · exact hreads s hs
        · simp at hs
      · -- This batch does not decide, and the induction takes the rest of the batches.
        have hcount := successes_add_failures agentExecutor (done ++ batch)
        have hundecided : Undecided agentExecutor required (done ++ pending).length
            (done ++ batch) := by
          have hlength := hsplit.length_eq
          rw [List.length_append] at hlength
          exact ⟨hmet, by omega⟩
        have hbatches' : ∀ b ∈ next :: batches, b ≠ [] :=
          fun b hb => hbatches b (List.mem_cons_of_mem _ hb)
        have hfirst : ∀ m, (∀ j < m, Undecided agentExecutor required (done ++ batch ++ rest).length
              (done ++ batch ++ ((next :: batches).take (j + 1)).flatten)) →
            ∀ j < m + 1, Undecided agentExecutor required (done ++ pending).length
              (done ++ ((batch :: next :: batches).take (j + 1)).flatten) := by
          intro m hall j hj
          cases j with
          | zero => rwa [hone]
          | succ j =>
            rw [htake, ← hsplit.length_eq]
            exact hall j (Nat.lt_of_succ_lt_succ hj)
        rw [hgo]
        rcases ih hstate' hids' hbatches' hrest with
          ⟨m, r, hok, hperm', hend, hreads', hall⟩ | ⟨m, exc, herr, ⟨s, hs, hcrash⟩, hall⟩
        · refine Or.inl ⟨m + 1, r, hok, ?_, ?_, fun s hs => ?_, hfirst m hall⟩
          · rw [htake]
            exact hperm'.trans hsplit
          · rwa [htake]
          · rcases (hmem _ s).mp hs with hs | hs
            · exact hreads s hs
            · exact hreads' s hs
        · exact Or.inr ⟨m + 1, exc, herr, ⟨s, (hmem _ s).mpr (Or.inr hs), hcrash⟩, hfirst m hall⟩

end Loop

/-! ## Executions -/

section Execute

variable {w : ConsensusWorkflow} {agentExecutor : WorkflowStep → ExecOutcome}
  {cancelOutcome : WorkflowStep → CancelOutcome} {product : Product} {steps : List WorkflowStep}

/-- The results that the loop left, in the order of the steps. -/
def LoopResult.ordered (r : LoopResult) (steps : List WorkflowStep) : List StepResult :=
  steps.filterMap fun s => r.collected.allResults.get? s.stepId

/-- The trailing result of an execution that met the quorum. -/
def consensusResult (r : LoopResult) : StepResult :=
  { stepId := "__consensus__", success := true,
    output := some (mergeOutputs r.collected.successfulResults) }

/-- What `execute` makes of what the loop left. -/
def LoopResult.execution (r : LoopResult) (steps : List WorkflowStep) : ConsensusExecution :=
  if r.quorumMet then
    ⟨⟨r.ordered steps ++ [consensusResult r], .SUCCESS⟩, r.cancelled⟩
  else
    ⟨⟨r.ordered steps, if r.collected.successfulResults ≠ [] then .PARTIAL else .FAILED⟩,
      r.cancelled⟩

/-- The status is `SUCCESS` exactly when the loop met the quorum. -/
theorem execution_status_iff (r : LoopResult) :
    (r.execution steps).result.status = .SUCCESS ↔ r.quorumMet = true := by
  unfold LoopResult.execution
  cases r.quorumMet with
  | true => simp
  | false =>
    rw [if_neg (by simp)]
    dsimp only
    split_ifs
    · simp
    · simp

/-- `execute` returns where the loop ends, or raises in a batch with a task that cannot be read. -/
theorem execute_cases (product : Product) (w : ConsensusWorkflow)
    (agentExecutor : WorkflowStep → ExecOutcome) (cancelOutcome : WorkflowStep → CancelOutcome)
    (hids : (stepIds steps).Nodup) (hsteps : steps ≠ []) (schedule : Schedule steps) :
    (∃ m r, execute agentExecutor cancelOutcome product w steps schedule =
        .ok (r.execution steps) ∧
      (schedule.completed (m + 1) ++ r.cancelled).Perm steps ∧
      LoopEnd agentExecutor cancelOutcome (w.requiredQuorum product steps)
        (schedule.completed (m + 1)) r ∧
      (∀ s ∈ schedule.completed (m + 1), ¬ Crashes agentExecutor s) ∧
      ∀ j < m, Undecided agentExecutor (w.requiredQuorum product steps) steps.length
        (schedule.completed (j + 1))) ∨
    ∃ m exc, execute agentExecutor cancelOutcome product w steps schedule = .error exc ∧
      (∃ s ∈ schedule.completed (m + 1), Crashes agentExecutor s) ∧
      ∀ j < m, Undecided agentExecutor (w.requiredQuorum product steps) steps.length
        (schedule.completed (j + 1)) := by
  have hstate : LoopState agentExecutor [] steps {} :=
    ⟨rfl, fun s hs => (by cases hs), fun s _ => rfl⟩
  obtain ⟨batches, hnonempty, hperm⟩ := schedule
  unfold execute Schedule.completed
  rw [if_neg hsteps]
  cases batches with
  | nil => exact absurd (List.nil_perm.mp hperm) hsteps
  | cons batch batches =>
    rcases hstate.completionLoop_cases cancelOutcome (w.requiredQuorum product steps) hids hnonempty
        hperm with
      ⟨m, r, hok, hperm', hend, hreads, hall⟩ | ⟨m, exc, herr, hcrash, hall⟩
    · rw [hok]
      refine Or.inl ⟨m, r, ?_, hperm', hend, hreads, hall⟩
      unfold LoopResult.execution
      dsimp only
      split_ifs
      · rfl
      · rfl
      · rfl
    · rw [herr]
      exact Or.inr ⟨m, exc, rfl, hcrash, hall⟩

/-- The steps that have completed and those that were cancelled are all. -/
theorem successes_of_perm (agentExecutor : WorkflowStep → ExecOutcome)
    {finished cancelled : List WorkflowStep}
    (hperm : (finished ++ cancelled).Perm steps) :
    successes agentExecutor finished + successes agentExecutor cancelled =
      successes agentExecutor steps := by
  rw [← successes_append]
  exact hperm.countP_eq _

/-- The size of the quorum in the merged output. -/
theorem mergeOutputs_quorumSize (successfulResults : List StepResult) :
    Dict.get? (mergeOutputs successfulResults) "__quorum_size__" =
      some (.int successfulResults.length) := by
  unfold mergeOutputs
  rw [Dict.get?_set, if_pos rfl]

/-- The quorum is declared after the first batches with enough successes. -/
def DeclaredAt (w : ConsensusWorkflow) (agentExecutor : WorkflowStep → ExecOutcome)
    (schedule : Schedule steps) (m : ℕ) : Prop :=
  w.requiredQuorum exactProduct steps ≤ successes agentExecutor (schedule.completed m) ∧
    ∀ j < m, successes agentExecutor (schedule.completed j) < w.requiredQuorum exactProduct steps

/-- With steps that each succeed or fail when they run to completion, `execute` returns. Whenever it
returns, the verdict does not depend on the schedule: the status is `SUCCESS` exactly when enough
steps succeed. The size of the quorum is then the number of successes when it was declared. -/
theorem execute_verdict (w : ConsensusWorkflow) (agentExecutor : WorkflowStep → ExecOutcome)
    (cancelOutcome : WorkflowStep → CancelOutcome) (hids : (stepIds steps).Nodup)
    (hsteps : steps ≠ []) (schedule : Schedule steps) :
    ((∀ s ∈ steps, ¬ Crashes agentExecutor s) →
      ∃ e, execute agentExecutor cancelOutcome exactProduct w steps schedule = .ok e) ∧
    ∀ e, execute agentExecutor cancelOutcome exactProduct w steps schedule = .ok e →
      (e.result.status = .SUCCESS ↔
        ⌈(steps.length : ℚ) * w.quorumFraction⌉₊ ≤ successes agentExecutor steps) ∧
      (e.result.status = .SUCCESS →
        ∃ m, w.DeclaredAt agentExecutor schedule m ∧ ∃ merged : Output,
          e.result.stepResults.getLast? =
            some { stepId := "__consensus__", success := true, output := some merged } ∧
          Dict.get? merged "__quorum_size__" =
            some (.int (successes agentExecutor (schedule.completed m)))) := by
  change _ ∧ ∀ e, _ → (_ ↔ w.requiredQuorum exactProduct steps ≤ _) ∧ _
  rcases execute_cases exactProduct w agentExecutor cancelOutcome hids hsteps schedule with
    ⟨m, r, hok, hperm, hend, -, hfirst⟩ | ⟨m, exc, herr, ⟨s, hs, hcrash⟩, -⟩
  · refine ⟨fun _ => ⟨_, hok⟩, fun e he => ?_⟩
    obtain rfl := Except.ok.inj (hok.symm.trans he)
    have hcount := successes_of_perm agentExecutor hperm
    rw [execution_status_iff]
    refine ⟨⟨fun hmet => ?_, fun henough => ?_⟩, fun hmet => ?_⟩
    · have hquorum := (hend.met hmet).1
      omega
    · -- The cancelled steps could not have made up for the missing successes.
      by_contra hnot
      have hout := (hend.unmet (Bool.eq_false_iff.mpr hnot)).1
      have hle := successes_le_length agentExecutor r.cancelled
      omega
    · have hpos := w.requiredQuorum_pos hsteps
      refine ⟨m + 1, ⟨(hend.met hmet).1, fun j hj => ?_⟩,
        mergeOutputs r.collected.successfulResults, ?_, ?_⟩
      · cases j with
        | zero => exact hpos
        | succ j => exact (hfirst j (Nat.lt_of_succ_lt_succ hj)).1
      · unfold LoopResult.execution
        rw [if_pos hmet]
        exact List.getLast?_concat
      · rw [mergeOutputs_quorumSize, hend.successful]
  · have hmem : s ∈ steps := schedule.completed_mem hs
    refine ⟨fun hreads => absurd hcrash (hreads s hmem), fun e he => ?_⟩
    cases he.symm.trans herr

end Execute

/-! ## Three voters -/

/-- Two thirds of the agents, the default fraction. -/
def twoThirds : ConsensusWorkflow := ⟨2 / 3, by decide +kernel, by decide +kernel⟩

/-- One step for each of three agents. -/
def threeVoters : List WorkflowStep :=
  [{ agentId := "agent-1", action := "vote", stepId := "s1" },
    { agentId := "agent-2", action := "vote", stepId := "s2" },
    { agentId := "agent-3", action := "vote", stepId := "s3" }]

/-- The agent of the step `s1` raises, and the others return. -/
def firstRaises (step : WorkflowStep) : ExecOutcome :=
  if step.stepId = "s1" then .raised (.printable .exception "RuntimeError" "no vote")
  else .returned .empty

/-- The steps complete one after another. -/
def oneByOne : Schedule threeVoters :=
  ⟨threeVoters.map fun s => [s], by decide, by decide⟩

/-- Two of three votes are a quorum of two thirds, though the first to complete fails. -/
theorem execute_verdict_twoThirds :
    ∃ e, execute firstRaises (fun _ => .cancelledError) exactProduct twoThirds threeVoters
        oneByOne = .ok e ∧
      e.result.status = .SUCCESS ∧
      ∃ m, twoThirds.DeclaredAt firstRaises oneByOne m ∧ ∃ merged : Output,
        e.result.stepResults.getLast? =
          some { stepId := "__consensus__", success := true, output := some merged } ∧
        Dict.get? merged "__quorum_size__" =
          some (.int (successes firstRaises (oneByOne.completed m))) := by
  obtain ⟨hreturns, hverdict⟩ := execute_verdict twoThirds firstRaises (fun _ => .cancelledError)
    (by decide) (by decide) oneByOne
  have hreads : ∀ s ∈ threeVoters, ¬ Crashes firstRaises s := by
    intro s hs
    have hok : ∀ s ∈ threeVoters, (readTask firstRaises s).isOk = true := by decide
    rintro ⟨exc, hexc⟩
    have hisOk := hok s hs
    rw [hexc] at hisOk
    cases hisOk
  obtain ⟨e, he⟩ := hreturns hreads
  have hstatus := (hverdict e he).1.mpr (by decide +kernel)
  exact ⟨e, he, hstatus, (hverdict e he).2 hstatus⟩

end ConsensusWorkflow

end MeshRouter.Workflows
