import MeshRouter.Workflows.Quorum

/-!
# The results of the consensus workflow

Which steps the results account for. A complete execution has one entry for every step, with a
failure for each step that was cancelled. When the quorum is met the executor records the cancelled
steps, as their tasks end. When it is out of reach the cancelled steps have no entry.
`execute_complete_iff` says for which outcomes and schedules the results are complete: those in
which no batch puts the quorum out of reach while steps are pending, no task is read that raises
once more, and no step that is cancelled ends with a success.
-/

namespace MeshRouter.Workflows.ConsensusWorkflow

open Lib

variable {w : ConsensusWorkflow} {agentExecutor : WorkflowStep → ExecOutcome}
  {cancelOutcome : WorkflowStep → CancelOutcome} {product : Product} {steps : List WorkflowStep}

/-- The results have one entry for every step, in input order, with the cancelled steps as failures,
and a trailing consensus entry when the status is `SUCCESS`. -/
def Complete (steps : List WorkflowStep) (e : ConsensusExecution) : Prop :=
  ∃ entries trailing, e.result.stepResults = entries ++ trailing ∧
    entries.map (·.stepId) = stepIds steps ∧
    (∀ s ∈ e.cancelled, ∀ r ∈ entries, r.stepId = s.stepId → r.success = false) ∧
    trailing.map (·.stepId) = if e.result.status = .SUCCESS then ["__consensus__"] else []

/-- The number of failed steps after no batch that leaves a step pending exceeds what the quorum
allows. -/
def WithinReach (product : Product) (w : ConsensusWorkflow)
    (agentExecutor : WorkflowStep → ExecOutcome) (schedule : Schedule steps) : Prop :=
  ∀ m, (∃ s ∈ steps, s ∉ schedule.completed (m + 1)) →
    failures agentExecutor (schedule.completed (m + 1)) + w.requiredQuorum product steps ≤
      steps.length

/-- After none of the first `m` batches have enough steps succeeded. -/
def Undeclared (product : Product) (w : ConsensusWorkflow)
    (agentExecutor : WorkflowStep → ExecOutcome) (schedule : Schedule steps) (m : ℕ) : Prop :=
  ∀ j < m, successes agentExecutor (schedule.completed (j + 1)) < w.requiredQuorum product steps

/-- Every task can be read that completes before enough steps have succeeded, or in the batch with
which they have. -/
def Readable (product : Product) (w : ConsensusWorkflow)
    (agentExecutor : WorkflowStep → ExecOutcome) (schedule : Schedule steps) : Prop :=
  ∀ m, w.Undeclared product agentExecutor schedule m →
    ∀ s ∈ schedule.completed (m + 1), ¬ Crashes agentExecutor s

/-- Of the steps that are pending when enough steps have succeeded, none ends with a success. -/
def LosersFail (product : Product) (w : ConsensusWorkflow)
    (agentExecutor : WorkflowStep → ExecOutcome) (cancelOutcome : WorkflowStep → CancelOutcome)
    (schedule : Schedule steps) : Prop :=
  ∀ m, w.Undeclared product agentExecutor schedule m →
    w.requiredQuorum product steps ≤ successes agentExecutor (schedule.completed (m + 1)) →
    ∀ s ∈ steps, s ∉ schedule.completed (m + 1) → (cancelResult cancelOutcome s).success = false

/-- More batches complete more steps. -/
theorem completed_subset (schedule : Schedule steps) {m m' : ℕ} (hle : m ≤ m') :
    schedule.completed m ⊆ schedule.completed m' := by
  obtain ⟨k, rfl⟩ := Nat.exists_eq_add_of_le hle
  rw [Schedule.completed, Schedule.completed, List.take_add, List.flatten_append]
  exact List.subset_append_left _ _

/-- The failures of some of the steps are failures of all. -/
theorem failures_completed_le (agentExecutor : WorkflowStep → ExecOutcome)
    (schedule : Schedule steps) (m : ℕ) :
    failures agentExecutor (schedule.completed m) ≤ failures agentExecutor steps := by
  rw [failures, failures, ← schedule.perm.countP_eq]
  exact (schedule.completed_sublist m).countP_le

/-- The successes of some of the steps are successes of all. -/
theorem successes_completed_le (agentExecutor : WorkflowStep → ExecOutcome)
    (schedule : Schedule steps) (m : ℕ) :
    successes agentExecutor (schedule.completed m) ≤ successes agentExecutor steps := by
  rw [successes, successes, ← schedule.perm.countP_eq]
  exact (schedule.completed_sublist m).countP_le

/-- Where every step has a recorded result of its own, the ordered results are one for each. -/
theorem LoopResult.map_stepId_ordered {r : LoopResult}
    (hall : ∀ s ∈ steps, ∃ result, r.collected.allResults.get? s.stepId = some result ∧
      result.stepId = s.stepId) :
    (r.ordered steps).map (·.stepId) = stepIds steps := by
  unfold LoopResult.ordered
  induction steps with
  | nil => rfl
  | cons s steps ih =>
    obtain ⟨result, hget, hid⟩ := hall s List.mem_cons_self
    have hrest := ih fun t ht => hall t (List.mem_cons_of_mem s ht)
    rw [List.filterMap_cons, hget, stepIds, List.map_cons, List.map_cons, hrest, hid]
    rfl

/-- The ordered results are the recorded results of the steps. -/
theorem LoopResult.mem_ordered {r : LoopResult} {result : StepResult} :
    result ∈ r.ordered steps ↔ ∃ s ∈ steps, r.collected.allResults.get? s.stepId = some result := by
  unfold LoopResult.ordered
  rw [List.mem_filterMap]

section End

variable {required : ℕ} {finished : List WorkflowStep} {r : LoopResult}

/-- A recorded result has the id of its step. -/
theorem LoopEnd.stepId_eq (h : LoopEnd agentExecutor cancelOutcome required finished r)
    (hperm : (finished ++ r.cancelled).Perm steps) {s : WorkflowStep} (hs : s ∈ steps)
    {result : StepResult} (hget : r.collected.allResults.get? s.stepId = some result) :
    result.stepId = s.stepId := by
  rcases List.mem_append.mp (hperm.mem_iff.mpr hs) with hf | hc
  · rw [h.completed s hf] at hget
    obtain rfl := Option.some.inj hget
    exact readTask_stepId agentExecutor s
  · cases hmet : r.quorumMet with
    | true =>
      rw [(h.met hmet).2 s hc] at hget
      obtain rfl := Option.some.inj hget
      exact cancelResult_stepId cancelOutcome s
    | false =>
      rw [(h.unmet hmet).2 s hc] at hget
      cases hget

/-- When the quorum is met, every step has a result. -/
theorem LoopEnd.recorded_of_met (h : LoopEnd agentExecutor cancelOutcome required finished r)
    (hperm : (finished ++ r.cancelled).Perm steps) (hmet : r.quorumMet = true) {s : WorkflowStep}
    (hs : s ∈ steps) : ∃ result, r.collected.allResults.get? s.stepId = some result := by
  rcases List.mem_append.mp (hperm.mem_iff.mpr hs) with hf | hc
  · exact ⟨_, h.completed s hf⟩
  · exact ⟨_, (h.met hmet).2 s hc⟩

/-- When the quorum is met, the results are complete exactly if no cancelled step has a success. -/
theorem complete_met_iff (h : LoopEnd agentExecutor cancelOutcome required finished r)
    (hids : (stepIds steps).Nodup) (hperm : (finished ++ r.cancelled).Perm steps)
    (hmet : r.quorumMet = true) :
    Complete steps ⟨⟨r.ordered steps ++ [consensusResult r], .SUCCESS⟩, r.cancelled⟩ ↔
      ∀ s ∈ r.cancelled, (cancelResult cancelOutcome s).success = false := by
  constructor
  · rintro ⟨entries, trailing, hresults, -, hfail, htrailing⟩ s hs
    -- The trailing entry is the consensus result, so the entries are the ordered results.
    rw [if_pos rfl] at htrailing
    obtain ⟨result, rfl⟩ := List.length_eq_one_iff.mp
      (by simpa using congrArg List.length htrailing)
    obtain ⟨rfl, -⟩ := List.append_inj' hresults rfl
    have hs' : s ∈ steps := hperm.mem_iff.mp (List.mem_append_right _ hs)
    have hget := (h.met hmet).2 s hs
    exact hfail s hs _ (LoopResult.mem_ordered.mpr ⟨s, hs', hget⟩)
      (cancelResult_stepId cancelOutcome s)
  · refine fun hfail => ⟨r.ordered steps, [consensusResult r], rfl, ?_,
      fun s hs result hresult hid => ?_, rfl⟩
    · refine LoopResult.map_stepId_ordered fun s hs => ?_
      obtain ⟨result, hget⟩ := h.recorded_of_met hperm hmet hs
      exact ⟨result, hget, h.stepId_eq hperm hs hget⟩
    · obtain ⟨t, ht, hget⟩ := LoopResult.mem_ordered.mp hresult
      have hs' : s ∈ steps := hperm.mem_iff.mp (List.mem_append_right _ hs)
      obtain rfl := List.inj_on_of_nodup_map hids ht hs'
        ((h.stepId_eq hperm ht hget).symm.trans hid)
      rw [(h.met hmet).2 t hs] at hget
      obtain rfl := Option.some.inj hget
      exact hfail t hs

/-- When the quorum is out of reach, the results are complete exactly when nothing was cancelled. -/
theorem complete_unmet_iff (h : LoopEnd agentExecutor cancelOutcome required finished r)
    (hperm : (finished ++ r.cancelled).Perm steps) (hmet : r.quorumMet = false)
    {status : WorkflowStatus} (hstatus : status ≠ .SUCCESS) :
    Complete steps ⟨⟨r.ordered steps, status⟩, r.cancelled⟩ ↔ r.cancelled = [] := by
  constructor
  · rintro ⟨entries, trailing, hresults, hentries, -, htrailing⟩
    rw [if_neg hstatus, List.map_eq_nil_iff] at htrailing
    rw [htrailing, List.append_nil] at hresults
    -- A cancelled step would have an entry, which only a completed step of its id could have left.
    refine List.eq_nil_iff_forall_not_mem.mpr fun s hs => ?_
    have hs' : s ∈ steps := hperm.mem_iff.mp (List.mem_append_right _ hs)
    have hentry : s.stepId ∈ entries.map (·.stepId) := hentries ▸ List.mem_map_of_mem hs'
    obtain ⟨result, hresult, hid⟩ := List.mem_map.mp hentry
    rw [← hresults] at hresult
    obtain ⟨t, ht, hget⟩ := LoopResult.mem_ordered.mp hresult
    have hsame : t.stepId = s.stepId := (h.stepId_eq hperm ht hget).symm.trans hid
    rw [hsame, (h.unmet hmet).2 s hs] at hget
    cases hget
  · intro hnone
    refine ⟨r.ordered steps, [], (List.append_nil _).symm, ?_, fun s hs => ?_, ?_⟩
    · refine LoopResult.map_stepId_ordered fun s hs => ?_
      have hf : s ∈ finished := by simpa [hnone] using hperm.mem_iff.mpr hs
      exact ⟨_, h.completed s hf, readTask_stepId agentExecutor s⟩
    · dsimp only at hs
      rw [hnone] at hs
      cases hs
    · rw [if_neg hstatus]
      rfl

end End

/-- Where nothing is cancelled, the steps that have completed are all. -/
theorem mem_completed_of_nil {m : ℕ} {schedule : Schedule steps} {cancelled : List WorkflowStep}
    (hperm : (schedule.completed m ++ cancelled).Perm steps) (hnone : cancelled = [])
    {s : WorkflowStep} (hs : s ∈ steps) : s ∈ schedule.completed m := by
  simpa [hnone] using hperm.mem_iff.mpr hs

/-- A cancelled step has not completed. -/
theorem notMem_completed {m : ℕ} {schedule : Schedule steps} {cancelled : List WorkflowStep}
    (hids : (stepIds steps).Nodup) (hperm : (schedule.completed m ++ cancelled).Perm steps)
    {s : WorkflowStep} (hs : s ∈ cancelled) : s ∉ schedule.completed m := by
  have hnodup := List.Nodup.of_map _ ((hperm.map _).nodup_iff.mpr hids)
  exact fun hf => (List.nodup_append'.mp hnodup).2.2 hf hs

section Conditions

variable {schedule : Schedule steps} {m : ℕ} {cancelled : List WorkflowStep}

/-- Where enough steps succeed, no batch brings too many failures. -/
theorem withinReach_of_enough
    (h : w.requiredQuorum product steps ≤ successes agentExecutor steps) :
    w.WithinReach product agentExecutor schedule := by
  intro m _
  have htotal := successes_add_failures agentExecutor steps
  have hle := failures_completed_le agentExecutor schedule (m + 1)
  omega

/-- Where enough steps have succeeded with the batch `m`, no batch after it is read. -/
theorem Undeclared.le {k : ℕ} (hk : w.Undeclared product agentExecutor schedule k)
    (hquorum : w.requiredQuorum product steps ≤
      successes agentExecutor (schedule.completed (m + 1))) : k ≤ m := by
  by_contra hlt
  have hless := hk m (by omega)
  omega

/-- Once the quorum is declared, the condition on the losers is one on the cancelled steps. -/
theorem losersFail_iff (hids : (stepIds steps).Nodup)
    (hperm : (schedule.completed (m + 1) ++ cancelled).Perm steps)
    (hquorum : w.requiredQuorum product steps ≤
      successes agentExecutor (schedule.completed (m + 1)))
    (hbefore : w.Undeclared product agentExecutor schedule m) :
    w.LosersFail product agentExecutor cancelOutcome schedule ↔
      ∀ s ∈ cancelled, (cancelResult cancelOutcome s).success = false := by
  constructor
  · intro hfail s hs
    exact hfail m hbefore hquorum s (hperm.mem_iff.mp (List.mem_append_right _ hs))
      (notMem_completed hids hperm hs)
  · intro hfail k hk hdeclared s hs hnot
    have hkm : k = m := Nat.le_antisymm (hk.le hquorum) (hbefore.le hdeclared)
    rw [hkm] at hnot
    exact hfail s ((List.mem_append.mp (hperm.mem_iff.mpr hs)).resolve_left hnot)

/-- Once the quorum is out of reach, nothing is cancelled exactly if it went out of reach with the
last batch. -/
theorem cancelled_eq_nil_iff (hids : (stepIds steps).Nodup)
    (hperm : (schedule.completed (m + 1) ++ cancelled).Perm steps)
    (hout : successes agentExecutor (schedule.completed (m + 1)) + cancelled.length <
      w.requiredQuorum product steps)
    (hfirst : ∀ j < m, Undecided agentExecutor (w.requiredQuorum product steps) steps.length
      (schedule.completed (j + 1))) :
    cancelled = [] ↔ w.WithinReach product agentExecutor schedule := by
  constructor
  · intro hnone k hpending
    rcases Nat.lt_or_ge k m with hk | hk
    · exact (hfirst k hk).2
    · obtain ⟨s, hs, hnot⟩ := hpending
      exact absurd (completed_subset schedule (Nat.succ_le_succ hk)
        (mem_completed_of_nil hperm hnone hs)) hnot
  · intro hreach
    by_contra hsome
    obtain ⟨s, hs⟩ := List.exists_mem_of_ne_nil _ hsome
    have hle := hreach m ⟨s, hperm.mem_iff.mp (List.mem_append_right _ hs),
      notMem_completed hids hperm hs⟩
    have hfinished := successes_add_failures agentExecutor (schedule.completed (m + 1))
    have hlength := hperm.length_eq
    rw [List.length_append] at hlength
    omega

end Conditions

/-- `execute` returns complete results exactly when no batch puts the quorum out of reach while
steps are pending, every task can be read that is read, and no step that is cancelled after the
quorum is met ends with a success. -/
theorem execute_complete_iff (product : Product) (w : ConsensusWorkflow)
    (agentExecutor : WorkflowStep → ExecOutcome) (cancelOutcome : WorkflowStep → CancelOutcome)
    (hids : (stepIds steps).Nodup) (hsteps : steps ≠ []) (schedule : Schedule steps) :
    (∃ e, execute agentExecutor cancelOutcome product w steps schedule = .ok e ∧
        Complete steps e) ↔
      w.WithinReach product agentExecutor schedule ∧ w.Readable product agentExecutor schedule ∧
        w.LosersFail product agentExecutor cancelOutcome schedule := by
  rcases execute_cases product w agentExecutor cancelOutcome hids hsteps schedule with
    ⟨m, r, hok, hperm, hend, hreads, hfirst⟩ | ⟨m, exc, herr, ⟨s, hs, hcrash⟩, hfirst⟩
  · have hreturns : (∃ e, execute agentExecutor cancelOutcome product w steps schedule = .ok e ∧
        Complete steps e) ↔ Complete steps (r.execution steps) := by
      constructor
      · rintro ⟨e, he, hcomplete⟩
        rwa [Except.ok.inj (hok.symm.trans he)]
      · exact fun hcomplete => ⟨_, hok, hcomplete⟩
    rw [hreturns]
    have hcount := successes_of_perm agentExecutor hperm
    unfold LoopResult.execution
    cases hmet : r.quorumMet with
    | true =>
      have hquorum := (hend.met hmet).1
      have hreach : w.WithinReach product agentExecutor schedule :=
        withinReach_of_enough (by omega)
      have hreadable : w.Readable product agentExecutor schedule := fun k hk s hs =>
        hreads s (completed_subset schedule (Nat.succ_le_succ (hk.le hquorum)) hs)
      rw [if_pos rfl, complete_met_iff hend hids hperm hmet, and_iff_right hreach,
        and_iff_right hreadable, losersFail_iff hids hperm hquorum fun j hj => (hfirst j hj).1]
    | false =>
      have hout := (hend.unmet hmet).1
      rw [if_neg (by simp), complete_unmet_iff hend hperm hmet (by split_ifs <;> simp),
        ← cancelled_eq_nil_iff hids hperm hout hfirst]
      refine (and_iff_left_of_imp fun hnone => ⟨fun k _ s hs => ?_, fun k _ hdeclared => ?_⟩).symm
      · exact hreads s (mem_completed_of_nil hperm hnone (schedule.completed_mem hs))
      · -- The quorum is never declared.
        have hzero : successes agentExecutor r.cancelled = 0 := by
          rw [hnone]
          rfl
        have hle := successes_completed_le agentExecutor schedule (k + 1)
        omega
  · -- A task cannot be read.
    refine iff_of_false ?_ fun hcond => ?_
    · rintro ⟨e, he, -⟩
      cases he.symm.trans herr
    · exact hcond.2.1 m (fun j hj => (hfirst j hj).1) s hs hcrash

/-- Two thirds of three votes stay within reach when one of them fails. -/
theorem execute_complete_twoThirds :
    ∃ e, execute firstRaises (fun _ => .cancelledError) exactProduct twoThirds threeVoters
      oneByOne = .ok e ∧ Complete threeVoters e := by
  refine (execute_complete_iff exactProduct twoThirds firstRaises (fun _ => .cancelledError)
    (by decide) (by decide) oneByOne).mpr ⟨fun m _ => ?_, fun m _ s hs hcrash => ?_,
      fun m _ _ s _ _ => rfl⟩
  · have hle := failures_completed_le firstRaises oneByOne (m + 1)
    have hfailures : failures firstRaises threeVoters = 1 := by decide +kernel
    have hrequired : twoThirds.requiredQuorum exactProduct threeVoters = 2 := by decide +kernel
    have hlength : threeVoters.length = 3 := rfl
    omega
  · have hok : ∀ s ∈ threeVoters, (readTask firstRaises s).isOk = true := by decide
    obtain ⟨exc, hexc⟩ := hcrash
    have hisOk := hok s (oneByOne.completed_mem hs)
    rw [hexc] at hisOk
    cases hisOk

/-- All agents must succeed. -/
def unanimous : ConsensusWorkflow := ⟨1, by decide +kernel, by decide +kernel⟩

/-- When the first of three required votes fails, the two cancelled steps have no entry. -/
theorem unachievable_incomplete :
    (stepIds threeVoters).Nodup ∧
      ¬ ∃ e, execute firstRaises (fun _ => .cancelledError) exactProduct unanimous threeVoters
        oneByOne = .ok e ∧ Complete threeVoters e := by
  have hexecution : execute firstRaises (fun _ => .cancelledError) exactProduct unanimous
      threeVoters oneByOne =
        .ok ⟨⟨[{ stepId := "s1", success := false, error := some (.raised "no vote") }], .FAILED⟩,
          threeVoters.tail⟩ := by decide +kernel
  rw [hexecution]
  refine ⟨by decide, ?_⟩
  rintro ⟨_, ⟨⟩, entries, trailing, hresults, hentries, -, htrailing⟩
  have hnone : trailing = [] := by simpa using htrailing
  have hlength := congrArg List.length hresults
  have hentriesLength := congrArg List.length hentries
  simp [hnone, stepIds, threeVoters] at hlength hentriesLength
  omega

end MeshRouter.Workflows.ConsensusWorkflow
