import Mathlib.Data.List.TakeWhile
import MeshRouter.Workflows.Competitive

/-!
# The winner and the results of the competitive workflow

The race loop reads completed steps until the first success. `FirstSuccess` says where that is:
which batches and which part of a batch come before it, and which steps of its batch come after. The
loop is followed up to that point (`raceLoop_skip`), so that its ends can be stated outright: every
step was read and failed (`raceLoop_failed`), or the first success won and the later batches were
cancelled (`raceLoop_won`), unless a step before could not be read (`raceLoop_crash`).

* Where the steps can be read, the status does not depend on the schedule (`race_verdict_iff`): it
  is `SUCCESS` exactly when some step succeeds, and the winner is in the first batch with a success.
* The results do (`race_complete_iff`): a step that completes in the batch of the winner and is
  traversed after it is neither read nor cancelled, and has no result.
-/

namespace MeshRouter.Workflows.CompetitiveWorkflow

open Lib

/-! ## The first success -/

section FirstSuccess

variable {agentExecutor : WorkflowStep → ExecOutcome}

/-- The first success among the batches is `winner`: after the batches `before`, and after `front`
in its own batch. -/
structure FirstSuccess (agentExecutor : WorkflowStep → ExecOutcome)
    (batches before : List (List WorkflowStep)) (front : List WorkflowStep) (winner : WorkflowStep)
    (back : List WorkflowStep) (after : List (List WorkflowStep)) : Prop where
  split : batches = before ++ (front ++ winner :: back) :: after
  succeeds : (resultOf (readTask agentExecutor) winner).success = true
  failed : ∀ s ∈ before.flatten ++ front, (resultOf (readTask agentExecutor) s).success = false

/-- The steps that the loop leaves unread when it finds the winner: what comes after the first
success in its batch. -/
def unread (agentExecutor : WorkflowStep → ExecOutcome) :
    List (List WorkflowStep) → List WorkflowStep
  | [] => []
  | done :: batches =>
    match done.dropWhile fun s => !(resultOf (readTask agentExecutor) s).success with
    | [] => unread agentExecutor batches
    | _ :: back => back

/-- A batch without a success is read to its end. -/
theorem unread_cons_of_failed {done : List WorkflowStep} {batches : List (List WorkflowStep)}
    (hfailed : ∀ s ∈ done, (resultOf (readTask agentExecutor) s).success = false) :
    unread agentExecutor (done :: batches) = unread agentExecutor batches := by
  have hnone : done.dropWhile (fun s => !(resultOf (readTask agentExecutor) s).success) = [] :=
    List.dropWhile_eq_nil_iff.mpr fun s hs => by simp [hfailed s hs]
  rw [unread, hnone]

/-- Where no step succeeds, every batch is read to its end. -/
theorem unread_of_failed {batches : List (List WorkflowStep)}
    (hfailed : ∀ s ∈ batches.flatten, (resultOf (readTask agentExecutor) s).success = false) :
    unread agentExecutor batches = [] := by
  induction batches with
  | nil => rfl
  | cons done batches ih =>
    rw [List.flatten_cons] at hfailed
    rw [unread_cons_of_failed fun s hs => hfailed s (List.mem_append_left _ hs)]
    exact ih fun s hs => hfailed s (List.mem_append_right _ hs)

/-- The unread steps are those after the first success. -/
theorem FirstSuccess.unread_eq {batches before after : List (List WorkflowStep)}
    {front back : List WorkflowStep} {winner : WorkflowStep}
    (h : FirstSuccess agentExecutor batches before front winner back after) :
    unread agentExecutor batches = back := by
  obtain ⟨rfl, hsucceeds, hfailed⟩ := h
  induction before with
  | nil =>
    have hfront : ∀ s ∈ front, (!(resultOf (readTask agentExecutor) s).success) = true :=
      fun s hs => by simp [hfailed s (by simpa using hs)]
    have hdrop : (front ++ winner :: back).dropWhile
        (fun s => !(resultOf (readTask agentExecutor) s).success) = winner :: back := by
      rw [List.dropWhile_append_of_pos hfront, List.dropWhile_cons_of_neg (by simp [hsucceeds])]
    rw [List.nil_append, unread, hdrop]
  | cons done before ih =>
    rw [List.flatten_cons, List.append_assoc] at hfailed
    rw [List.cons_append, unread_cons_of_failed fun s hs => hfailed s (List.mem_append_left _ hs)]
    exact ih fun s hs => hfailed s (List.mem_append_right _ hs)

/-- The steps that the loop reads before the first success. -/
def readBefore (agentExecutor : WorkflowStep → ExecOutcome)
    (batches : List (List WorkflowStep)) : List WorkflowStep :=
  batches.flatten.takeWhile fun s => !(resultOf (readTask agentExecutor) s).success

/-- Where no step succeeds, all are read. -/
theorem readBefore_of_failed {batches : List (List WorkflowStep)}
    (hfailed : ∀ s ∈ batches.flatten, (resultOf (readTask agentExecutor) s).success = false) :
    readBefore agentExecutor batches = batches.flatten :=
  List.takeWhile_eq_self_iff.mpr fun s hs => by simp [hfailed s hs]

/-- The steps before the first success. -/
theorem FirstSuccess.readBefore_eq {batches before after : List (List WorkflowStep)}
    {front back : List WorkflowStep} {winner : WorkflowStep}
    (h : FirstSuccess agentExecutor batches before front winner back after) :
    readBefore agentExecutor batches = before.flatten ++ front := by
  have hflat : batches.flatten =
      (before.flatten ++ front) ++ (winner :: back ++ after.flatten) := by
    rw [h.split]
    simp
  unfold readBefore
  rw [hflat, List.takeWhile_append_of_pos fun s hs => by simp [h.failed s hs],
    List.cons_append, List.takeWhile_cons_of_neg (by simp [h.succeeds]), List.append_nil]

/-- The steps that are read before the first success are those of a batch and of the batches behind
it, or only the first ones of the batch. -/
theorem readBefore_cons (agentExecutor : WorkflowStep → ExecOutcome) (done : List WorkflowStep)
    (batches : List (List WorkflowStep)) :
    ((∀ s ∈ done, (resultOf (readTask agentExecutor) s).success = false) ∧
      readBefore agentExecutor (done :: batches) = done ++ readBefore agentExecutor batches) ∨
    readBefore agentExecutor (done :: batches) =
      done.takeWhile fun s => !(resultOf (readTask agentExecutor) s).success := by
  unfold readBefore
  rw [List.flatten_cons]
  by_cases hfailed : ∀ s ∈ done, (resultOf (readTask agentExecutor) s).success = false
  · exact Or.inl ⟨hfailed, List.takeWhile_append_of_pos fun s hs => by simp [hfailed s hs]⟩
  · refine Or.inr ?_
    rw [List.takeWhile_append, if_neg fun hlength => hfailed fun s hs => ?_]
    have hall := List.takeWhile_eq_self_iff.mp
      ((List.takeWhile_prefix _).eq_of_length hlength) s hs
    simpa using hall

/-- Either no step succeeds, or there is a first success. -/
theorem failed_or_firstSuccess (agentExecutor : WorkflowStep → ExecOutcome)
    (batches : List (List WorkflowStep)) :
    (∀ s ∈ batches.flatten, (resultOf (readTask agentExecutor) s).success = false) ∨
      ∃ before front winner back after,
        FirstSuccess agentExecutor batches before front winner back after := by
  induction batches with
  | nil => exact .inl (by simp)
  | cons done batches ih =>
    cases hfind : done.find? fun s => (resultOf (readTask agentExecutor) s).success with
    | some winner =>
      obtain ⟨hsucceeds, front, back, rfl, hfront⟩ := List.find?_eq_some_iff_append.mp hfind
      exact .inr ⟨[], front, winner, back, batches, rfl, hsucceeds,
        fun s hs => by simpa using hfront s (by simpa using hs)⟩
    | none =>
      have hdone : ∀ s ∈ done, (resultOf (readTask agentExecutor) s).success = false :=
        fun s hs => by simpa using List.find?_eq_none.mp hfind s hs
      rcases ih with hfailed | ⟨before, front, winner, back, after, rfl, hsucceeds, hfailed⟩
      · refine .inl fun s hs => ?_
        rw [List.flatten_cons] at hs
        exact (List.mem_append.mp hs).elim (hdone s) (hfailed s)
      · refine .inr ⟨done :: before, front, winner, back, after, rfl, hsucceeds, fun s hs => ?_⟩
        rw [List.flatten_cons, List.append_assoc] at hs
        exact (List.mem_append.mp hs).elim (hdone s) (hfailed s)

end FirstSuccess

/-! ## The race loop -/

section Loop

variable {agentExecutor : WorkflowStep → ExecOutcome} {cancelOutcome : WorkflowStep → CancelOutcome}

/-- The results with those of completed steps set. -/
abbrev setRun (agentExecutor : WorkflowStep → ExecOutcome) (steps : List WorkflowStep)
    (allResults : Dict String StepResult) : Dict String StepResult :=
  Dict.setAll (·.stepId) (resultOf (readTask agentExecutor)) steps allResults

/-- Reading steps that fail records them, and goes on. -/
theorem readDone_append_failed (cancelOutcome : WorkflowStep → CancelOutcome)
    {front : List WorkflowStep}
    (hfailed : ∀ s ∈ front, (resultOf (readTask agentExecutor) s).success = false)
    (hreads : ∀ s ∈ front, ¬ Crashes agentExecutor s) (done : List WorkflowStep)
    (race : RaceState) :
    readDone agentExecutor cancelOutcome (front ++ done) race =
      readDone agentExecutor cancelOutcome done
        { race with allResults := setRun agentExecutor front race.allResults } := by
  induction front generalizing race with
  | nil => rfl
  | cons s front ih =>
    have hs : ¬ ((resultOf (readTask agentExecutor) s).success = true ∧ race.winner = none) := by
      simp [hfailed s List.mem_cons_self]
    rw [List.cons_append, readDone, readTask_eq (hreads s List.mem_cons_self)]
    dsimp only
    rw [if_neg hs, ih (fun t ht => hfailed t (List.mem_cons_of_mem s ht))
      (fun t ht => hreads t (List.mem_cons_of_mem s ht)), readTask_stepId]
    rfl

/-- A step that cannot be read ends the loop, if no success is read before. -/
theorem readDone_crash (cancelOutcome : WorkflowStep → CancelOutcome) {done : List WorkflowStep}
    (hcrash : ∃ s ∈ done.takeWhile fun s => !(resultOf (readTask agentExecutor) s).success,
      Crashes agentExecutor s) (race : RaceState) :
    ∃ exc, readDone agentExecutor cancelOutcome done race = .error exc := by
  induction done generalizing race with
  | nil =>
    obtain ⟨s, hs, -⟩ := hcrash
    cases hs
  | cons s done ih =>
    unfold readDone
    by_cases hs : Crashes agentExecutor s
    · obtain ⟨exc, hexc⟩ := hs
      exact ⟨exc, by rw [hexc]⟩
    · cases hsucc : (resultOf (readTask agentExecutor) s).success with
      | true =>
        rw [List.takeWhile_cons_of_neg (by simp [hsucc])] at hcrash
        obtain ⟨t, ht, -⟩ := hcrash
        cases ht
      | false =>
        rw [List.takeWhile_cons_of_pos (by simp [hsucc])] at hcrash
        obtain ⟨t, ht, hcrash⟩ := hcrash
        have ht' := (List.mem_cons.mp ht).resolve_left fun heq => hs (heq ▸ hcrash)
        rw [readTask_eq hs]
        dsimp only
        rw [if_neg (by simp [hsucc])]
        exact ih ⟨t, ht', hcrash⟩ _

/-- Reading the first success ends the race. -/
theorem readDone_winner {winner : WorkflowStep}
    (hsucceeds : (resultOf (readTask agentExecutor) winner).success = true)
    (back : List WorkflowStep) {race : RaceState} (hnone : race.winner = none) :
    readDone agentExecutor cancelOutcome (winner :: back) race =
      .ok { winner := some (resultOf (readTask agentExecutor) winner)
            allResults := Dict.setAll (·.stepId) (cancelResult cancelOutcome) race.pending
              (setRun agentExecutor [winner] race.allResults)
            pending := [] } := by
  rw [readDone, eq_ok_of_success hsucceeds]
  dsimp only
  rw [if_pos ⟨hsucceeds, hnone⟩, readTask_stepId]
  rfl

/-- Nothing is left to do when nothing is pending. -/
theorem raceLoop_done {race : RaceState} (hnil : race.pending = [])
    (batches : List (List WorkflowStep)) :
    raceLoop agentExecutor cancelOutcome batches race = .ok race := by
  cases batches with
  | nil => rfl
  | cons done batches => rw [raceLoop, if_pos hnil]

/-- A turn of the loop takes the steps of the batch from those that are pending. -/
theorem raceLoop_cons (agentExecutor : WorkflowStep → ExecOutcome)
    (cancelOutcome : WorkflowStep → CancelOutcome) {done : List WorkflowStep}
    {batches : List (List WorkflowStep)} (race : RaceState) (hdone : done ≠ [])
    (hperm : (done :: batches).flatten.Perm race.pending) (hnodup : race.pending.Nodup) :
    ∃ pending, batches.flatten.Perm pending ∧ pending.Nodup ∧
      raceLoop agentExecutor cancelOutcome (done :: batches) race =
        match readDone agentExecutor cancelOutcome done { race with pending := pending } with
        | .error exc => .error exc
        | .ok race => raceLoop agentExecutor cancelOutcome batches race := by
  refine ⟨race.pending.filter fun s => s ∉ done, ?_, hnodup.filter _, ?_⟩
  · rw [List.flatten_cons] at hperm
    exact perm_filter_notMem hperm hnodup
  · rw [raceLoop]
    exact if_neg (pending_ne_nil hdone hperm)

/-- A step that cannot be read ends the race, if no success is read before. -/
theorem raceLoop_crash (cancelOutcome : WorkflowStep → CancelOutcome)
    {batches : List (List WorkflowStep)}
    (hcrash : ∃ s ∈ readBefore agentExecutor batches, Crashes agentExecutor s) (race : RaceState)
    (hbatches : ∀ done ∈ batches, done ≠ []) (hperm : batches.flatten.Perm race.pending)
    (hnodup : race.pending.Nodup) :
    ∃ exc, raceLoop agentExecutor cancelOutcome batches race = .error exc := by
  induction batches generalizing race with
  | nil =>
    obtain ⟨s, hs, -⟩ := hcrash
    cases hs
  | cons done batches ih =>
    obtain ⟨hdone, hbatches⟩ := List.forall_mem_cons.mp hbatches
    obtain ⟨pending, hperm', hnodup', hturn⟩ :=
      raceLoop_cons agentExecutor cancelOutcome race hdone hperm hnodup
    rw [hturn]
    by_cases hfirst : ∃ s ∈ done.takeWhile fun s => !(resultOf (readTask agentExecutor) s).success,
        Crashes agentExecutor s
    · obtain ⟨exc, hexc⟩ := readDone_crash cancelOutcome hfirst { race with pending := pending }
      exact ⟨exc, by rw [hexc]⟩
    · rcases readBefore_cons agentExecutor done batches with ⟨hfailed, heq⟩ | heq
      · -- The batch is read to its end, and the step is in a later one.
        have hself : (done.takeWhile fun s => !(resultOf (readTask agentExecutor) s).success) =
            done := List.takeWhile_eq_self_iff.mpr fun s hs => by simp [hfailed s hs]
        rw [hself] at hfirst
        have hreads : ∀ s ∈ done, ¬ Crashes agentExecutor s :=
          fun s hs hcrash => hfirst ⟨s, hs, hcrash⟩
        have hread := readDone_append_failed cancelOutcome hfailed hreads []
          { race with pending := pending }
        rw [List.append_nil] at hread
        rw [hread, readDone]
        obtain ⟨s, hs, hcrash⟩ := hcrash
        rw [heq] at hs
        have hs' := (List.mem_append.mp hs).resolve_left fun hmem => hreads s hmem hcrash
        exact ih ⟨s, hs', hcrash⟩ _ hbatches hperm' hnodup'
      · rw [heq] at hcrash
        exact absurd hcrash hfirst

/-- The loop records the batches that fail, and goes on with the next. -/
theorem raceLoop_skip (cancelOutcome : WorkflowStep → CancelOutcome)
    {before : List (List WorkflowStep)} (batches : List (List WorkflowStep)) (race : RaceState)
    (hfailed : ∀ s ∈ before.flatten, (resultOf (readTask agentExecutor) s).success = false)
    (hreads : ∀ s ∈ before.flatten, ¬ Crashes agentExecutor s)
    (hbatches : ∀ done ∈ before, done ≠ [])
    (hperm : (before ++ batches).flatten.Perm race.pending) (hnodup : race.pending.Nodup) :
    ∃ pending, batches.flatten.Perm pending ∧ pending.Nodup ∧
      raceLoop agentExecutor cancelOutcome (before ++ batches) race =
        raceLoop agentExecutor cancelOutcome batches
          ⟨race.winner, setRun agentExecutor before.flatten race.allResults, pending⟩ := by
  induction before generalizing race with
  | nil => exact ⟨race.pending, hperm, hnodup, rfl⟩
  | cons done before ih =>
    rw [List.flatten_cons] at hfailed hreads
    rw [List.cons_append] at hperm
    obtain ⟨hdone, hbatches⟩ := List.forall_mem_cons.mp hbatches
    obtain ⟨pending, hperm', hnodup', hturn⟩ := raceLoop_cons agentExecutor
      cancelOutcome race hdone hperm hnodup
    have hread := readDone_append_failed cancelOutcome
      (fun s hs => hfailed s (List.mem_append_left _ hs))
      (fun s hs => hreads s (List.mem_append_left _ hs)) [] { race with pending := pending }
    rw [List.append_nil] at hread
    obtain ⟨pending', hperm'', hnodup'', hrest⟩ := ih
      ⟨race.winner, setRun agentExecutor done race.allResults, pending⟩
      (fun s hs => hfailed s (List.mem_append_right _ hs))
      (fun s hs => hreads s (List.mem_append_right _ hs)) hbatches hperm' hnodup'
    refine ⟨pending', hperm'', hnodup'', ?_⟩
    rw [List.cons_append, hturn, hread, readDone]
    dsimp only
    rw [hrest, List.flatten_cons]
    dsimp only
    rw [setRun, setRun, setRun, Dict.setAll_append]

/-- When no step succeeds, the loop records them all. -/
theorem raceLoop_failed (cancelOutcome : WorkflowStep → CancelOutcome) {steps : List WorkflowStep}
    (schedule : Schedule steps) (hids : (stepIds steps).Nodup)
    (hfailed : ∀ s ∈ schedule.batches.flatten,
      (resultOf (readTask agentExecutor) s).success = false)
    (hreads : ∀ s ∈ schedule.batches.flatten, ¬ Crashes agentExecutor s) :
    ∃ pending, raceLoop agentExecutor cancelOutcome schedule.batches { pending := steps } =
      .ok ⟨none, setRun agentExecutor schedule.batches.flatten .empty, pending⟩ := by
  have hperm : (schedule.batches ++ []).flatten.Perm steps := by
    rw [List.append_nil]
    exact schedule.perm
  obtain ⟨pending, -, -, hloop⟩ := raceLoop_skip cancelOutcome [] { pending := steps } hfailed
    hreads schedule.nonempty hperm (List.Nodup.of_map _ hids)
  rw [List.append_nil, raceLoop] at hloop
  exact ⟨pending, hloop⟩

/-- When a step succeeds, the loop records what it reads up to the first success, and the steps of
the later batches as losers. -/
theorem raceLoop_won (cancelOutcome : WorkflowStep → CancelOutcome) {steps : List WorkflowStep}
    (schedule : Schedule steps) (hids : (stepIds steps).Nodup)
    {before after : List (List WorkflowStep)} {front back : List WorkflowStep}
    {winner : WorkflowStep}
    (h : FirstSuccess agentExecutor schedule.batches before front winner back after)
    (hreads : ∀ s ∈ before.flatten ++ front, ¬ Crashes agentExecutor s) :
    ∃ losers, after.flatten.Perm losers ∧
      raceLoop agentExecutor cancelOutcome schedule.batches { pending := steps } =
        .ok ⟨some (resultOf (readTask agentExecutor) winner),
          Dict.setAll (·.stepId) (cancelResult cancelOutcome) losers
            (setRun agentExecutor (before.flatten ++ front ++ [winner]) .empty), []⟩ := by
  obtain ⟨batches, hnonempty, hperm⟩ := schedule
  obtain ⟨rfl, hsucceeds, hfailed⟩ := h
  obtain ⟨hbefore, hrest⟩ := List.forall_mem_append.mp hnonempty
  obtain ⟨pending, hperm', hnodup', hskip⟩ := raceLoop_skip cancelOutcome _
    { pending := steps } (fun s hs => hfailed s (List.mem_append_left _ hs))
    (fun s hs => hreads s (List.mem_append_left _ hs)) hbefore hperm
    (List.Nodup.of_map _ hids)
  obtain ⟨losers, hlosers, -, hturn⟩ := raceLoop_cons agentExecutor
    cancelOutcome ⟨none, setRun agentExecutor before.flatten .empty, pending⟩
    (hrest _ List.mem_cons_self) hperm' hnodup'
  refine ⟨losers, hlosers, ?_⟩
  have hfront : ∀ s ∈ front, (resultOf (readTask agentExecutor) s).success = false :=
    fun s hs => hfailed s (List.mem_append_right _ hs)
  have hfrontReads : ∀ s ∈ front, ¬ Crashes agentExecutor s :=
    fun s hs => hreads s (List.mem_append_right _ hs)
  rw [hskip, hturn, readDone_append_failed cancelOutcome hfront hfrontReads,
    readDone_winner hsucceeds back rfl]
  dsimp only
  rw [raceLoop_done rfl]
  rw [setRun, setRun, setRun, setRun, Dict.setAll_append, Dict.setAll_append]

end Loop

/-! ## The ordered results -/

section InOrder

variable {steps : List WorkflowStep} {d : Dict String StepResult}

/-- Each result is recorded under its own id. -/
def Labelled (d : Dict String StepResult) : Prop := ∀ x r, d.get? x = some r → r.stepId = x

theorem labelled_empty : Labelled .empty := by
  intro x r hget
  cases hget

/-- Recording results under the ids of their steps keeps every result under its own id. -/
theorem Labelled.setAll (h : Labelled d) {result : WorkflowStep → StepResult}
    (hresult : ∀ s, (result s).stepId = s.stepId) (l : List WorkflowStep) :
    Labelled (Dict.setAll (·.stepId) result l d) := by
  intro x r hget
  rcases Dict.eq_or_get?_of_setAll hget with ⟨s, -, rfl, rfl⟩ | hold
  · exact hresult s
  · exact h x r hold

/-- The ordered results are those of the steps with a recorded result, in input order. -/
theorem map_stepId_inOrder (h : Labelled d) :
    (inOrder steps d).map (·.stepId) = (stepIds steps).filter (· ∈ d.keys) := by
  induction steps with
  | nil => rfl
  | cons s steps ih =>
    unfold inOrder stepIds at ih ⊢
    rw [List.filterMap_cons, List.map_cons]
    cases hget : d.get? s.stepId with
    | none =>
      have hnot : s.stepId ∉ d.keys := Dict.get?_eq_none_iff.mp hget
      rw [List.filter_cons_of_neg (by simpa using hnot)]
      exact ih
    | some r =>
      have hmem : s.stepId ∈ d.keys := Dict.mem_keys_of_get? hget
      rw [List.filter_cons_of_pos (by simpa using hmem), List.map_cons, ih, h _ _ hget]

/-- Where the result of every step is recorded, the ordered results are these. -/
theorem inOrder_eq_map {result : WorkflowStep → StepResult}
    (hall : ∀ s ∈ steps, d.get? s.stepId = some (result s)) :
    inOrder steps d = steps.map result := by
  rw [inOrder, List.filterMap_congr hall]
  exact congrFun List.filterMap_eq_map steps

end InOrder

/-! ## Executions -/

section Execute

variable {agentExecutor : WorkflowStep → ExecOutcome} {cancelOutcome : WorkflowStep → CancelOutcome}
  {steps : List WorkflowStep}

/-- A race that no step wins. -/
theorem executeRace_failed (w : CompetitiveWorkflow) (schedule : Schedule steps)
    (hids : (stepIds steps).Nodup)
    (hfailed : ∀ s ∈ steps, (resultOf (readTask agentExecutor) s).success = false)
    (hreads : ∀ s ∈ steps, ¬ Crashes agentExecutor s) :
    executeRace agentExecutor cancelOutcome w steps schedule =
      .ok ⟨steps.map (resultOf (readTask agentExecutor)), .FAILED⟩ := by
  obtain ⟨pending, hloop⟩ := raceLoop_failed cancelOutcome schedule hids
    (fun s hs => hfailed s (schedule.perm.subset hs))
    (fun s hs => hreads s (schedule.perm.subset hs))
  have hnodup : (schedule.batches.flatten.map (·.stepId)).Nodup :=
    (schedule.perm.map _).nodup_iff.mpr hids
  have hall : ∀ s ∈ steps, (setRun agentExecutor schedule.batches.flatten .empty).get? s.stepId =
      some (resultOf (readTask agentExecutor) s) :=
    fun s hs => Dict.get?_setAll_of_mem hnodup (schedule.perm.symm.subset hs)
  unfold executeRace
  rw [hloop]
  dsimp only
  rw [inOrder_eq_map hall]

/-- A race that a step wins. -/
theorem executeRace_won (w : CompetitiveWorkflow) (cancelOutcome : WorkflowStep → CancelOutcome)
    (schedule : Schedule steps) (hids : (stepIds steps).Nodup)
    {before after : List (List WorkflowStep)} {front back : List WorkflowStep}
    {winner : WorkflowStep}
    (h : FirstSuccess agentExecutor schedule.batches before front winner back after)
    (hreads : ∀ s ∈ before.flatten ++ front, ¬ Crashes agentExecutor s) :
    ∃ d, Labelled d ∧ d.get? winner.stepId = some (resultOf (readTask agentExecutor) winner) ∧
      (∀ s ∈ steps, s.stepId ∈ d.keys ↔ s ∉ back) ∧
      executeRace agentExecutor cancelOutcome w steps schedule =
        .ok ⟨if w.includeAllResults then inOrder steps d
          else [resultOf (readTask agentExecutor) winner], .SUCCESS⟩ := by
  obtain ⟨losers, hlosers, hloop⟩ := raceLoop_won cancelOutcome schedule hids h hreads
  set read := before.flatten ++ front ++ [winner] with hread
  -- The steps are those that were read, the losers, and those that were left unread.
  have hparts : (read ++ losers ++ back).Perm steps := by
    refine List.Perm.trans ?_ schedule.perm
    have hflat : schedule.batches.flatten = read ++ (back ++ after.flatten) := by
      rw [h.split, hread]
      simp
    rw [hflat, List.append_assoc]
    exact ((hlosers.symm.append_right back).trans List.perm_append_comm).append_left read
  have hpartIds : (stepIds (read ++ losers ++ back)).Nodup := (hparts.map _).nodup_iff.mpr hids
  have hnodup := (hparts.nodup_iff).mpr (List.Nodup.of_map _ hids)
  have hsub : read ++ losers ⊆ steps := fun s hs => hparts.subset (List.mem_append_left _ hs)
  rw [stepIds, List.map_append, List.map_append] at hpartIds
  obtain ⟨hrecorded, -, -⟩ := List.nodup_append'.mp hpartIds
  obtain ⟨hreadIds, -, hdisj⟩ := List.nodup_append'.mp hrecorded
  have hwinner : winner ∈ read := by simp [hread]
  have hlabelled := (labelled_empty.setAll (readTask_stepId agentExecutor) read).setAll
    (cancelResult_stepId cancelOutcome) losers
  refine ⟨_, hlabelled, ?_, fun s hs => ?_, ?_⟩
  · have hnot : winner.stepId ∉ losers.map (·.stepId) :=
      fun hm => hdisj (List.mem_map_of_mem hwinner) hm
    rw [Dict.get?_setAll_of_notMem hnot, Dict.get?_setAll_of_mem hreadIds hwinner]
  · have hkeys : s.stepId ∈ stepIds (read ++ losers) ↔ s ∈ read ++ losers :=
      mem_stepIds_iff hids hsub hs
    rw [Dict.mem_keys_setAll, Dict.mem_keys_setAll, Dict.keys_empty, or_iff_left List.not_mem_nil,
      or_comm, ← List.mem_append, ← List.map_append, ← stepIds, hkeys]
    constructor
    · exact fun hin hback => (List.nodup_append'.mp hnodup).2.2 hin hback
    · exact fun hnot => (List.mem_append.mp (hparts.symm.subset hs)).resolve_right hnot
  · unfold executeRace
    rw [hloop]

/-- The steps in the first batch with a success that succeed. -/
def IsWinner (agentExecutor : WorkflowStep → ExecOutcome) (batches : List (List WorkflowStep))
    (s : WorkflowStep) : Prop :=
  ∃ before batch after, batches = before ++ batch :: after ∧
    (∀ t ∈ before.flatten, (resultOf (readTask agentExecutor) t).success = false) ∧
    s ∈ batch ∧ (resultOf (readTask agentExecutor) s).success = true

/-- The winner as the result reports it: alone, or among the results of all steps. -/
def Reports (w : CompetitiveWorkflow) (result : WorkflowResult) (r : StepResult) : Prop :=
  if w.includeAllResults then r ∈ result.stepResults else result.stepResults = [r]

/-- The verdict of a race, over what its steps do and the batches in which they complete. -/
structure Verdict (w : CompetitiveWorkflow) (agentExecutor : WorkflowStep → ExecOutcome)
    (steps : List WorkflowStep) (batches : List (List WorkflowStep)) (result : WorkflowResult) :
    Prop where
  status : result.status =
    if ∃ s ∈ steps, (resultOf (readTask agentExecutor) s).success = true then .SUCCESS else .FAILED
  winner : result.status = .SUCCESS →
    ∃ s ∈ steps, IsWinner agentExecutor batches s ∧
      w.Reports result (resultOf (readTask agentExecutor) s)
  failures : result.status = .FAILED →
    result.stepResults = steps.map (resultOf (readTask agentExecutor))

/-- The first success is a winner. -/
theorem FirstSuccess.isWinner {batches before after : List (List WorkflowStep)}
    {front back : List WorkflowStep} {winner : WorkflowStep}
    (h : FirstSuccess agentExecutor batches before front winner back after) :
    IsWinner agentExecutor batches winner :=
  ⟨before, _, after, h.split, fun t ht => h.failed t (List.mem_append_left _ ht),
    List.mem_append_right _ List.mem_cons_self, h.succeeds⟩

/-- The first success of a schedule is one of the steps. -/
theorem FirstSuccess.mem_steps {schedule : Schedule steps} {before after : List (List WorkflowStep)}
    {front back : List WorkflowStep} {winner : WorkflowStep}
    (h : FirstSuccess agentExecutor schedule.batches before front winner back after) :
    winner ∈ steps := by
  refine schedule.perm.subset ?_
  rw [h.split]
  simp

/-- The ways in which the general path ends, unless a step that is read before the first success
cannot be read: no step wins, or the first success does. -/
theorem executeRace_cases (w : CompetitiveWorkflow) (agentExecutor : WorkflowStep → ExecOutcome)
    (cancelOutcome : WorkflowStep → CancelOutcome) (schedule : Schedule steps)
    (hids : (stepIds steps).Nodup) :
    ((∃ s ∈ readBefore agentExecutor schedule.batches, Crashes agentExecutor s) ∧
      ∃ exc, executeRace agentExecutor cancelOutcome w steps schedule = .error exc) ∨
    ((∀ s ∈ readBefore agentExecutor schedule.batches, ¬ Crashes agentExecutor s) ∧
      ((∀ s ∈ steps, (resultOf (readTask agentExecutor) s).success = false) ∧
        executeRace agentExecutor cancelOutcome w steps schedule =
          .ok ⟨steps.map (resultOf (readTask agentExecutor)), .FAILED⟩ ∨
      ∃ before front winner back after,
        FirstSuccess agentExecutor schedule.batches before front winner back after ∧
        ∃ d, Labelled d ∧
          d.get? winner.stepId = some (resultOf (readTask agentExecutor) winner) ∧
          (∀ s ∈ steps, s.stepId ∈ d.keys ↔ s ∉ back) ∧
          executeRace agentExecutor cancelOutcome w steps schedule =
            .ok ⟨if w.includeAllResults then inOrder steps d
              else [resultOf (readTask agentExecutor) winner], .SUCCESS⟩)) := by
  by_cases hcrash : ∃ s ∈ readBefore agentExecutor schedule.batches, Crashes agentExecutor s
  · obtain ⟨exc, hexc⟩ := raceLoop_crash cancelOutcome hcrash { pending := steps }
      schedule.nonempty schedule.perm (List.Nodup.of_map _ hids)
    refine Or.inl ⟨hcrash, exc, ?_⟩
    unfold executeRace
    rw [hexc]
  · have hreads : ∀ s ∈ readBefore agentExecutor schedule.batches, ¬ Crashes agentExecutor s :=
      fun s hs hs' => hcrash ⟨s, hs, hs'⟩
    refine Or.inr ⟨hreads, ?_⟩
    rcases failed_or_firstSuccess agentExecutor schedule.batches with
      hfailed | ⟨before, front, winner, back, after, hfirst⟩
    · rw [readBefore_of_failed hfailed] at hreads
      have hall : ∀ s ∈ steps, (resultOf (readTask agentExecutor) s).success = false :=
        fun s hs => hfailed s (schedule.perm.symm.subset hs)
      exact Or.inl ⟨hall, executeRace_failed w schedule hids hall
        fun s hs => hreads s (schedule.perm.symm.subset hs)⟩
    · rw [hfirst.readBefore_eq] at hreads
      exact Or.inr ⟨before, front, winner, back, after, hfirst,
        executeRace_won w cancelOutcome schedule hids hfirst hreads⟩

/-- The general path returns the verdict exactly if every step can be read that is read before the
first success. -/
theorem executeRace_verdict_iff (w : CompetitiveWorkflow)
    (agentExecutor : WorkflowStep → ExecOutcome) (cancelOutcome : WorkflowStep → CancelOutcome)
    (schedule : Schedule steps) (hids : (stepIds steps).Nodup) :
    (∃ result, executeRace agentExecutor cancelOutcome w steps schedule = .ok result ∧
        w.Verdict agentExecutor steps schedule.batches result) ↔
      ∀ s ∈ readBefore agentExecutor schedule.batches, ¬ Crashes agentExecutor s := by
  rcases executeRace_cases w agentExecutor cancelOutcome schedule hids with
    ⟨⟨s, hs, hcrash⟩, exc, herr⟩ | ⟨hreads, ⟨hall, hrace⟩ | hwon⟩
  · refine iff_of_false ?_ fun hreads => hreads s hs hcrash
    rintro ⟨result, hresult, -⟩
    cases hresult.symm.trans herr
  · have hnone : ¬ ∃ s ∈ steps, (resultOf (readTask agentExecutor) s).success = true := by
      rintro ⟨s, hs, hsucc⟩
      rw [hall s hs] at hsucc
      cases hsucc
    exact iff_of_true ⟨_, hrace, (if_neg hnone).symm, fun h => (by cases h), fun _ => rfl⟩ hreads
  · obtain ⟨before, front, winner, back, after, hfirst, d, -, hget, -, hrace⟩ := hwon
    refine iff_of_true ⟨_, hrace,
      (if_pos ⟨winner, hfirst.mem_steps, hfirst.succeeds⟩).symm, fun _ => ?_, fun h => by cases h⟩
      hreads
    refine ⟨winner, hfirst.mem_steps, hfirst.isWinner, ?_⟩
    unfold Reports
    split_ifs with hall
    · exact List.mem_filterMap.mpr ⟨winner, hfirst.mem_steps, hget⟩
    · rfl

/-- A step that returns without a task is read as it returns. -/
theorem readTask_of_runStep {s : WorkflowStep} {result : StepResult}
    (h : runStepCancellable agentExecutor s = .ok result) :
    readTask agentExecutor s = .ok result := by
  unfold readTask
  rw [h]

/-- For one step that returns, the shortcut returns what the general path returns. -/
theorem execute_singleton (w : CompetitiveWorkflow) {s : WorkflowStep} (schedule : Schedule [s])
    {result : StepResult} (hrun : runStepCancellable agentExecutor s = .ok result) :
    execute agentExecutor cancelOutcome w [s] schedule =
      executeRace agentExecutor cancelOutcome w [s] schedule := by
  have hids : (stepIds [s]).Nodup := List.nodup_singleton s.stepId
  have hread := readTask_of_runStep hrun
  have hresult : resultOf (readTask agentExecutor) s = result := resultOf_of_ok hread
  have hexecute : execute agentExecutor cancelOutcome w [s] schedule =
      .ok { stepResults := [result], status := if result.success then .SUCCESS else .FAILED } := by
    unfold execute
    dsimp only
    rw [hrun]
  rw [hexecute]
  rcases executeRace_cases w agentExecutor cancelOutcome schedule hids with
    ⟨⟨t, ht, exc, hexc⟩, -⟩ | ⟨-, ⟨hall, hrace⟩ | hwon⟩
  · have ht' : t ∈ [s] := schedule.perm.subset ((List.takeWhile_sublist _).subset ht)
    obtain rfl := List.mem_singleton.mp ht'
    cases hread.symm.trans hexc
  · have hs := hall s List.mem_cons_self
    rw [hresult] at hs
    rw [hrace, List.map_singleton, hresult]
    simp [hs]
  · obtain ⟨before, front, winner, back, after, hfirst, d, -, hget, -, hrace⟩ := hwon
    obtain rfl := List.mem_singleton.mp hfirst.mem_steps
    have hs := hfirst.succeeds
    rw [hresult] at hs hget
    rw [hrace, hresult]
    simp [hs, inOrder, hget]

/-- What is read of the steps does not raise: a single step returns, and of several steps those can
be read that are read before the first success. -/
def ReadsAll (agentExecutor : WorkflowStep → ExecOutcome) (steps : List WorkflowStep)
    (batches : List (List WorkflowStep)) : Prop :=
  if steps.length = 1 then ∀ s ∈ steps, ∃ result, runStepCancellable agentExecutor s = .ok result
  else ∀ s ∈ readBefore agentExecutor batches, ¬ Crashes agentExecutor s

/-- `execute` returns the verdict, which does not depend on the schedule, and the shortcut for one
step agrees with the general path, exactly if what is read of the steps does not raise. -/
theorem race_verdict_iff (w : CompetitiveWorkflow) (agentExecutor : WorkflowStep → ExecOutcome)
    (cancelOutcome : WorkflowStep → CancelOutcome) (hids : (stepIds steps).Nodup)
    (hsteps : steps ≠ []) (schedule : Schedule steps) :
    (∃ result, execute agentExecutor cancelOutcome w steps schedule = .ok result ∧
        w.Verdict agentExecutor steps schedule.batches result ∧
        executeRace agentExecutor cancelOutcome w steps schedule = .ok result) ↔
      ReadsAll agentExecutor steps schedule.batches := by
  have hgeneral := executeRace_verdict_iff w agentExecutor cancelOutcome schedule hids
  match steps, schedule with
  | [], _ => exact absurd rfl hsteps
  | [s], schedule =>
    unfold ReadsAll
    rw [if_pos List.length_singleton]
    cases hrun : runStepCancellable agentExecutor s with
    | error exc =>
      refine iff_of_false ?_ fun hall => ?_
      · rintro ⟨result, hresult, -⟩
        unfold execute at hresult
        dsimp only at hresult
        rw [hrun] at hresult
        cases hresult
      · obtain ⟨result, hresult⟩ := hall s List.mem_cons_self
        cases hresult.symm.trans hrun
    | ok result =>
      have hread := readTask_of_runStep hrun
      have hreads : ∀ t ∈ readBefore agentExecutor schedule.batches,
          ¬ Crashes agentExecutor t := by
        rintro t ht ⟨exc, hexc⟩
        have ht' : t ∈ [s] := schedule.perm.subset ((List.takeWhile_sublist _).subset ht)
        obtain rfl := List.mem_singleton.mp ht'
        cases hread.symm.trans hexc
      obtain ⟨verdict, hrace, hverdict⟩ := hgeneral.mpr hreads
      refine iff_of_true ⟨verdict, ?_, hverdict, hrace⟩ fun t ht => ?_
      · rw [execute_singleton w schedule hrun, hrace]
      · obtain rfl := List.mem_singleton.mp ht
        exact ⟨result, hrun⟩
  | s :: t :: rest, schedule =>
    unfold ReadsAll
    rw [if_neg (by simp), ← hgeneral]
    constructor
    · rintro ⟨result, -, hverdict, hrace⟩
      exact ⟨result, hrace, hverdict⟩
    · rintro ⟨result, hrace, hverdict⟩
      exact ⟨result, hrace, hverdict, hrace⟩

/-- A fast and a slow agent, with the same task. -/
def fastAndSlow : List WorkflowStep :=
  [{ agentId := "fast-agent", action := "answer", stepId := "s1" },
    { agentId := "slow-agent", action := "answer", stepId := "s2" }]

/-- Both agents return. -/
def bothReturn (_ : WorkflowStep) : ExecOutcome := .returned .empty

/-- The slow agent is still at work when the fast one has returned. -/
def fastFirst : Schedule fastAndSlow :=
  ⟨fastAndSlow.map fun s => [s], by decide, by decide⟩

/-- Both agents have returned when `asyncio.wait` does. -/
def sameBatch : Schedule fastAndSlow := ⟨[fastAndSlow], by decide, by decide⟩

/-- `race_verdict_iff` on a race that the fast agent wins. -/
theorem race_verdict_fastFirst :
    ∃ result, execute bothReturn (fun _ => .cancelledError) {} fastAndSlow fastFirst =
        .ok result ∧
      Verdict {} bothReturn fastAndSlow fastFirst.batches result ∧
      executeRace bothReturn (fun _ => .cancelledError) {} fastAndSlow fastFirst = .ok result := by
  refine (race_verdict_iff {} bothReturn (fun _ => .cancelledError) (by decide) (by decide)
    fastFirst).mpr ?_
  unfold ReadsAll
  rw [if_neg (by decide)]
  rintro s hs ⟨exc, hexc⟩
  cases hexc

/-- A single step, whose agent raises an exception that `str` raises another one of. -/
def alone : List WorkflowStep := [{ agentId := "agent", action := "answer", stepId := "s1" }]

/-- The agent raises an exception without a text. -/
def raisesUnprintable (_ : WorkflowStep) : ExecOutcome :=
  .raised (.unprintable .exception "AgentError" (.printable .exception "KeyError" "'code'"))

/-- The single step is the only batch. -/
def aloneSchedule : Schedule alone := ⟨[alone], by decide, by decide⟩

/-- The shortcut for a single step raises where the general path returns a failure. -/
theorem alone_raises : (stepIds alone).Nodup ∧ alone ≠ [] ∧
    execute raisesUnprintable (fun _ => .cancelledError) {} alone aloneSchedule =
      .error (.printable .exception "KeyError" "'code'") ∧
    executeRace raisesUnprintable (fun _ => .cancelledError) {} alone aloneSchedule =
      .ok ⟨[{ stepId := "s1", success := false, error := some (.raised "'code'") }], .FAILED⟩ ∧
    ¬ ∃ result,
      execute raisesUnprintable (fun _ => .cancelledError) {} alone aloneSchedule = .ok result ∧
      Verdict {} raisesUnprintable alone aloneSchedule.batches result ∧
      executeRace raisesUnprintable (fun _ => .cancelledError) {} alone aloneSchedule =
        .ok result := by
  refine ⟨by decide, by decide, by decide +kernel, by decide +kernel, ?_⟩
  rintro ⟨result, hresult, -⟩
  cases hresult

/-- With all results included, `execute` returns one result for each step, in input order, exactly
when the loop leaves no completed step unread, and reads none that cannot be read. -/
theorem race_complete_iff (w : CompetitiveWorkflow) (agentExecutor : WorkflowStep → ExecOutcome)
    (cancelOutcome : WorkflowStep → CancelOutcome) (hids : (stepIds steps).Nodup)
    (hlength : 2 ≤ steps.length) (hall : w.includeAllResults = true) (schedule : Schedule steps) :
    (∃ result, execute agentExecutor cancelOutcome w steps schedule = .ok result ∧
        result.stepResults.map (·.stepId) = stepIds steps) ↔
      unread agentExecutor schedule.batches = [] ∧
        ∀ s ∈ readBefore agentExecutor schedule.batches, ¬ Crashes agentExecutor s := by
  have hexecute : execute agentExecutor cancelOutcome w steps schedule =
      executeRace agentExecutor cancelOutcome w steps schedule := by
    match steps, schedule, hlength with
    | s :: t :: rest, schedule, _ => rfl
  rw [hexecute]
  rcases executeRace_cases w agentExecutor cancelOutcome schedule hids with
    ⟨⟨s, hs, hcrash⟩, exc, herr⟩ | ⟨hreads, ⟨hfailed, hrace⟩ | hwon⟩
  · refine iff_of_false ?_ fun hcond => hcond.2 s hs hcrash
    rintro ⟨result, hresult, -⟩
    cases hresult.symm.trans herr
  · have hunread : unread agentExecutor schedule.batches = [] :=
      unread_of_failed fun s hs => hfailed s (schedule.perm.subset hs)
    refine iff_of_true ⟨_, hrace, ?_⟩ ⟨hunread, hreads⟩
    dsimp only
    rw [List.map_map]
    exact List.map_congr_left fun s _ => readTask_stepId agentExecutor s
  · obtain ⟨before, front, winner, back, after, hfirst, d, hlabelled, -, hkeys, hrace⟩ := hwon
    rw [and_iff_left hreads, hrace, if_pos hall, hfirst.unread_eq]
    constructor
    · rintro ⟨_, ⟨⟩, hrecorded⟩
      rw [map_stepId_inOrder hlabelled, List.filter_eq_self] at hrecorded
      refine List.eq_nil_iff_forall_not_mem.mpr fun s hs => ?_
      have hs' : s ∈ steps := by
        refine schedule.perm.subset ?_
        rw [hfirst.split]
        simp [hs]
      have hmem := hrecorded s.stepId (List.mem_map_of_mem hs')
      exact (hkeys s hs').mp (by simpa using hmem) hs
    · rintro rfl
      refine ⟨_, rfl, ?_⟩
      dsimp only
      rw [map_stepId_inOrder hlabelled, List.filter_eq_self]
      intro x hx
      obtain ⟨s, hs, rfl⟩ := List.mem_map.mp hx
      simpa using (hkeys s hs).mpr List.not_mem_nil

/-- The cancelled loser of a race has a result. -/
theorem race_complete_fastFirst :
    ∃ result, execute bothReturn (fun _ => .cancelledError) ⟨true⟩ fastAndSlow fastFirst =
        .ok result ∧
      result.stepResults.map (·.stepId) = stepIds fastAndSlow := by
  refine (race_complete_iff ⟨true⟩ bothReturn (fun _ => .cancelledError) (by decide) (by decide)
    rfl fastFirst).mpr ⟨by decide, ?_⟩
  rintro s hs ⟨exc, hexc⟩
  cases hexc

/-- An agent that returns in the same batch as the winner has no result. -/
theorem sameBatch_incomplete :
    (stepIds fastAndSlow).Nodup ∧ 2 ≤ fastAndSlow.length ∧
      (execute bothReturn (fun _ => .cancelledError) ⟨true⟩ fastAndSlow sameBatch).map
        (fun result => result.stepResults.map (·.stepId)) = .ok ["s1"] ∧
      ¬ ∃ result, execute bothReturn (fun _ => .cancelledError) ⟨true⟩ fastAndSlow sameBatch =
          .ok result ∧
        result.stepResults.map (·.stepId) = stepIds fastAndSlow := by
  have hids : (execute bothReturn (fun _ => .cancelledError) ⟨true⟩ fastAndSlow sameBatch).map
      (fun result => result.stepResults.map (·.stepId)) = .ok ["s1"] := by decide +kernel
  refine ⟨by decide, by decide, hids, ?_⟩
  rintro ⟨result, hresult, hcomplete⟩
  rw [hresult] at hids
  exact absurd (hcomplete.symm.trans (Except.ok.inj hids)) (by decide)

end Execute

end MeshRouter.Workflows.CompetitiveWorkflow
