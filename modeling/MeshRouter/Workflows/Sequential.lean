import MeshRouter.Workflows.LevelRuns
import MeshRouter.Workflows.Waves

/-!
# The sequential workflow

`workflows/sequential.py`, against the parallel and the hierarchical workflow. The sequential
workflow does not read `depends_on`: it runs the steps in input order, and stops after the first
failure, or with an exception that escapes. If the input lists every step after its dependencies
(`InOrder`), the others run those steps too, with the same results, for none of them has a failed
dependency; after the failure they go on with the steps that do not depend on it
(`sequential_prefix`).

The proof goes along the input, with the results so far equal to those of the other workflow and
all of them successful, so that what the other workflow owes (`Delivers`) decides its next result.
-/

namespace MeshRouter.Workflows

open Lib Relation

namespace SequentialWorkflow

/-- The loop of `execute`, with the results so far and the history. -/
def stepLoop (agentExecutor : WorkflowStep → ExecOutcome) (completed : List StepResult)
    (log : List StepEvent) :
    List WorkflowStep → Except Raised (List StepResult × List StepEvent)
  | [] => .ok (completed, log)
  | step :: steps =>
    match runStep agentExecutor step with
    | .error exc => .error { error := .escaped [exc], log := .started step.stepId :: log }
    | .ok stepResult =>
      let completed := completed ++ [stepResult]
      let log := .recorded step.stepId :: .started step.stepId :: log
      if stepResult.success then stepLoop agentExecutor completed log steps
      else .ok (completed, log)

/-- `execute`. -/
def execute (agentExecutor : WorkflowStep → ExecOutcome) (steps : List WorkflowStep) :
    Except Raised Execution :=
  if steps = [] then
    .ok { result := { stepResults := [], status := .SUCCESS } }
  else
    match stepLoop agentExecutor [] [] steps with
    | .error e => .error e
    | .ok (completed, log) =>
      .ok { result := {
              stepResults := completed
              status := if completed.all (·.success) then .SUCCESS else .FAILED }
            log := log }

/-! ## What is attempted -/

/-- The steps up to the first that does not succeed, which is attempted too. -/
def attempted (agentExecutor : WorkflowStep → ExecOutcome) : List WorkflowStep → List WorkflowStep
  | [] => []
  | step :: steps =>
    step :: if (resultOf (runStep agentExecutor) step).success then attempted agentExecutor steps
      else []

/-- The history of steps that were run one after another. -/
def runLog (steps : List WorkflowStep) : List StepEvent :=
  steps.foldl (fun log s => .recorded s.stepId :: .started s.stepId :: log) []

/-- What `execute` returns if no exception escapes. -/
def executeAttempted (agentExecutor : WorkflowStep → ExecOutcome) (steps : List WorkflowStep) :
    Execution :=
  let results := (attempted agentExecutor steps).map (resultOf (runStep agentExecutor))
  { result := {
      stepResults := results
      status := if ∀ r ∈ results, r.success = true then .SUCCESS else .FAILED }
    log := runLog (attempted agentExecutor steps) }

variable {agentExecutor : WorkflowStep → ExecOutcome} {steps : List WorkflowStep}

/-- The loop runs the attempted steps, if they return. -/
theorem stepLoop_eq (completed : List StepResult) (log : List StepEvent)
    (hreturns : ∀ s ∈ attempted agentExecutor steps, ¬ StepEscapes agentExecutor s) :
    stepLoop agentExecutor completed log steps =
      .ok (completed ++ (attempted agentExecutor steps).map (resultOf (runStep agentExecutor)),
        (attempted agentExecutor steps).foldl
          (fun log s => .recorded s.stepId :: .started s.stepId :: log) log) := by
  induction steps generalizing completed log with
  | nil => simp [stepLoop, attempted]
  | cons step steps ih =>
    have hstep : runStep agentExecutor step = .ok (resultOf (runStep agentExecutor) step) := by
      have hmem : step ∈ attempted agentExecutor (step :: steps) := List.mem_cons_self
      exact eq_ok_resultOf fun exc hexc => hreturns step hmem ⟨exc, hexc⟩
    unfold attempted at hreturns
    unfold stepLoop attempted
    rw [hstep]
    dsimp only
    split_ifs with hsucc
    · rw [if_pos hsucc] at hreturns
      rw [ih _ _ fun s hs => hreturns s (List.mem_cons_of_mem _ hs), List.append_assoc]
      rfl
    · rfl

/-- `execute` returns the results of the attempted steps, if they return. -/
theorem execute_eq
    (hreturns : ∀ s ∈ attempted agentExecutor steps, ¬ StepEscapes agentExecutor s) :
    execute agentExecutor steps = .ok (executeAttempted agentExecutor steps) := by
  unfold execute
  split_ifs with hnil
  · rw [hnil]
    rfl
  · rw [stepLoop_eq [] [] hreturns]
    unfold executeAttempted
    simp only [List.nil_append, List.all_eq_true]
    rfl

/-- What is started is what is attempted. -/
theorem started_runLog {x : String} : .started x ∈ runLog steps ↔ x ∈ stepIds steps := by
  have hgeneral : ∀ log : List StepEvent,
      .started x ∈ steps.foldl (fun log s => .recorded s.stepId :: .started s.stepId :: log) log ↔
        x ∈ stepIds steps ∨ .started x ∈ log := by
    induction steps with
    | nil => intro log; simp [stepIds]
    | cons s steps ih =>
      intro log
      rw [List.foldl_cons, ih]
      simp only [List.mem_cons, stepIds, List.map_cons, StepEvent.started.injEq, reduceCtorEq,
        false_or]
      tauto
  exact (hgeneral []).trans (or_iff_left List.not_mem_nil)

/-- If no attempted step fails, every step is attempted. -/
theorem attempted_eq_self
    (h : ∀ s ∈ attempted agentExecutor steps,
      (resultOf (runStep agentExecutor) s).success = true) :
    attempted agentExecutor steps = steps := by
  induction steps with
  | nil => rfl
  | cons step steps ih =>
    unfold attempted at h ⊢
    have hstep := h step List.mem_cons_self
    rw [if_pos hstep] at h ⊢
    rw [ih fun s hs => h s (List.mem_cons_of_mem _ hs)]

end SequentialWorkflow

/-! ## Inputs in order -/

/-- Every dependency of a step is among the ids before it. -/
def InOrder : List String → List WorkflowStep → Prop
  | _, [] => True
  | before, s :: steps => (∀ d ∈ s.dependsOn, d ∈ before) ∧ InOrder (s.stepId :: before) steps

/-- Every step but the first depends on the step before it. -/
def Chained (steps : List WorkflowStep) : Prop :=
  steps.IsChain fun s t => s.stepId ∈ t.dependsOn

section InOrder

variable {steps rest : List WorkflowStep} {before : List String}

/-- A dependency is before the steps, or one of them. -/
theorem InOrder.mem (h : InOrder before rest) {s : WorkflowStep} (hs : s ∈ rest) {d : String}
    (hd : d ∈ s.dependsOn) : d ∈ before ∨ d ∈ stepIds rest := by
  induction rest generalizing before with
  | nil => cases hs
  | cons t rest ih =>
    rcases List.mem_cons.mp hs with rfl | hs
    · exact Or.inl (h.1 d hd)
    · rcases ih h.2 hs with hmem | hmem
      · rcases List.mem_cons.mp hmem with rfl | hmem
        · exact Or.inr List.mem_cons_self
        · exact Or.inl hmem
      · exact Or.inr (List.mem_cons_of_mem _ hmem)

/-- Going back along the dependencies of steps in order comes to an end. -/
theorem InOrder.acc (h : InOrder before rest) (hids : (stepIds steps).Nodup) (hsub : rest ⊆ steps)
    (hbefore : ∀ x ∈ before, Acc (Function.swap (DependsOn steps)) x) :
    ∀ s ∈ rest, Acc (Function.swap (DependsOn steps)) s.stepId := by
  induction rest generalizing before with
  | nil => exact fun s hs => by cases hs
  | cons t rest ih =>
    have ht : Acc (Function.swap (DependsOn steps)) t.stepId := by
      refine Acc.intro _ fun d hd => ?_
      obtain ⟨t', ht', hid, hdep⟩ := hd
      obtain rfl := List.inj_on_of_nodup_map hids ht' (hsub List.mem_cons_self) hid
      exact hbefore d (h.1 d hdep)
    intro s hs
    rcases List.mem_cons.mp hs with rfl | hs
    · exact ht
    · refine ih h.2 (fun u hu => hsub (List.mem_cons_of_mem _ hu)) (fun x hx => ?_) s hs
      rcases List.mem_cons.mp hx with rfl | hx
      · exact ht
      · exact hbefore x hx

/-- Steps in order have known and acyclic dependencies. -/
theorem InOrder.acceptable (h : InOrder [] steps) (hids : (stepIds steps).Nodup) :
    ¬ (HasUnknown steps ∨ IsCyclic steps) := by
  rintro (⟨s, hs, d, hd, hnot⟩ | hcyclic)
  · exact hnot ((h.mem hs hd).resolve_left List.not_mem_nil)
  · refine hcyclic (acyclic_of_acc fun x => ?_)
    by_cases hx : x ∈ stepIds steps
    · obtain ⟨s, hs, rfl⟩ := List.mem_map.mp hx
      exact h.acc hids (List.Subset.refl _) (fun y hy => by cases hy) s hs
    · exact Acc.intro _ fun d hd => absurd (DependsOn.mem hd) hx

end InOrder

/-! ## Against another workflow -/

section Prefix

open SequentialWorkflow

variable {steps rest : List WorkflowStep} {agentExecutor : WorkflowStep → ExecOutcome}
  {skipError : StepError} {e : Execution}

/-- Behind a step that failed, a chain is skipped. -/
theorem Delivers.not_started (h : Delivers steps agentExecutor skipError e)
    (hids : (stepIds steps).Nodup) {s : WorkflowStep} (hsub : rest ⊆ steps)
    (hchain : (s :: rest).IsChain fun s t => s.stepId ∈ t.dependsOn)
    (hfailed : ∃ r ∈ e.result.stepResults, r.stepId = s.stepId ∧ r.success = false) :
    ∀ t ∈ rest, .started t.stepId ∉ e.log := by
  induction rest generalizing s with
  | nil => exact fun t ht => by cases ht
  | cons u rest ih =>
    obtain ⟨hlink, hchain⟩ := List.isChain_cons_cons.mp hchain
    obtain ⟨r, hr, hid, hfail⟩ := hfailed
    have hskip : ¬ ∀ d ∈ u.dependsOn, ∃ r ∈ e.result.stepResults,
        r.stepId = d ∧ r.success = true := by
      intro hall
      obtain ⟨r', hr', hid', hsucc⟩ := hall s.stepId hlink
      obtain rfl := h.eq_of_stepId hids hr hr' (hid.trans hid'.symm)
      rw [hsucc] at hfail
      cases hfail
    obtain ⟨hresult, hcount⟩ := h.skipped u (hsub List.mem_cons_self) hskip
    intro t ht
    rcases List.mem_cons.mp ht with rfl | ht
    · exact List.count_eq_zero.mp hcount
    · exact ih (fun v hv => hsub (List.mem_cons_of_mem _ hv)) hchain ⟨_, hresult, rfl, rfl⟩ t ht

/-- The attempted steps return, and their results come after those of steps that all succeeded. -/
theorem Delivers.attempted (h : Delivers steps agentExecutor skipError e)
    (hids : (stepIds steps).Nodup) {before : List String} {results results' : List StepResult}
    (hsub : rest ⊆ steps) (hresults : e.result.stepResults = results' ++ results)
    (hrest : results.map (·.stepId) = stepIds rest) (horder : InOrder before rest)
    (hbefore : ∀ d ∈ before, ∃ r ∈ e.result.stepResults, r.stepId = d ∧ r.success = true) :
    (attempted agentExecutor rest).map (resultOf (runStep agentExecutor)) <+: results ∧
      (∀ s ∈ attempted agentExecutor rest,
        ¬ StepEscapes agentExecutor s ∧ .started s.stepId ∈ e.log) ∧
      (Chained rest → ∀ s ∈ rest, .started s.stepId ∈ e.log →
        s ∈ attempted agentExecutor rest) := by
  induction rest generalizing before results results' with
  | nil =>
    unfold SequentialWorkflow.attempted
    refine ⟨List.nil_prefix, ?_, ?_⟩
    · intro s hs
      cases hs
    · intro _ s hs
      cases hs
  | cons s rest ih =>
    have hs : s ∈ steps := hsub List.mem_cons_self
    obtain ⟨hdeps, horder⟩ := horder
    cases results with
    | nil => cases hrest
    | cons r results =>
      obtain ⟨hid, htail⟩ := List.cons.inj hrest
      have hr : r ∈ e.result.stepResults := by
        rw [hresults]
        exact List.mem_append_right _ List.mem_cons_self
      obtain ⟨⟨r', hr', hrun⟩, hcount⟩ := h.executed s hs fun d hd => hbefore d (hdeps d hd)
      obtain rfl : r = r' := h.eq_of_stepId hids hr hr' (hid.trans (stepId_of_runStep hrun).symm)
      obtain rfl : resultOf (runStep agentExecutor) s = r := resultOf_of_ok hrun
      have hreturns : ¬ StepEscapes agentExecutor s := by
        rintro ⟨exc, hexc⟩
        cases hrun.symm.trans hexc
      have hstarted : .started s.stepId ∈ e.log := List.count_pos_iff.mp (by omega)
      unfold SequentialWorkflow.attempted
      by_cases hsucc : (resultOf (runStep agentExecutor) s).success = true
      · rw [if_pos hsucc]
        have hresults' : e.result.stepResults =
            (results' ++ [resultOf (runStep agentExecutor) s]) ++ results := by
          rw [hresults, List.append_assoc, List.singleton_append]
        obtain ⟨hinit, hstart, hchained⟩ :=
          ih (fun t ht => hsub (List.mem_cons_of_mem _ ht)) hresults' htail horder (by
            intro d hd
            rcases List.mem_cons.mp hd with rfl | hd
            · exact ⟨_, hr, runStep_stepId agentExecutor s, hsucc⟩
            · exact hbefore d hd)
        refine ⟨List.cons_prefix_cons.mpr ⟨rfl, hinit⟩, fun t ht => ?_,
          fun hchain t ht hmem => ?_⟩
        · rcases List.mem_cons.mp ht with rfl | ht
          · exact ⟨hreturns, hstarted⟩
          · exact hstart t ht
        · rcases List.mem_cons.mp ht with rfl | ht
          · exact List.mem_cons_self
          · exact List.mem_cons_of_mem _ (hchained (List.IsChain.tail hchain) t ht hmem)
      · rw [if_neg hsucc]
        refine ⟨List.cons_prefix_cons.mpr ⟨rfl, List.nil_prefix⟩, fun t ht => ?_,
          fun hchain t ht hmem => ?_⟩
        · obtain rfl := List.mem_singleton.mp ht
          exact ⟨hreturns, hstarted⟩
        · rcases List.mem_cons.mp ht with rfl | ht
          · exact List.mem_cons_self
          · have hfailed : ∃ r ∈ e.result.stepResults, r.stepId = s.stepId ∧ r.success = false :=
              ⟨_, hr, runStep_stepId agentExecutor s, Bool.eq_false_iff.mpr hsucc⟩
            exact absurd hmem (h.not_started hids
              (fun u hu => hsub (List.mem_cons_of_mem _ hu)) hchain hfailed t ht)

/-- What another workflow makes of the steps that the sequential workflow `s` was given: it starts
with the results of `s`, and goes on with more only if `s` failed. -/
structure Continues (steps : List WorkflowStep) (s e : Execution) : Prop where
  results : s.result.stepResults <+: e.result.stepResults
  started : ∀ x, .started x ∈ s.log → .started x ∈ e.log
  success : s.result.status = .SUCCESS ↔ e.result.status = .SUCCESS
  complete : s.result.status = .SUCCESS → s.result.stepResults = e.result.stepResults
  chain : Chained steps → ∀ x, .started x ∈ s.log ↔ .started x ∈ e.log

/-- Where a run of steps in order delivers, the sequential workflow returns, and is continued. -/
theorem Delivers.continues (h : Delivers steps agentExecutor skipError e)
    (hids : (stepIds steps).Nodup) (horder : InOrder [] steps) :
    ∃ s, SequentialWorkflow.execute agentExecutor steps = .ok s ∧ Continues steps s e := by
  obtain ⟨hinit, hstart, hchained⟩ := h.attempted hids (List.Subset.refl steps)
    (List.nil_append _).symm h.oneEach horder (fun d hd => by cases hd)
  refine ⟨_, execute_eq fun s hs => (hstart s hs).1, ?_⟩
  have hstarted : ∀ x, .started x ∈ (executeAttempted agentExecutor steps).log ↔
      x ∈ stepIds (SequentialWorkflow.attempted agentExecutor steps) := fun x => started_runLog
  have hforward : ∀ x, .started x ∈ (executeAttempted agentExecutor steps).log →
      .started x ∈ e.log := by
    intro x hx
    obtain ⟨s, hs, rfl⟩ := List.mem_map.mp ((hstarted x).mp hx)
    exact (hstart s hs).2
  -- If every attempted step succeeds, the results are those of all steps.
  have hcomplete : (∀ r ∈ (executeAttempted agentExecutor steps).result.stepResults,
      r.success = true) →
      (executeAttempted agentExecutor steps).result.stepResults = e.result.stepResults := by
    intro hall
    have hself := attempted_eq_self fun s hs => hall _ (List.mem_map_of_mem hs)
    have hlength := congrArg List.length h.oneEach
    rw [List.length_map, stepIds, List.length_map] at hlength
    refine hinit.eq_of_length ?_
    rw [List.length_map, hself, hlength]
  have hstatus : (executeAttempted agentExecutor steps).result.status = .SUCCESS ↔
      ∀ r ∈ (executeAttempted agentExecutor steps).result.stepResults, r.success = true :=
    ite_eq_left_iff.trans (by simp [executeAttempted])
  refine ⟨hinit, hforward, ?_, fun hsucc => hcomplete (hstatus.mp hsucc), fun hchain x => ?_⟩
  · rw [hstatus, h.status]
    constructor
    · intro hall
      rw [if_pos (hcomplete hall ▸ hall)]
    · intro hsucc
      have hall : ∀ r ∈ e.result.stepResults, r.success = true := by
        by_contra hnot
        rw [if_neg hnot] at hsucc
        split_ifs at hsucc
      exact fun r hr => hall r (hinit.subset hr)
  · refine ⟨hforward x, fun hx => (hstarted x).mpr ?_⟩
    obtain ⟨s, hs, rfl⟩ := List.mem_map.mp (h.onlySteps x hx)
    exact List.mem_map_of_mem (hchained hchain s hs hx)

end Prefix

/-- For steps with distinct ids that are listed after their dependencies: whenever the parallel or
the hierarchical workflow returns, the sequential one returns too, and is continued. The results
begin with the sequential results, there is success exactly if the sequential workflow succeeds, and
then with the same results, and on a chain the same steps are run. The hierarchical workflow returns
unless an exception escapes from a step whose dependencies all succeed, and the parallel one unless,
in addition, a comparison raises that it makes to take a step out of the remaining ones. -/
theorem sequential_prefix (eq : Comparison) (agentExecutor : WorkflowStep → ExecOutcome)
    {steps : List WorkflowStep} (hids : (stepIds steps).Nodup) (horder : InOrder [] steps) :
    (∀ e, ParallelWorkflow.execute eq agentExecutor steps = .ok e →
      ∃ s, SequentialWorkflow.execute agentExecutor steps = .ok s ∧ Continues steps s e) ∧
    (∀ e, HierarchicalWorkflow.execute agentExecutor steps = .ok e →
      ∃ s, SequentialWorkflow.execute agentExecutor steps = .ok s ∧ Continues steps s e) ∧
    ((∃ e, HierarchicalWorkflow.execute agentExecutor steps = .ok e) ↔
      ∀ s ∈ steps, Runs steps agentExecutor s → ¬ StepEscapes agentExecutor s) ∧
    ((∃ e, ParallelWorkflow.execute eq agentExecutor steps = .ok e) ↔
      (∀ s ∈ steps, Runs steps agentExecutor s → ¬ StepEscapes agentExecutor s) ∧
        ∀ k u t, ParallelWorkflow.Compared steps agentExecutor k u t → ¬ CompareRaises eq u t) := by
  have hgood := horder.acceptable hids
  refine ⟨fun e he => ?_, fun e he => ?_, ?_, ?_⟩
  · rcases ParallelWorkflow.execute_cases eq agentExecutor hids with
      ⟨-, r, herr, -⟩ | ⟨-, e', hok, -, hdelivers, -⟩ | ⟨-, r, m, herr, -⟩
    · cases he.symm.trans herr
    · obtain rfl := Except.ok.inj (he.symm.trans hok)
      exact hdelivers.continues hids horder
    · cases he.symm.trans herr
  · rcases HierarchicalWorkflow.execute_cases agentExecutor hids with
      ⟨-, r, herr, -⟩ | ⟨-, e', hok, hdelivers, -⟩ | ⟨-, r, m, herr, -⟩
    · cases he.symm.trans herr
    · obtain rfl := Except.ok.inj (he.symm.trans hok)
      exact hdelivers.continues hids horder
    · cases he.symm.trans herr
  · rcases HierarchicalWorkflow.execute_cases agentExecutor hids with
      ⟨hbad, -⟩ | ⟨hacc, e, hok, -, hnone⟩ | ⟨-, r, m, herr, -, hescapes, -⟩
    · exact absurd hbad hgood
    · refine iff_of_true ⟨e, hok⟩ fun s hs hruns hescapes => ?_
      obtain ⟨k, -, hat⟩ := hacc.exists_atDepth (hasChain_zero (DependsOn steps) s.stepId)
      exact hnone k ⟨s, hs, hat, hruns, hescapes⟩
    · obtain ⟨s, hs, -, hruns, hescapes⟩ := hescapes
      refine iff_of_false ?_ fun hall => hall s hs hruns hescapes
      rintro ⟨e, hok⟩
      cases hok.symm.trans herr
  · rcases ParallelWorkflow.execute_cases eq agentExecutor hids with
      ⟨hbad, -⟩ | ⟨hacc, e, hok, -, -, hall⟩ | ⟨hacc, r, m, herr, -, hraises⟩
    · exact absurd hbad hgood
    · exact iff_of_true ⟨e, hok⟩ ((ParallelWorkflow.forall_passes_iff hacc).mp hall)
    · refine iff_of_false ?_ fun hcond =>
        hraises.not_passes ((ParallelWorkflow.forall_passes_iff hacc).mpr hcond m)
      rintro ⟨e, hok⟩
      cases hok.symm.trans herr

/-- `sequential_prefix` on a merge of which one dependency fails. -/
theorem sequential_prefix_fetchMerge :
    ∃ e s, HierarchicalWorkflow.execute (ParallelWorkflow.failOn "s1")
        ParallelWorkflow.fetchMerge = .ok e ∧
      SequentialWorkflow.execute (ParallelWorkflow.failOn "s1")
        ParallelWorkflow.fetchMerge = .ok s ∧
      Continues ParallelWorkflow.fetchMerge s e := by
  obtain ⟨-, hhier, -, -⟩ := sequential_prefix ParallelWorkflow.compareArrays
    (ParallelWorkflow.failOn "s1") (by decide)
    (show InOrder [] ParallelWorkflow.fetchMerge by simp [ParallelWorkflow.fetchMerge, InOrder])
  have hreturns : (HierarchicalWorkflow.execute (ParallelWorkflow.failOn "s1")
      ParallelWorkflow.fetchMerge).isOk = true := by decide +kernel
  cases hrun : HierarchicalWorkflow.execute (ParallelWorkflow.failOn "s1")
      ParallelWorkflow.fetchMerge with
  | error r =>
    rw [hrun] at hreturns
    cases hreturns
  | ok e =>
    obtain ⟨s, hs, hcontinues⟩ := hhier e hrun
    exact ⟨e, s, rfl, hs, hcontinues⟩

end MeshRouter.Workflows
