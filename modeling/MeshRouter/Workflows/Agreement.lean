import MeshRouter.Workflows.LevelRuns
import MeshRouter.Workflows.Waves

/-!
# When the parallel and the hierarchical workflow agree

Both workflows deliver (`Delivers`), and over known acyclic dependencies what they owe determines
which steps succeed (`Delivers.success_iff`). So their results carry the same success flags in the
same order, whatever waves or levels they ran in, and the flags determine the rest: the status, and
which steps were run. If an exception escapes from a step, it ends both runs at the depth of the
step, and both started the same steps before.

Only the parallel workflow compares steps. It agrees with the other one exactly if no comparison
raises before an exception of a step escapes anyway (`workflows_agree_iff`).

Before that, both validators reject the same steps, although one counts what Kahn's algorithm visits
and the other colours a depth-first search (`validators_agree`).
-/

namespace MeshRouter.Workflows

open Lib

variable {steps : List WorkflowStep} {agentExecutor : WorkflowStep → ExecOutcome}
  {skipError skipError' : StepError} {e e' : Execution}

/-! ## The validators -/

/-- A validator raises a `ValueError`. -/
def RaisesValueError (outcome : Except WorkflowError Unit) : Prop :=
  ∃ e, outcome = .error e ∧ e.IsValueError

/-- What a validator does that accepts known and acyclic dependencies, and rejects others. -/
theorem raisesValueError_iff {outcome : Except WorkflowError Unit}
    (h : (outcome = .ok () ∧ ¬ HasUnknown steps ∧ Acyclic (DependsOn steps)) ∨
      ∃ e, outcome = .error e ∧ e.IsValueError ∧ (HasUnknown steps ∨ IsCyclic steps)) :
    (RaisesValueError outcome ↔ HasUnknown steps ∨ IsCyclic steps) ∧
      (¬ RaisesValueError outcome → outcome = .ok ()) := by
  rcases h with ⟨hok, hknown, hacyclic⟩ | ⟨e, herr, hvalue, hbad⟩
  · refine ⟨iff_of_false ?_ (not_or.mpr ⟨hknown, not_not.mpr hacyclic⟩), fun _ => hok⟩
    rintro ⟨e, herr, -⟩
    cases hok.symm.trans herr
  · have hraises : RaisesValueError outcome := ⟨e, herr, hvalue⟩
    exact ⟨iff_of_true hraises hbad, fun hnot => absurd hraises hnot⟩

/-- For steps with distinct ids, which may repeat their dependencies, each validator raises a
`ValueError` exactly when a dependency is unknown or some step leads back to itself along the
dependencies. So one rejects what the other rejects, and both accept the rest. -/
theorem validators_agree (hids : (stepIds steps).Nodup) :
    (RaisesValueError (ParallelWorkflow.validateDependencies steps) ↔
        HasUnknown steps ∨ ∃ x, Relation.TransGen (DependsOn steps) x x) ∧
      (RaisesValueError (HierarchicalWorkflow.validate steps) ↔
        HasUnknown steps ∨ ∃ x, Relation.TransGen (DependsOn steps) x x) ∧
      (¬ RaisesValueError (ParallelWorkflow.validateDependencies steps) →
        ParallelWorkflow.validateDependencies steps = .ok ()) ∧
      (¬ RaisesValueError (HierarchicalWorkflow.validate steps) →
        HierarchicalWorkflow.validate steps = .ok ()) := by
  have hcycle : IsCyclic steps ↔ ∃ x, Relation.TransGen (DependsOn steps) x x := by
    unfold IsCyclic Acyclic
    exact not_forall_not
  obtain ⟨hparIff, hparOk⟩ :=
    raisesValueError_iff (ParallelWorkflow.validateDependencies_cases hids)
  obtain ⟨hhierIff, hhierOk⟩ := raisesValueError_iff (HierarchicalWorkflow.validate_cases steps)
  rw [← hcycle]
  exact ⟨hparIff, hhierIff, hparOk, hhierOk⟩

/-- `validators_agree` on a merge: one validator rejects it if the other does. -/
theorem validators_agree_fetchMerge :
    RaisesValueError (ParallelWorkflow.validateDependencies ParallelWorkflow.fetchMerge) ↔
      RaisesValueError (HierarchicalWorkflow.validate ParallelWorkflow.fetchMerge) := by
  obtain ⟨hpar, hhier, -, -⟩ :=
    validators_agree (show (stepIds ParallelWorkflow.fetchMerge).Nodup by decide)
  exact hpar.trans hhier.symm

/-! ## The runs -/

open Classical in
/-- The success flags of what a workflow delivers are those of the steps that succeed. -/
theorem Delivers.flags (h : Delivers steps agentExecutor skipError e)
    (hids : (stepIds steps).Nodup) (hgood : ¬ (HasUnknown steps ∨ IsCyclic steps)) :
    e.result.stepResults.map (·.success) =
      (stepIds steps).map fun x => decide (Succeeds steps agentExecutor x) := by
  obtain ⟨hknown, hacyclic⟩ := not_or.mp hgood
  rw [← h.oneEach, List.map_map]
  refine List.map_congr_left fun r hr => ?_
  have hid : r.stepId ∈ stepIds steps := by
    rw [← h.oneEach]
    exact List.mem_map.mpr ⟨r, hr, rfl⟩
  obtain ⟨s, hs, hsr⟩ := List.mem_map.mp hid
  have hiff := h.success_iff hids hknown (not_not.mp hacyclic) hs
  rw [Function.comp_apply, Bool.eq_iff_iff, decide_eq_true_iff, ← hsr, ← hiff]
  constructor
  · exact fun hsucc => ⟨r, hr, hsr.symm, hsucc⟩
  · rintro ⟨r', hr', hid', hsucc⟩
    rwa [h.eq_of_stepId hids hr hr' (hsr.symm.trans hid'.symm)]

/-- A delivered status is determined by the flags. -/
theorem Delivers.status_eq (h : Delivers steps agentExecutor skipError e)
    (h' : Delivers steps agentExecutor skipError' e')
    (hflags : e.result.stepResults.map (·.success) = e'.result.stepResults.map (·.success)) :
    e.result.status = e'.result.status := by
  -- The two questions that the status asks are about the flags.
  have hall : ∀ rs : List StepResult,
      (∀ r ∈ rs, r.success = true) ↔ ∀ b ∈ rs.map (·.success), b = true := by simp
  have hany : ∀ rs : List StepResult,
      (∃ r ∈ rs, r.success = true) ↔ ∃ b ∈ rs.map (·.success), b = true := by simp
  rw [h.status, h'.status]
  refine if_congr ?_ rfl (if_congr ?_ rfl rfl)
  · rw [hall, hall, hflags]
  · rw [hany, hany, hflags]

/-- A delivered run started the steps whose dependencies all succeed. -/
theorem Delivers.started_iff (h : Delivers steps agentExecutor skipError e)
    (hids : (stepIds steps).Nodup) (hgood : ¬ (HasUnknown steps ∨ IsCyclic steps)) {x : String} :
    .started x ∈ e.log ↔
      ∃ s ∈ steps, s.stepId = x ∧ ∀ d ∈ s.dependsOn, Succeeds steps agentExecutor d := by
  obtain ⟨hknown, hacyclic⟩ := not_or.mp hgood
  have hdeps : ∀ s ∈ steps, (∀ d ∈ s.dependsOn, ∃ r ∈ e.result.stepResults,
      r.stepId = d ∧ r.success = true) ↔ ∀ d ∈ s.dependsOn, Succeeds steps agentExecutor d := by
    intro s hs
    refine forall₂_congr fun d hd => ?_
    have hmem := DependsOn.mem_right (⟨s, hs, rfl, hd⟩ : DependsOn steps s.stepId d) hknown
    obtain ⟨t, ht, rfl⟩ := List.mem_map.mp hmem
    exact h.success_iff hids hknown (not_not.mp hacyclic) ht
  constructor
  · intro hx
    obtain ⟨s, hs, rfl⟩ := List.mem_map.mp (h.onlySteps x hx)
    refine ⟨s, hs, rfl, (hdeps s hs).mp ?_⟩
    by_contra hnot
    exact List.count_eq_zero.mp (h.skipped s hs hnot).2 hx
  · rintro ⟨s, hs, rfl, hall⟩
    have hcount := (h.executed s hs ((hdeps s hs).mpr hall)).2
    exact List.count_pos_iff.mp (by omega)

/-- Two runs of the same steps agree: both return or both raise, they started the same steps, and if
they return, their results have the same ids, success flags and status. -/
structure Agree (run run' : Except Raised Execution) : Prop where
  returns : (∃ e, run = .ok e) ↔ ∃ e, run' = .ok e
  started : ∀ x, .started x ∈ logOf run ↔ .started x ∈ logOf run'
  results : ∀ e e', run = .ok e → run' = .ok e' →
    e.result.stepResults.map (fun r => (r.stepId, r.success)) =
        e'.result.stepResults.map (fun r => (r.stepId, r.success)) ∧
      e.result.status = e'.result.status

/-- Two runs that raise agree if they started the same steps. -/
theorem agree_of_errors {r r' : Raised} (hstarted : ∀ x, .started x ∈ r.log ↔ .started x ∈ r'.log) :
    Agree (.error r) (.error r') :=
  ⟨iff_of_false (by rintro ⟨e, he⟩; cases he) (by rintro ⟨e, he⟩; cases he), hstarted,
    fun e e' he => by cases he⟩

/-- Two runs that deliver agree. -/
theorem Delivers.agree (h : Delivers steps agentExecutor skipError e)
    (h' : Delivers steps agentExecutor skipError' e') (hacc : Acceptable steps) :
    Agree (.ok e) (.ok e') := by
  have hgood : ¬ (HasUnknown steps ∨ IsCyclic steps) :=
    not_or.mpr ⟨hacc.known, not_not.mpr hacc.acyclic⟩
  have hflags := (h.flags hacc.nodup hgood).trans (h'.flags hacc.nodup hgood).symm
  refine ⟨iff_of_true ⟨e, rfl⟩ ⟨e', rfl⟩, fun x => ?_, ?_⟩
  · exact (h.started_iff hacc.nodup hgood).trans (h'.started_iff hacc.nodup hgood).symm
  · rintro _ _ ⟨⟩ ⟨⟩
    refine ⟨?_, h.status_eq h' hflags⟩
    rw [← List.zip_map', ← List.zip_map', hflags, h.oneEach, h'.oneEach]

/-- A run that raises before any exception of a step escapes is not what the hierarchical workflow
does: it goes on and returns, or ends with the exception of a step that it started later. -/
theorem not_agree_of_none_escapes {r : Raised} {k : ℕ} (hacc : Acceptable steps)
    (hlog : ∀ x, .started x ∈ r.log ↔ RunsBelow steps agentExecutor k x)
    (hnone : ∀ j < k, ¬ EscapesAt steps agentExecutor j) :
    ¬ Agree (.error r) (HierarchicalWorkflow.execute agentExecutor steps) := by
  intro hagree
  rcases HierarchicalWorkflow.execute_cases agentExecutor hacc.nodup with
    ⟨hbad, -⟩ | ⟨-, e, hok, -⟩ | ⟨-, e, m, herr, -, hescapes, hlog'⟩
  · exact not_or.mpr ⟨hacc.known, not_not.mpr hacc.acyclic⟩ hbad
  · obtain ⟨e', he'⟩ := hagree.returns.mpr ⟨e, hok⟩
    cases he'
  · have hm : k ≤ m := not_lt.mp fun hlt => hnone m hlt hescapes
    obtain ⟨s, hs, hat, hruns, -⟩ := hescapes
    have hlater : .started s.stepId ∈ logOf (HierarchicalWorkflow.execute agentExecutor steps) := by
      rw [herr]
      exact (hlog' s.stepId).mpr ⟨s, hs, rfl, hruns, hat.2⟩
    obtain ⟨t, -, -, -, hbelow⟩ := (hlog s.stepId).mp ((hagree.started s.stepId).mpr hlater)
    exact hbelow (hat.1.of_le hm)

/-- A run that raises with the exceptions of the first depth at which one escapes is what the
hierarchical workflow does. -/
theorem agree_of_first_escapes {r : Raised} {k : ℕ} (hacc : Acceptable steps)
    (hlog : ∀ x, .started x ∈ r.log ↔ RunsBelow steps agentExecutor (k + 1) x)
    (hnone : ∀ j < k, ¬ EscapesAt steps agentExecutor j)
    (hescapes : EscapesAt steps agentExecutor k) :
    Agree (.error r) (HierarchicalWorkflow.execute agentExecutor steps) := by
  rcases HierarchicalWorkflow.execute_cases agentExecutor hacc.nodup with
    ⟨hbad, -⟩ | ⟨-, e, -, -, hnone'⟩ | ⟨-, e, m, herr, hnone', hescapes', hlog'⟩
  · exact absurd hbad (not_or.mpr ⟨hacc.known, not_not.mpr hacc.acyclic⟩)
  · exact absurd hescapes (hnone' k)
  · have hge : k ≤ m := not_lt.mp fun hlt => hnone m hlt hescapes'
    have hle : m ≤ k := not_lt.mp fun hlt => hnone' k hlt hescapes
    obtain rfl : k = m := by omega
    rw [herr]
    exact agree_of_errors fun x => (hlog x).trans (hlog' x).symm

/-- For steps with distinct ids the two workflows agree exactly if the steps are rejected, or each
comparison that raises when the parallel workflow takes a step out of the remaining ones comes after
an exception of a step has escaped: of one at a smaller depth than the step that is taken out, or at
the same depth if that step was run. -/
theorem workflows_agree_iff (eq : Comparison) (agentExecutor : WorkflowStep → ExecOutcome)
    (hids : (stepIds steps).Nodup) :
    Agree (ParallelWorkflow.execute eq agentExecutor steps)
        (HierarchicalWorkflow.execute agentExecutor steps) ↔
      HasUnknown steps ∨ IsCyclic steps ∨
        ∀ k u t, ParallelWorkflow.Compared steps agentExecutor k u t → CompareRaises eq u t →
          ∃ j, EscapesAt steps agentExecutor j ∧
            (j < k ∨ (j = k ∧ Runs steps agentExecutor t)) := by
  rcases ParallelWorkflow.execute_cases eq agentExecutor hids with
    ⟨hbad, r, herr, -⟩ | ⟨hacc, e, hok, -, hdel, hall⟩ | ⟨hacc, r, m, herr, hbefore, hraises⟩
  · -- Both reject the steps.
    rw [herr]
    refine iff_of_true ?_ (or_assoc.mp (Or.inl hbad))
    rcases HierarchicalWorkflow.execute_cases agentExecutor hids with
      ⟨-, r', herr', -⟩ | ⟨hacc, -⟩ | ⟨hacc, -⟩
    · rw [herr']
      exact agree_of_errors fun x => Iff.rfl
    · exact absurd hbad (not_or.mpr ⟨hacc.known, not_not.mpr hacc.acyclic⟩)
    · exact absurd hbad (not_or.mpr ⟨hacc.known, not_not.mpr hacc.acyclic⟩)
  · -- Both return: every turn passes, and so no exception escapes.
    rw [hok]
    have hcompare := ((ParallelWorkflow.forall_passes_iff hacc).mp hall).2
    refine iff_of_true ?_ (Or.inr (Or.inr fun k u t hcompared hraises =>
      absurd hraises (hcompare k u t hcompared)))
    rcases HierarchicalWorkflow.execute_cases agentExecutor hids with
      ⟨hbad, -⟩ | ⟨-, e', hok', hdel', -⟩ | ⟨-, r', m', -, -, hescapes, -⟩
    · exact absurd hbad (not_or.mpr ⟨hacc.known, not_not.mpr hacc.acyclic⟩)
    · rw [hok']
      exact hdel.agree hdel' hacc
    · exact absurd hescapes (hall m').2.1
  · rw [herr]
    have hnone : ∀ j < m, ¬ EscapesAt steps agentExecutor j := fun j hlt => (hbefore j hlt).2.1
    have hgood : ¬ (HasUnknown steps ∨ IsCyclic steps) :=
      not_or.mpr ⟨hacc.known, not_not.mpr hacc.acyclic⟩
    -- The condition is about the comparisons.
    rw [← or_assoc, or_iff_right hgood]
    rcases hraises with ⟨hclash, hlog⟩ | ⟨hskip, hrest, hlog⟩
    · refine iff_of_false (not_agree_of_none_escapes hacc hlog hnone) fun hcond => ?_
      obtain ⟨u, t, hcompared, hruns, hraises⟩ := hclash
      obtain ⟨j, hescapes, hlt | ⟨-, hruns'⟩⟩ := hcond m u t hcompared hraises
      · exact hnone j hlt hescapes
      · exact hruns hruns'
    · by_cases hescapes : EscapesAt steps agentExecutor m
      · -- The exception ends both runs at one depth.
        refine iff_of_true (agree_of_first_escapes hacc hlog hnone hescapes)
          fun k u t hcompared hraises => ?_
        rcases lt_trichotomy k m with hlt | rfl | hlt
        · have hpasses := hbefore k hlt
          by_cases hruns : Runs steps agentExecutor t
          · exact absurd ⟨u, t, hcompared, hruns, hraises⟩ hpasses.2.2
          · exact absurd ⟨u, t, hcompared, hruns, hraises⟩ hpasses.1
        · by_cases hruns : Runs steps agentExecutor t
          · exact ⟨k, hescapes, Or.inr ⟨rfl, hruns⟩⟩
          · exact absurd ⟨u, t, hcompared, hruns, hraises⟩ hskip
        · exact ⟨m, hescapes, Or.inl hlt⟩
      · have hnone' : ∀ j < m + 1, ¬ EscapesAt steps agentExecutor j := by
          intro j hlt
          rcases Nat.lt_succ_iff_lt_or_eq.mp hlt with hlt | rfl
          · exact hnone j hlt
          · exact hescapes
        refine iff_of_false (not_agree_of_none_escapes hacc hlog hnone') fun hcond => ?_
        obtain ⟨u, t, hcompared, -, hraises⟩ := hrest.resolve_left hescapes
        obtain ⟨j, hescapes', hj⟩ := hcond m u t hcompared hraises
        exact hnone' j (by omega) hescapes'

/-- `workflows_agree_iff` on a merge of which one dependency fails: no two of its steps have one
agent, and so no parameters are compared. -/
theorem workflows_agree_fetchMerge :
    Agree (ParallelWorkflow.execute ParallelWorkflow.compareArrays (ParallelWorkflow.failOn "s1")
        ParallelWorkflow.fetchMerge)
      (HierarchicalWorkflow.execute (ParallelWorkflow.failOn "s1")
        ParallelWorkflow.fetchMerge) := by
  refine (workflows_agree_iff _ _ (by decide)).mpr
    (Or.inr (Or.inr fun k u t hcompared hraises => ?_))
  have hagents : ∀ u ∈ ParallelWorkflow.fetchMerge, ∀ t ∈ ParallelWorkflow.fetchMerge,
      u.stepId ≠ t.stepId → (u.equal ParallelWorkflow.compareArrays t).isOk = true := by decide
  have hpair := hcompared.1.subset
  have hne : u.stepId ≠ t.stepId := by
    have hnodup := (show (stepIds ParallelWorkflow.fetchMerge).Nodup by decide).sublist
      (hcompared.1.map _)
    simpa using hnodup
  obtain ⟨exc, hexc⟩ := hraises
  have hok := hagents u (hpair List.mem_cons_self) t
    (hpair (List.mem_cons_of_mem u List.mem_cons_self)) hne
  rw [hexc] at hok
  cases hok

/-- On two analyses of arrays by one agent the parallel workflow raises, when it compares them, and
the hierarchical one returns. -/
theorem arrayPair_disagree : (stepIds ParallelWorkflow.arrayPair).Nodup ∧
    ¬ Agree (ParallelWorkflow.execute ParallelWorkflow.compareArrays (fun _ => .returned .empty)
        ParallelWorkflow.arrayPair)
      (HierarchicalWorkflow.execute (fun _ => .returned .empty) ParallelWorkflow.arrayPair) := by
  refine ⟨by decide, fun hagree => ?_⟩
  have hraises : (ParallelWorkflow.execute ParallelWorkflow.compareArrays
      (fun _ => .returned .empty) ParallelWorkflow.arrayPair).isOk = false := by decide +kernel
  have hreturns : (HierarchicalWorkflow.execute (fun _ => .returned .empty)
      ParallelWorkflow.arrayPair).isOk = true := by decide +kernel
  cases hrun : HierarchicalWorkflow.execute (fun _ => .returned .empty)
      ParallelWorkflow.arrayPair with
  | error r =>
    rw [hrun] at hreturns
    cases hreturns
  | ok e =>
    obtain ⟨e', he'⟩ := hagree.returns.mpr ⟨e, hrun⟩
    rw [he'] at hraises
    cases hraises

end MeshRouter.Workflows
