import MeshRouter.Workflows.Depths
import MeshRouter.Workflows.DepthOrder

/-!
# The hierarchical workflow delivers, if nothing escapes

The levels are the steps of each depth in turn, so when a level runs, the steps of all smaller
depths have their results (`ReachedDepth`). A level leads to the next depth, unless an exception of
a step that it runs escapes (`runLevel_cases`), and the run ends at the first level of which one
does (`execute_cases`).
-/

namespace MeshRouter.Workflows.HierarchicalWorkflow

open Lib

variable {steps level : List WorkflowStep} {agentExecutor : WorkflowStep → ExecOutcome}
  {p : Progress} {k : ℕ}

/-- A step has a failed parent exactly when not all its recorded dependencies succeeded. -/
theorem hasFailedParent_iff {s : WorkflowStep} (hrec : ∀ d ∈ s.dependsOn, p.Recorded d) :
    hasFailedParent p.results s = true ↔ ¬ ∀ d ∈ s.dependsOn, p.Succeeded d := by
  unfold hasFailedParent
  rw [List.any_eq_true, not_forall]
  refine exists_congr fun d => ?_
  rw [Classical.not_imp]
  refine and_congr_right fun hd => ?_
  obtain ⟨r, hr⟩ := Dict.mem_keys_iff.mp (hrec d hd)
  simp [Progress.Succeeded, hr]

/-- The steps at a depth are divided into those with a failed parent and the others. -/
theorem isWave (h : ReachedDepth steps agentExecutor .parentStepFailed k p)
    (hacc : Acceptable steps) (hnodup : (stepIds level).Nodup)
    (hlevel : ∀ s, s ∈ level ↔ s ∈ steps ∧ AtDepth steps k s) :
    IsWave steps agentExecutor k (level.filter (hasFailedParent p.results))
      (level.filter fun s => !hasFailedParent p.results s) := by
  have hfailed : ∀ s ∈ level,
      (hasFailedParent p.results s = true ↔ ¬ Runs steps agentExecutor s) := by
    intro s hs
    obtain ⟨hmem, hat⟩ := (hlevel s).mp hs
    have hdeps := ((h.atDepth_iff hacc hmem).mp hat).2
    rw [hasFailedParent_iff hdeps, h.runs_iff hacc hmem hdeps]
  constructor
  · exact hnodup.sublist (List.filter_sublist.map _)
  · exact hnodup.sublist (List.filter_sublist.map _)
  · intro s
    rw [List.mem_filter, ← and_assoc, ← hlevel]
    exact and_congr_right (hfailed s)
  · intro s
    rw [List.mem_filter, ← and_assoc, ← hlevel, Bool.not_eq_true', ← Bool.not_eq_true]
    exact and_congr_right fun hs => by rw [hfailed s hs, not_not]

/-- A level leads to the next depth, or an exception escapes. -/
theorem runLevel_cases (h : ReachedDepth steps agentExecutor .parentStepFailed k p)
    (hacc : Acceptable steps) (hnodup : (stepIds level).Nodup)
    (hlevel : ∀ s, s ∈ level ↔ s ∈ steps ∧ AtDepth steps k s) :
    (¬ EscapesAt steps agentExecutor k ∧ ∃ p', runLevel agentExecutor p level = .ok p' ∧
      ReachedDepth steps agentExecutor .parentStepFailed (k + 1) p') ∨
    (EscapesAt steps agentExecutor k ∧ ∃ e, runLevel agentExecutor p level = .error e ∧
      ∀ x, .started x ∈ e.log ↔ RunsBelow steps agentExecutor (k + 1) x) := by
  have hwave := isWave h hacc hnodup hlevel
  unfold runLevel Progress.runAll
  dsimp only
  rcases h.gather_cases hacc hwave with ⟨hreturns, hgather⟩ | ⟨hescapes, e, herr, hlog⟩
  · rw [hgather]
    exact Or.inl ⟨hreturns, _, rfl, h.advance hacc hwave hreturns⟩
  · rw [herr]
    exact Or.inr ⟨hescapes, e, rfl, hlog⟩

/-- Levels of steps at one depth after another lead behind the last of these depths, or the run ends
at the first of them at which an exception escapes. -/
theorem runLevels_cases {level : ℕ → List WorkflowStep} (hacc : Acceptable steps)
    (hnodup : ∀ j, (stepIds (level j)).Nodup)
    (hlevel : ∀ j s, s ∈ level j ↔ s ∈ steps ∧ AtDepth steps j s) (n : ℕ)
    (h : ReachedDepth steps agentExecutor .parentStepFailed k p) :
    (∃ p', runLevels agentExecutor ((List.range' k n).map level) p = .ok p' ∧
      ReachedDepth steps agentExecutor .parentStepFailed (k + n) p' ∧
      ∀ j, k ≤ j → j < k + n → ¬ EscapesAt steps agentExecutor j) ∨
    ∃ e m, runLevels agentExecutor ((List.range' k n).map level) p = .error e ∧
      (∀ j, k ≤ j → j < m → ¬ EscapesAt steps agentExecutor j) ∧
      EscapesAt steps agentExecutor m ∧
      ∀ x, .started x ∈ e.log ↔ RunsBelow steps agentExecutor (m + 1) x := by
  induction n generalizing k p with
  | zero => exact Or.inl ⟨p, rfl, h, fun j hj hlt => absurd hj (by omega)⟩
  | succ n ih =>
    rw [List.range'_succ, List.map_cons, runLevels]
    rcases runLevel_cases h hacc (hnodup k) (hlevel k) with
      ⟨hreturns, p', hok, hnext⟩ | ⟨hescapes, e, herr, hlog⟩
    · have hfrom : ∀ j, k ≤ j → j ≠ k → k + 1 ≤ j := fun j hj hne => by omega
      rw [hok]
      dsimp only
      rcases ih hnext with ⟨p'', hrest, hreached, hall⟩ | ⟨e, m, hrest, hall, hescapes, hlog⟩
      · have hend : k + 1 + n = k + (n + 1) := by omega
        refine Or.inl ⟨p'', hrest, hend ▸ hreached, fun j hj hlt => ?_⟩
        by_cases hjk : j = k
        · exact hjk ▸ hreturns
        · exact hall j (hfrom j hj hjk) (by omega)
      · refine Or.inr ⟨e, m, hrest, fun j hj hlt => ?_, hescapes, hlog⟩
        by_cases hjk : j = k
        · exact hjk ▸ hreturns
        · exact hall j (hfrom j hj hjk) hlt
    · rw [herr]
      exact Or.inr ⟨e, k, rfl, fun j hj hlt => absurd hj (by omega), hescapes, hlog⟩

/-- The levels of known acyclic dependencies are the steps at each depth, up to one that is not
reached. -/
theorem computeLevels_eq (hacc : Acceptable steps) :
    ∃ (level : ℕ → List WorkflowStep) (n : ℕ),
      computeLevels steps = .ok ((List.range' 0 n).map level) ∧
      (∀ j, (stepIds (level j)).Nodup) ∧
      (∀ j s, s ∈ level j ↔ s ∈ steps ∧ AtDepth steps j s) ∧
      ∀ s ∈ steps, ¬ HasChain (DependsOn steps) s.stepId n := by
  have hempty : DepthOrdered steps .empty := fun x n hx => by cases hx
  obtain ⟨depth, hdepths, hordered, -, hall⟩ := computeDepths_spec hacc.nodup hacc.known
    hacc.acyclic (List.Subset.refl steps) hempty
  have hattained : Attained steps depth := computeDepths_attained hdepths Dict.all_empty
  have hlevel : ∀ s ∈ steps, depth.get? s.stepId = some (levelOf depth s) := by
    intro s hs
    obtain ⟨k, hk⟩ := hall s hs
    rw [hk, levelOf, Dict.getD, hk, Option.getD_some]
  have hat : ∀ s ∈ steps, AtDepth steps (levelOf depth s) s := fun s hs =>
    hasDepth_of_isGreatest (isGreatest_depth hordered hattained (hlevel s hs))
  refine ⟨fun k => steps.filter fun s => levelOf depth s = k, depth.values.foldl max 0 + 1, ?_,
    fun j => hacc.nodup.sublist (List.filter_sublist.map _), fun j s => ?_, fun s hs hchain => ?_⟩
  · unfold computeLevels
    rw [hdepths]
    dsimp only
    rw [groupByDepth_eq, List.range_eq_range']
  · rw [List.mem_filter, decide_eq_true_eq]
    refine and_congr_right fun hs => ⟨fun heq => heq ▸ hat s hs, fun hj => (hat s hs).unique hj⟩
  · -- No step is left out: its depth is at most the largest.
    have hle : levelOf depth s ≤ depth.values.foldl max 0 :=
      le_foldl_max (Or.inr (Dict.mem_values_iff.mpr ⟨s.stepId, hlevel s hs⟩))
    exact (hat s hs).2 (hchain.of_le (by omega))

/-- The ways in which `execute` ends: it rejects the steps, it delivers, or an exception escapes at
some depth, and at none before. -/
theorem execute_cases (agentExecutor : WorkflowStep → ExecOutcome)
    (hids : (stepIds steps).Nodup) :
    ((HasUnknown steps ∨ IsCyclic steps) ∧
      ∃ e, execute agentExecutor steps = .error { error := e } ∧ e.IsValueError) ∨
    (Acceptable steps ∧ ∃ e, execute agentExecutor steps = .ok e ∧
      Delivers steps agentExecutor .parentStepFailed e ∧
      ∀ j, ¬ EscapesAt steps agentExecutor j) ∨
    (Acceptable steps ∧ ∃ e m, execute agentExecutor steps = .error e ∧
      (∀ j < m, ¬ EscapesAt steps agentExecutor j) ∧ EscapesAt steps agentExecutor m ∧
      ∀ x, .started x ∈ e.log ↔ RunsBelow steps agentExecutor (m + 1) x) := by
  by_cases hnil : steps = []
  · subst hnil
    obtain ⟨hknown, hacyclic⟩ := not_or.mp nil_acceptable
    refine Or.inr (Or.inl ⟨⟨hids, hknown, not_not.mp hacyclic⟩, _, rfl,
      Faithful.init.delivers hknown (by simp) false, ?_⟩)
    rintro j ⟨s, hs, -⟩
    cases hs
  · unfold execute
    rw [if_neg hnil]
    rcases validate_cases steps with ⟨hok, hknown, hacyclic⟩ | ⟨e, herr, hvalue, hbad⟩
    · have hacc : Acceptable steps := ⟨hids, hknown, hacyclic⟩
      obtain ⟨level, n, hlevels, hnodup, hlevel, hend⟩ := computeLevels_eq hacc
      have hinit : ReachedDepth steps agentExecutor .parentStepFailed 0 {} := ReachedDepth.init
      rw [hok, hlevels]
      dsimp only
      refine Or.inr ?_
      rcases runLevels_cases hacc hnodup hlevel n hinit with
        ⟨p, hrun, hreached, hall⟩ | ⟨e, m, hrun, hall, hescapes, hlog⟩
      · rw [Nat.zero_add] at hreached hall
        rw [hrun]
        refine Or.inl ⟨hacc, _, rfl,
          hreached.faithful.delivers hknown (hreached.recorded_all hend) false,
          fun j hescapes => ?_⟩
        have ⟨s, hs, hat, _⟩ := hescapes
        refine hall j (Nat.zero_le j) ?_ hescapes
        by_contra hle
        exact hend s hs (hat.1.of_le (by omega))
      · rw [hrun]
        exact Or.inr ⟨hacc, e, m, rfl, fun j hlt => hall j (Nat.zero_le j) hlt, hescapes, hlog⟩
    · rw [herr]
      exact Or.inl ⟨hbad, e, rfl, hvalue⟩

end MeshRouter.Workflows.HierarchicalWorkflow
