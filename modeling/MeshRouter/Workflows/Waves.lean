import MeshRouter.Workflows.Kahn
import MeshRouter.Workflows.Removal

/-!
# The parallel workflow delivers, if nothing escapes

`WaveState` is the invariant of the wave loop: the turn for depth `k` begins with the steps at this
depth and above remaining. A turn leads to the next depth (`WaveState.turn_cases`), and while steps
remain some step is at depth `k`, since the dependencies are acyclic: the stall branch is never
reached. When nothing remains, every step has its result.

A turn does not get there in two ways. An exception of a step that it runs may escape, and a
comparison may raise that is made to take a step out of the remaining ones. `Compared` says which
comparisons these are, and `execute_delivers_iff` that nothing else is in the way.
-/

namespace MeshRouter.Workflows.ParallelWorkflow

open Lib

variable {steps remaining : List WorkflowStep} {agentExecutor : WorkflowStep → ExecOutcome}
  {p : Progress}

/-- What a turn does with a step, by its dependencies. -/
theorem readiness_eq (s : WorkflowStep) : readiness p.results s =
    if ∀ d ∈ s.dependsOn, p.Recorded d then
      if ∀ d ∈ s.dependsOn, p.Succeeded d then .ready else .skipNow
    else .waiting := by
  have hrec : (s.dependsOn.map fun d => p.results.get? d).all Option.isSome = true ↔
      ∀ d ∈ s.dependsOn, p.Recorded d := by
    simp [Progress.Recorded, Dict.mem_keys_iff, Option.isSome_iff_exists]
  unfold readiness
  dsimp only
  by_cases hall : ∀ d ∈ s.dependsOn, p.Recorded d
  · have hfail : (s.dependsOn.map fun d => p.results.get? d).any
        (fun r => r.any fun r => !r.success) = true ↔ ¬ ∀ d ∈ s.dependsOn, p.Succeeded d := by
      rw [List.any_map, List.any_eq_true, not_forall]
      refine exists_congr fun d => ?_
      rw [Classical.not_imp]
      refine and_congr_right fun hd => ?_
      obtain ⟨r, hr⟩ := Dict.mem_keys_iff.mp (hall d hd)
      simp [Progress.Succeeded, hr]
    rw [if_neg (not_not.mpr (hrec.mpr hall)), if_pos hall]
    by_cases hsucc : ∀ d ∈ s.dependsOn, p.Succeeded d
    · rw [if_neg (fun hany => hfail.mp hany hsucc), if_pos hsucc]
    · rw [if_pos (hfail.mpr hsucc), if_neg hsucc]
  · rw [if_pos (fun h => hall (hrec.mp h)), if_neg hall]

/-- A step is ready exactly when all its dependencies succeeded. -/
theorem readiness_ready {s : WorkflowStep} :
    readiness p.results s = .ready ↔ ∀ d ∈ s.dependsOn, p.Succeeded d := by
  rw [readiness_eq]
  split_ifs with hrec hsucc
  · exact iff_of_true rfl hsucc
  · simp [hsucc]
  · have hnot : ¬ ∀ d ∈ s.dependsOn, p.Succeeded d :=
      fun hsucc => hrec fun d hd => (hsucc d hd).recorded
    simp [hnot]

/-- A step is skipped exactly when its dependencies have results and not all of them succeeded. -/
theorem readiness_skipNow {s : WorkflowStep} :
    readiness p.results s = .skipNow ↔
      (∀ d ∈ s.dependsOn, p.Recorded d) ∧ ¬ ∀ d ∈ s.dependsOn, p.Succeeded d := by
  rw [readiness_eq]
  split_ifs with hrec hsucc
  · exact iff_of_false (by simp) fun h => h.2 hsucc
  · exact iff_of_true rfl ⟨hrec, hsucc⟩
  · simp [hrec]

/-- The removal of `t`, which is at depth `k`, comes past `u`: `u` is listed before `t`, and it is
not taken out before, for it is at a greater depth, or it is run while `t` is skipped. -/
def Compared (steps : List WorkflowStep) (agentExecutor : WorkflowStep → ExecOutcome) (k : ℕ)
    (u t : WorkflowStep) : Prop :=
  [u, t].Sublist steps ∧ AtDepth steps k t ∧ HasChain (DependsOn steps) u.stepId k ∧
    (AtDepth steps k u → Runs steps agentExecutor u ∧ ¬ Runs steps agentExecutor t)

/-- A comparison raises when a skipped step at the depth is taken out. -/
def SkipClash (eq : Comparison) (steps : List WorkflowStep)
    (agentExecutor : WorkflowStep → ExecOutcome) (k : ℕ) : Prop :=
  ∃ u t, Compared steps agentExecutor k u t ∧ ¬ Runs steps agentExecutor t ∧ CompareRaises eq u t

/-- A comparison raises when a step at the depth is taken out that was run. -/
def RunClash (eq : Comparison) (steps : List WorkflowStep)
    (agentExecutor : WorkflowStep → ExecOutcome) (k : ℕ) : Prop :=
  ∃ u t, Compared steps agentExecutor k u t ∧ Runs steps agentExecutor t ∧ CompareRaises eq u t

/-- How the turn for depth `k` raises, and what was started before: taking out the skipped steps
raises before the others are started, and an exception of one of these leaves before they are taken
out. -/
def RaisesAt (eq : Comparison) (steps : List WorkflowStep)
    (agentExecutor : WorkflowStep → ExecOutcome) (k : ℕ) (e : Raised) : Prop :=
  (SkipClash eq steps agentExecutor k ∧
    ∀ x, .started x ∈ e.log ↔ RunsBelow steps agentExecutor k x) ∨
  (¬ SkipClash eq steps agentExecutor k ∧
    (EscapesAt steps agentExecutor k ∨ RunClash eq steps agentExecutor k) ∧
    ∀ x, .started x ∈ e.log ↔ RunsBelow steps agentExecutor (k + 1) x)

/-- The turn for depth `k` does not raise. -/
def Passes (eq : Comparison) (steps : List WorkflowStep)
    (agentExecutor : WorkflowStep → ExecOutcome) (k : ℕ) : Prop :=
  ¬ SkipClash eq steps agentExecutor k ∧ ¬ EscapesAt steps agentExecutor k ∧
    ¬ RunClash eq steps agentExecutor k

/-- A turn that raises does not pass. -/
theorem RaisesAt.not_passes {eq : Comparison} {k : ℕ} {e : Raised}
    (h : RaisesAt eq steps agentExecutor k e) : ¬ Passes eq steps agentExecutor k := by
  rintro ⟨hskip, hescape, hrun⟩
  rcases h with ⟨hskip', -⟩ | ⟨-, hescape' | hrun', -⟩
  · exact hskip hskip'
  · exact hescape hescape'
  · exact hrun hrun'

/-- The state of the wave loop, at the depth `k`. -/
structure WaveState (steps : List WorkflowStep) (agentExecutor : WorkflowStep → ExecOutcome)
    (k : ℕ) (p : Progress) (remaining : List WorkflowStep) : Prop where
  reached : ReachedDepth steps agentExecutor .dependencyFailed k p
  remaining_eq : remaining = steps.filter fun s => ¬ p.Recorded s.stepId

namespace WaveState

variable {eq : Comparison} {k : ℕ}

/-- The wave loop begins with all steps remaining. -/
theorem init : WaveState steps agentExecutor 0 {} steps := by
  refine ⟨ReachedDepth.init, (List.filter_eq_self.mpr fun s _ => ?_).symm⟩
  exact decide_eq_true (by simp [Progress.Recorded])

/-- The remaining steps are those at depth `k` or above. -/
theorem mem_iff (h : WaveState steps agentExecutor k p remaining) {s : WorkflowStep} :
    s ∈ remaining ↔ s ∈ steps ∧ HasChain (DependsOn steps) s.stepId k := by
  rw [h.remaining_eq, List.mem_filter, decide_eq_true_eq]
  refine and_congr_right fun hs => ?_
  rw [h.reached.recorded s hs, not_not]

/-- Two remaining steps stand as they do in the input. -/
theorem pair_sublist (h : WaveState steps agentExecutor k p remaining) {u t : WorkflowStep}
    (hpair : [u, t].Sublist steps) (hu : u ∈ remaining) (ht : t ∈ remaining) :
    [u, t].Sublist remaining := by
  have hself : [u, t].filter (fun s => ¬ p.Recorded s.stepId) = [u, t] := by
    rw [h.remaining_eq] at hu ht
    refine List.filter_eq_self.mpr fun s hs => ?_
    rcases List.mem_pair.mp hs with rfl | rfl
    · exact (List.mem_filter.mp hu).2
    · exact (List.mem_filter.mp ht).2
  rw [h.remaining_eq, ← hself]
  exact hpair.filter _

/-- What a turn does with a remaining step. -/
theorem readiness_iff (h : WaveState steps agentExecutor k p remaining) (hacc : Acceptable steps)
    {s : WorkflowStep} (hs : s ∈ remaining) :
    (readiness p.results s = .ready ↔ AtDepth steps k s ∧ Runs steps agentExecutor s) ∧
      (readiness p.results s = .skipNow ↔ AtDepth steps k s ∧ ¬ Runs steps agentExecutor s) := by
  obtain ⟨hmem, hchain⟩ := h.mem_iff.mp hs
  have hnew : ¬ p.Recorded s.stepId := fun hrec => (h.reached.recorded s hmem).mp hrec hchain
  have hat : AtDepth steps k s ↔ ∀ d ∈ s.dependsOn, p.Recorded d :=
    (h.reached.atDepth_iff hacc hmem).trans (and_iff_right hnew)
  rw [readiness_ready, readiness_skipNow, hat]
  constructor
  · constructor
    · intro hall
      have hdeps : ∀ d ∈ s.dependsOn, p.Recorded d := fun d hd => (hall d hd).recorded
      exact ⟨hdeps, (h.reached.runs_iff hacc hmem hdeps).mp hall⟩
    · rintro ⟨hdeps, hruns⟩
      exact (h.reached.runs_iff hacc hmem hdeps).mpr hruns
  · exact and_congr_right fun hdeps => not_congr (h.reached.runs_iff hacc hmem hdeps)

/-- A turn takes the steps at depth `k`. -/
theorem isWave (h : WaveState steps agentExecutor k p remaining) (hacc : Acceptable steps) :
    IsWave steps agentExecutor k (remaining.filter fun s => readiness p.results s = .skipNow)
      (remaining.filter fun s => readiness p.results s = .ready) := by
  have hnodup : (stepIds remaining).Nodup := by
    rw [h.remaining_eq]
    exact hacc.nodup.sublist (List.filter_sublist.map _)
  constructor
  · exact hnodup.sublist (List.filter_sublist.map _)
  · exact hnodup.sublist (List.filter_sublist.map _)
  · intro s
    rw [List.mem_filter, decide_eq_true_eq]
    constructor
    · rintro ⟨hs, hskip⟩
      exact ⟨(h.mem_iff.mp hs).1, (h.readiness_iff hacc hs).2.mp hskip⟩
    · rintro ⟨hs, hat, hruns⟩
      have hmem := h.mem_iff.mpr ⟨hs, hat.1⟩
      exact ⟨hmem, (h.readiness_iff hacc hmem).2.mpr ⟨hat, hruns⟩⟩
  · intro s
    rw [List.mem_filter, decide_eq_true_eq]
    constructor
    · rintro ⟨hs, hready⟩
      exact ⟨(h.mem_iff.mp hs).1, (h.readiness_iff hacc hs).1.mp hready⟩
    · rintro ⟨hs, hat, hruns⟩
      have hmem := h.mem_iff.mpr ⟨hs, hat.1⟩
      exact ⟨hmem, (h.readiness_iff hacc hmem).1.mpr ⟨hat, hruns⟩⟩

/-- The comparisons that are made when the skipped steps are taken out. -/
theorem skipClash_iff (h : WaveState steps agentExecutor k p remaining) (hacc : Acceptable steps) :
    SkipClash eq steps agentExecutor k ↔
      ∃ u t, Passed (fun s => decide (readiness p.results s = .skipNow)) remaining u t ∧
        CompareRaises eq u t := by
  have hsub : remaining.Sublist steps := h.remaining_eq ▸ List.filter_sublist
  constructor
  · rintro ⟨u, t, ⟨hpair, hat, hchain, hsame⟩, hruns, hraises⟩
    have hu : u ∈ steps := hpair.subset List.mem_cons_self
    have ht : t ∈ steps := hpair.subset (List.mem_cons_of_mem u List.mem_cons_self)
    have hu' := h.mem_iff.mpr ⟨hu, hchain⟩
    have ht' := h.mem_iff.mpr ⟨ht, hat.1⟩
    refine ⟨u, t, ⟨h.pair_sublist hpair hu' ht', decide_eq_false fun hskip => ?_,
      decide_eq_true ((h.readiness_iff hacc ht').2.mpr ⟨hat, hruns⟩)⟩, hraises⟩
    obtain ⟨hatu, hrunsu⟩ := (h.readiness_iff hacc hu').2.mp hskip
    exact hrunsu (hsame hatu).1
  · rintro ⟨u, t, ⟨hpair, hu, ht⟩, hraises⟩
    have hu' : u ∈ remaining := hpair.subset List.mem_cons_self
    have ht' : t ∈ remaining := hpair.subset (List.mem_cons_of_mem u List.mem_cons_self)
    obtain ⟨hat, hruns⟩ := (h.readiness_iff hacc ht').2.mp (of_decide_eq_true ht)
    refine ⟨u, t, ⟨hpair.trans hsub, hat, (h.mem_iff.mp hu').2, fun hatu => ⟨?_, hruns⟩⟩, hruns,
      hraises⟩
    by_contra hrunsu
    exact of_decide_eq_false hu ((h.readiness_iff hacc hu').2.mpr ⟨hatu, hrunsu⟩)

/-- The comparisons that are made when the steps that were run are taken out. -/
theorem runClash_iff (h : WaveState steps agentExecutor k p remaining) (hacc : Acceptable steps) :
    RunClash eq steps agentExecutor k ↔
      ∃ u t, Passed (fun s => decide (readiness p.results s = .ready))
        (remaining.filter fun s => !decide (readiness p.results s = .skipNow)) u t ∧
          CompareRaises eq u t := by
  have hsub : remaining.Sublist steps := h.remaining_eq ▸ List.filter_sublist
  constructor
  · rintro ⟨u, t, ⟨hpair, hat, hchain, hsame⟩, hruns, hraises⟩
    have hu : u ∈ steps := hpair.subset List.mem_cons_self
    have ht : t ∈ steps := hpair.subset (List.mem_cons_of_mem u List.mem_cons_self)
    have hu' := h.mem_iff.mpr ⟨hu, hchain⟩
    have ht' := h.mem_iff.mpr ⟨ht, hat.1⟩
    -- A step at the depth of `t` would be gone, for `t` is run.
    have hatu : ¬ AtDepth steps k u := fun hatu => (hsame hatu).2 hruns
    have hskipu : readiness p.results u ≠ .skipNow :=
      fun hskip => hatu ((h.readiness_iff hacc hu').2.mp hskip).1
    have hskipt : readiness p.results t ≠ .skipNow :=
      fun hskip => ((h.readiness_iff hacc ht').2.mp hskip).2 hruns
    have hkept : [u, t].filter (fun s => !decide (readiness p.results s = .skipNow)) = [u, t] := by
      simp [hskipu, hskipt]
    refine ⟨u, t, ⟨?_, decide_eq_false fun hready => ?_,
      decide_eq_true ((h.readiness_iff hacc ht').1.mpr ⟨hat, hruns⟩)⟩, hraises⟩
    · rw [← hkept]
      exact (h.pair_sublist hpair hu' ht').filter _
    · exact hatu ((h.readiness_iff hacc hu').1.mp hready).1
  · rintro ⟨u, t, ⟨hpair, hu, ht⟩, hraises⟩
    have hmemu := hpair.subset List.mem_cons_self
    have hmemt := hpair.subset (List.mem_cons_of_mem u List.mem_cons_self)
    obtain ⟨hu', hskipu⟩ := List.mem_filter.mp hmemu
    have ht' := List.mem_of_mem_filter hmemt
    obtain ⟨hat, hruns⟩ := (h.readiness_iff hacc ht').1.mp (of_decide_eq_true ht)
    have hatu : ¬ AtDepth steps k u := by
      intro hatu
      by_cases hrunsu : Runs steps agentExecutor u
      · exact of_decide_eq_false hu ((h.readiness_iff hacc hu').1.mpr ⟨hatu, hrunsu⟩)
      · rw [decide_eq_true ((h.readiness_iff hacc hu').2.mpr ⟨hatu, hrunsu⟩)] at hskipu
        cases hskipu
    exact ⟨u, t, ⟨(hpair.trans List.filter_sublist).trans hsub, hat, (h.mem_iff.mp hu').2,
      fun hat => absurd hat hatu⟩, hruns, hraises⟩

/-- The steps that a turn leaves are those above depth `k`. -/
theorem left_eq (h : WaveState steps agentExecutor k p remaining) (hacc : Acceptable steps)
    {p' : Progress} (h' : ReachedDepth steps agentExecutor .dependencyFailed (k + 1) p') :
    ((remaining.filter fun s => !decide (readiness p.results s = .skipNow)).filter
      fun s => !decide (readiness p.results s = .ready)) =
      steps.filter fun s => ¬ p'.Recorded s.stepId := by
  conv_lhs => rw [h.remaining_eq]
  rw [List.filter_filter, List.filter_filter]
  refine List.filter_congr fun s hs => ?_
  rw [Bool.eq_iff_iff]
  simp only [Bool.and_eq_true, Bool.not_eq_true', decide_eq_false_iff_not, decide_eq_true_eq]
  rw [h'.recorded s hs, not_not]
  constructor
  · rintro ⟨⟨hready, hskip⟩, hnew⟩
    have hmem : s ∈ remaining := by
      rw [h.remaining_eq]
      exact List.mem_filter.mpr ⟨hs, decide_eq_true hnew⟩
    obtain ⟨hreadyIff, hskipIff⟩ := h.readiness_iff hacc hmem
    by_contra hchain
    have hat : AtDepth steps k s := ⟨(h.mem_iff.mp hmem).2, hchain⟩
    by_cases hruns : Runs steps agentExecutor s
    · exact hready (hreadyIff.mpr ⟨hat, hruns⟩)
    · exact hskip (hskipIff.mpr ⟨hat, hruns⟩)
  · intro hchain
    have hbelow := hchain.of_le (Nat.le_succ k)
    have hmem := h.mem_iff.mpr ⟨hs, hbelow⟩
    obtain ⟨hreadyIff, hskipIff⟩ := h.readiness_iff hacc hmem
    have hat : ¬ AtDepth steps k s := fun hat => hat.2 hchain
    exact ⟨⟨fun hready => hat (hreadyIff.mp hready).1, fun hskip => hat (hskipIff.mp hskip).1⟩,
      fun hrec => (h.reached.recorded s hs).mp hrec hbelow⟩

/-- A turn leads to the next depth, or raises. -/
theorem turn_cases (eq : Comparison) (h : WaveState steps agentExecutor k p remaining)
    (hacc : Acceptable steps) :
    (∃ next, turn eq agentExecutor p remaining
        (remaining.filter fun s => readiness p.results s = .skipNow)
        (remaining.filter fun s => readiness p.results s = .ready) = .ok next ∧
      WaveState steps agentExecutor (k + 1) next.1 next.2 ∧ Passes eq steps agentExecutor k) ∨
    ∃ e, turn eq agentExecutor p remaining
        (remaining.filter fun s => readiness p.results s = .skipNow)
        (remaining.filter fun s => readiness p.results s = .ready) = .error e ∧
      RaisesAt eq steps agentExecutor k e := by
  have hwave := h.isWave hacc
  have hids : (stepIds remaining).Nodup := by
    rw [h.remaining_eq]
    exact hacc.nodup.sublist (List.filter_sublist.map _)
  -- The steps that were run are taken out of what the skipped ones have left.
  have hready : remaining.filter (fun s => decide (readiness p.results s = .ready)) =
      (remaining.filter fun s => !decide (readiness p.results s = .skipNow)).filter
        fun s => decide (readiness p.results s = .ready) := by
    rw [List.filter_filter]
    refine List.filter_congr fun s _ => ?_
    cases readiness p.results s <;> rfl
  rw [hready] at hwave ⊢
  unfold turn
  rcases settle_filter_cases eq (skipResult .dependencyFailed)
      (fun s => decide (readiness p.results s = .skipNow)) hids p with
    ⟨hok, hnone⟩ | ⟨e, herr, hpair, hlog⟩
  · have hskip : ¬ SkipClash eq steps agentExecutor k := by
      intro hclash
      obtain ⟨u, t, hpair, hraises⟩ := (h.skipClash_iff hacc).mp hclash
      exact hnone u t hpair hraises
    rw [hok]
    dsimp only
    rcases h.reached.gather_cases hacc hwave with ⟨hreturns, hgather⟩ | ⟨hescapes, e, herr, hlog⟩
    · rw [hgather]
      dsimp only
      have hnext := h.reached.advance hacc hwave hreturns
      have hids' := hids.sublist
        ((List.filter_sublist (p := fun s => !decide (readiness p.results s = .skipNow))).map _)
      rcases settle_filter_cases eq (resultOf (runStep agentExecutor))
          (fun s => decide (readiness p.results s = .ready)) hids' _ with
        ⟨hok', hnone'⟩ | ⟨e, herr, hpair, hlog⟩
      · rw [hok']
        refine Or.inl ⟨_, rfl, ⟨hnext, h.left_eq hacc hnext⟩, hskip, hreturns, fun hclash => ?_⟩
        obtain ⟨u, t, hpair, hraises⟩ := (h.runClash_iff hacc).mp hclash
        exact hnone' u t hpair hraises
      · rw [herr]
        exact Or.inr ⟨e, rfl, Or.inr ⟨hskip, Or.inr ((h.runClash_iff hacc).mpr hpair),
          fun x => (hlog x).trans (h.reached.started_startAll hacc hwave)⟩⟩
    · rw [herr]
      exact Or.inr ⟨e, rfl, Or.inr ⟨hskip, Or.inl hescapes, hlog⟩⟩
  · rw [herr]
    exact Or.inr ⟨e, rfl, Or.inl ⟨(h.skipClash_iff hacc).mpr hpair,
      fun x => (hlog x).trans (h.reached.started_iff hacc)⟩⟩

/-- The wave loop does not stall. It ends with every step recorded, if every turn passes, and
otherwise in the first turn that does not. -/
theorem loop (eq : Comparison) (h : WaveState steps agentExecutor k p remaining)
    (hacc : Acceptable steps) :
    (∃ p', waveLoop eq agentExecutor p remaining = .ok (p', false) ∧
      Faithful steps agentExecutor .dependencyFailed p' ∧ (∀ s ∈ steps, p'.Recorded s.stepId) ∧
      ∀ j, k ≤ j → Passes eq steps agentExecutor j) ∨
    ∃ e m, waveLoop eq agentExecutor p remaining = .error e ∧ k ≤ m ∧
      (∀ j, k ≤ j → j < m → Passes eq steps agentExecutor j) ∧
      RaisesAt eq steps agentExecutor m e := by
  fun_induction waveLoop eq agentExecutor p remaining generalizing k with
  | case1 p =>
    have hend : ∀ s ∈ steps, ¬ HasChain (DependsOn steps) s.stepId k := by
      intro s hs hchain
      cases h.mem_iff.mpr ⟨hs, hchain⟩
    have hnone : ∀ j, k ≤ j → ∀ s ∈ steps, ¬ AtDepth steps j s :=
      fun j hj s hs hat => hend s hs (hat.1.of_le hj)
    refine Or.inl ⟨p, rfl, h.reached.faithful, h.reached.recorded_all hend,
      fun j hj => ⟨?_, ?_, ?_⟩⟩
    · rintro ⟨u, t, ⟨hpair, hat, -⟩, -⟩
      exact hnone j hj t (hpair.subset (List.mem_cons_of_mem u List.mem_cons_self)) hat
    · rintro ⟨s, hs, hat, -⟩
      exact hnone j hj s hs hat
    · rintro ⟨u, t, ⟨hpair, hat, -⟩, -⟩
      exact hnone j hj t (hpair.subset (List.mem_cons_of_mem u List.mem_cons_self)) hat
  -- The stall branch: some step is at depth `k`, so one list is not empty.
  | case2 p step rest remaining ready skipNow =>
    rename_i hstall
    obtain ⟨hs, hchain⟩ := h.mem_iff.mp List.mem_cons_self
    obtain ⟨t, ht, hat⟩ := hacc.exists_mem_atDepth hs hchain
    have hwave := h.isWave hacc
    exfalso
    by_cases hruns : Runs steps agentExecutor t
    · have hready : t ∈ ready := (hwave.mem_ready t).mpr ⟨ht, hat, hruns⟩
      rw [hstall.1] at hready
      cases hready
    · have hskip : t ∈ skipNow := (hwave.mem_skipped t).mpr ⟨ht, hat, hruns⟩
      rw [hstall.2] at hskip
      cases hskip
  | case3 p step rest remaining ready skipNow hstall e =>
    rename_i hturn
    rcases h.turn_cases eq hacc with ⟨next, hok, -⟩ | ⟨e', herr, hraises⟩
    · cases hturn.symm.trans hok
    · obtain rfl := Except.error.inj (hturn.symm.trans herr)
      exact Or.inr ⟨e, k, rfl, le_rfl, fun j hj hlt => absurd hj (not_le.mpr hlt), hraises⟩
  | case4 p step rest remaining ready skipNow hstall next hturn =>
    rename_i ih
    rcases h.turn_cases eq hacc with ⟨next', hok, hstate, hpasses⟩ | ⟨e, herr, -⟩
    · obtain rfl := Except.ok.inj (hturn.symm.trans hok)
      have hfrom : ∀ j, k ≤ j → j ≠ k → k + 1 ≤ j := fun j hj hne => by omega
      rcases ih hstate with ⟨p', hloop, hfaithful, hrec, hall⟩ | ⟨e, m, hloop, hm, hall, hraises⟩
      · refine Or.inl ⟨p', hloop, hfaithful, hrec, fun j hj => ?_⟩
        by_cases hjk : j = k
        · exact hjk ▸ hpasses
        · exact hall j (hfrom j hj hjk)
      · refine Or.inr ⟨e, m, hloop, by omega, fun j hj hlt => ?_, hraises⟩
        by_cases hjk : j = k
        · exact hjk ▸ hpasses
        · exact hall j (hfrom j hj hjk) hlt
    · cases hturn.symm.trans herr

end WaveState

/-- Every turn passes exactly if no exception escapes from a step that is run, and no comparison
that is made raises. -/
theorem forall_passes_iff {eq : Comparison} (hacc : Acceptable steps) :
    (∀ k, Passes eq steps agentExecutor k) ↔
      (∀ s ∈ steps, Runs steps agentExecutor s → ¬ StepEscapes agentExecutor s) ∧
        ∀ k u t, Compared steps agentExecutor k u t → ¬ CompareRaises eq u t := by
  constructor
  · refine fun hall => ⟨fun s hs hruns hescapes => ?_, fun k u t hcompared hraises => ?_⟩
    · obtain ⟨k, -, hat⟩ := hacc.exists_atDepth (hasChain_zero (DependsOn steps) s.stepId)
      exact (hall k).2.1 ⟨s, hs, hat, hruns, hescapes⟩
    · by_cases hruns : Runs steps agentExecutor t
      · exact (hall k).2.2 ⟨u, t, hcompared, hruns, hraises⟩
      · exact (hall k).1 ⟨u, t, hcompared, hruns, hraises⟩
  · rintro ⟨hreturns, hcompare⟩ k
    refine ⟨?_, ?_, ?_⟩
    · rintro ⟨u, t, hcompared, -, hraises⟩
      exact hcompare k u t hcompared hraises
    · rintro ⟨s, hs, -, hruns, hescapes⟩
      exact hreturns s hs hruns hescapes
    · rintro ⟨u, t, hcompared, -, hraises⟩
      exact hcompare k u t hcompared hraises

/-- The ways in which `execute` ends: it rejects the steps, it delivers, or it raises in the first
turn that does not pass. -/
theorem execute_cases (eq : Comparison) (agentExecutor : WorkflowStep → ExecOutcome)
    (hids : (stepIds steps).Nodup) :
    ((HasUnknown steps ∨ IsCyclic steps) ∧
      ∃ e, execute eq agentExecutor steps = .error { error := e } ∧ e.IsValueError) ∨
    (Acceptable steps ∧ ∃ e, execute eq agentExecutor steps = .ok e ∧ e.stalled = false ∧
      Delivers steps agentExecutor .dependencyFailed e ∧ ∀ k, Passes eq steps agentExecutor k) ∨
    (Acceptable steps ∧ ∃ e m, execute eq agentExecutor steps = .error e ∧
      (∀ j < m, Passes eq steps agentExecutor j) ∧ RaisesAt eq steps agentExecutor m e) := by
  by_cases hnil : steps = []
  · subst hnil
    obtain ⟨hknown, hacyclic⟩ := not_or.mp nil_acceptable
    have hacc : Acceptable [] := ⟨hids, hknown, not_not.mp hacyclic⟩
    refine Or.inr (Or.inl ⟨hacc, _, rfl, rfl, Faithful.init.delivers hknown (by simp) false, ?_⟩)
    refine (forall_passes_iff hacc).mpr ⟨by simp, fun k u t hcompared => ?_⟩
    cases hcompared.1
  · unfold execute
    rw [if_neg hnil]
    rcases validateDependencies_cases hids with ⟨hok, hknown, hacyclic⟩ | ⟨e, herr, hvalue, hbad⟩
    · rw [hok]
      have hacc : Acceptable steps := ⟨hids, hknown, hacyclic⟩
      have hinit : WaveState steps agentExecutor 0 {} steps := WaveState.init
      refine Or.inr ?_
      rcases hinit.loop eq hacc with
        ⟨p, hloop, hfaithful, hrec, hall⟩ | ⟨e, m, hloop, -, hall, hraises⟩
      · rw [hloop]
        exact Or.inl ⟨hacc, _, rfl, rfl, hfaithful.delivers hknown hrec false,
          fun k => hall k (Nat.zero_le k)⟩
      · rw [hloop]
        exact Or.inr ⟨hacc, e, m, rfl, fun j hlt => hall j (Nat.zero_le j) hlt, hraises⟩
    · rw [herr]
      exact Or.inl ⟨hbad, e, rfl, hvalue⟩

/-- `execute` raises a `ValueError` exactly when a dependency is unknown or the dependencies are
cyclic, and otherwise returns without stalling and delivers. This holds exactly if the steps are
rejected, or no exception escapes from a step that is run and no comparison of two steps raises that
is made when a step is taken out of the remaining ones. -/
theorem execute_delivers_iff (eq : Comparison) (agentExecutor : WorkflowStep → ExecOutcome)
    (hids : (stepIds steps).Nodup) :
    (((∃ e, execute eq agentExecutor steps = .error e ∧ e.error.IsValueError) ↔
        HasUnknown steps ∨ IsCyclic steps) ∧
      (¬ (HasUnknown steps ∨ IsCyclic steps) → ∃ e, execute eq agentExecutor steps = .ok e ∧
        e.stalled = false ∧ Delivers steps agentExecutor .dependencyFailed e)) ↔
    HasUnknown steps ∨ IsCyclic steps ∨
      ((∀ s ∈ steps, Runs steps agentExecutor s → ¬ StepEscapes agentExecutor s) ∧
        ∀ k u t, Compared steps agentExecutor k u t → ¬ CompareRaises eq u t) := by
  rcases execute_cases eq agentExecutor hids with
    ⟨hbad, e, herr, hvalue⟩ | ⟨hacc, e, hok, hstall, hdelivers, hall⟩ |
      ⟨hacc, e, m, herr, -, hraises⟩
  · refine iff_of_true ⟨iff_of_true ⟨_, herr, hvalue⟩ hbad, fun hgood => absurd hbad hgood⟩ ?_
    rcases hbad with hunknown | hcyclic
    · exact Or.inl hunknown
    · exact Or.inr (Or.inl hcyclic)
  · have hgood : ¬ (HasUnknown steps ∨ IsCyclic steps) :=
      not_or.mpr ⟨hacc.known, not_not.mpr hacc.acyclic⟩
    refine iff_of_true ⟨iff_of_false ?_ hgood, fun _ => ⟨e, hok, hstall, hdelivers⟩⟩
      (Or.inr (Or.inr ((forall_passes_iff hacc).mp hall)))
    rintro ⟨e', herr, -⟩
    cases hok.symm.trans herr
  · have hgood : ¬ (HasUnknown steps ∨ IsCyclic steps) :=
      not_or.mpr ⟨hacc.known, not_not.mpr hacc.acyclic⟩
    refine iff_of_false (fun hmeets => ?_) fun hcond => ?_
    · obtain ⟨e', hok, -⟩ := hmeets.2 hgood
      cases herr.symm.trans hok
    · rcases hcond with hunknown | hcyclic | hcond
      · exact hgood (Or.inl hunknown)
      · exact hgood (Or.inr hcyclic)
      · exact hraises.not_passes ((forall_passes_iff hacc).mpr hcond m)

/-- Two fetches and a merge of what they return. -/
def fetchMerge : List WorkflowStep :=
  [{ agentId := "a", action := "fetch", stepId := "s1" },
   { agentId := "b", action := "fetch", stepId := "s2" },
   { agentId := "c", action := "merge", stepId := "s3", dependsOn := ["s1", "s2"] }]

/-- The agents fail on one step. -/
def failOn (stepId : String) (step : WorkflowStep) : ExecOutcome :=
  if step.stepId = stepId then .raised (.printable .exception "RuntimeError" "root failure")
  else .returned .empty

/-- Arrays of several elements: the result of a comparison is an array, of which `bool` is not
defined. -/
def compareArrays : Comparison := fun _ _ =>
  .error (.printable .valueError "ValueError" "The truth value of an array is ambiguous.")

/-- `execute_delivers_iff` on a merge of which one dependency fails: no two of its steps have one
agent, and so no parameters are compared. -/
theorem execute_delivers_fetchMerge :
    HasUnknown fetchMerge ∨ IsCyclic fetchMerge ∨
      ((∀ s ∈ fetchMerge, Runs fetchMerge (failOn "s1") s → ¬ StepEscapes (failOn "s1") s) ∧
        ∀ k u t, Compared fetchMerge (failOn "s1") k u t → ¬ CompareRaises compareArrays u t) := by
  have hids : (stepIds fetchMerge).Nodup := by decide
  refine (execute_delivers_iff compareArrays (failOn "s1") hids).mp ?_
  have hisOk : (execute compareArrays (failOn "s1") fetchMerge).isOk = true := by decide +kernel
  rcases execute_cases compareArrays (failOn "s1") hids with
    ⟨-, e, herr, -⟩ | ⟨hacc, e, hok, hstall, hdelivers, -⟩ | ⟨-, e, m, herr, -⟩
  · rw [herr] at hisOk
    cases hisOk
  · have hgood : ¬ (HasUnknown fetchMerge ∨ IsCyclic fetchMerge) :=
      not_or.mpr ⟨hacc.known, not_not.mpr hacc.acyclic⟩
    refine ⟨iff_of_false ?_ hgood, fun _ => ⟨e, hok, hstall, hdelivers⟩⟩
    rintro ⟨e', herr, -⟩
    cases hok.symm.trans herr
  · rw [herr] at hisOk
    cases hisOk

/-- Two analyses by one agent, each of an array. The first one depends on the second one. -/
def arrayPair : List WorkflowStep :=
  [{ agentId := "a", action := "analyze", stepId := "s1", dependsOn := ["s2"]
     params := (Dict.empty : Dict String PyObject).set "data" ⟨1⟩ },
   { agentId := "a", action := "analyze", stepId := "s2"
     params := (Dict.empty : Dict String PyObject).set "data" ⟨2⟩ }]

/-- When the second step has run, it is searched among the remaining ones, and compared with the
first one: `execute` raises a `ValueError`, although the dependencies are known and acyclic. -/
theorem arrayPair_raises : (stepIds arrayPair).Nodup ∧
    ¬ (HasUnknown arrayPair ∨ IsCyclic arrayPair) ∧
    ∃ e, execute compareArrays (fun _ => .returned .empty) arrayPair = .error e ∧
      e.error.IsValueError := by
  have hids : (stepIds arrayPair).Nodup := by decide
  refine ⟨hids, ?_, ?_⟩
  · rcases validateDependencies_cases hids with ⟨-, hknown, hacyclic⟩ | ⟨e, herr, -⟩
    · exact not_or.mpr ⟨hknown, not_not.mpr hacyclic⟩
    · have hok : (validateDependencies arrayPair).isOk = true := by decide +kernel
      rw [herr] at hok
      cases hok
  · have hrun : execute compareArrays (fun _ => .returned .empty) arrayPair =
        .error { error := .comparison (.printable .valueError "ValueError"
          "The truth value of an array is ambiguous.")
                 log := [.recorded "s2", .started "s2"] } := by decide +kernel
    exact ⟨_, hrun, rfl⟩

end MeshRouter.Workflows.ParallelWorkflow
