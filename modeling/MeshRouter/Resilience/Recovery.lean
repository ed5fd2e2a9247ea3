import MeshRouter.Resilience.Probes

/-!
# What closes a half-open circuit

A circuit that recovers should have the evidence of its probes: each change from `HALF_OPEN` to
`CLOSED` should come after `success_threshold` successes of calls that this very window admitted
(`RecoveryEvidence`). `record_success` counts every success that arrives while the breaker is
`HALF_OPEN`, also that of a call admitted before the circuit opened, so the evidence can be missing
(`stale_success_closes`).

`recovery_evidence` says when it is there. A window closes on exactly `success_threshold` recorded
successes (`closing_count`), so a closing has its evidence exactly when all the successes recorded
in its window are of calls of that window. Runs in which no success of another call is recorded in
`HALF_OPEN` are such runs.
-/

namespace MeshRouter.Resilience

open Lib

variable {cfg : CircuitBreakerConfig} {P Q : List BreakerEvent → Prop}

/-- `P` holds of the history before each change from `HALF_OPEN` to `CLOSED`. -/
def AtClosings (P : List BreakerEvent → Prop) : List BreakerEvent → Prop
  | [] => True
  | .entered .CLOSED _ :: log => (loggedState log = .HALF_OPEN → P log) ∧ AtClosings P log
  | _ :: log => AtClosings P log

/-- Each closing comes after `success_threshold` successes of calls of its own window. -/
def RecoveryEvidence (cfg : CircuitBreakerConfig) : List BreakerEvent → Prop :=
  AtClosings fun log => cfg.successThreshold ≤ (ownCompletions .returned log).length

/-- Every success recorded in the current window is of a call that the window admitted. -/
def OwnSuccesses (log : List BreakerEvent) : Prop :=
  ∀ c ∈ completedCalls .returned (window log), c ∈ admittedCalls (window log)

/-- The step records no success of another window's call in `HALF_OPEN`. -/
def RecordsOwn (s : BreakerSystem) : BreakerAction → Prop
  | .complete call .returned =>
    s.breaker.state = .HALF_OPEN → call ∈ admittedCalls (window s.log)
  | _ => True

instance (s : BreakerSystem) (a : BreakerAction) : Decidable (RecordsOwn s a) := by
  unfold RecordsOwn
  split <;> infer_instance

/-- An entry into a state other than `CLOSED` is no closing. -/
theorem atClosings_entered (state : CircuitState) (time : ℚ) (log : List BreakerEvent) :
    AtClosings P (.entered state time :: log) ↔
      (state = .CLOSED → loggedState log = .HALF_OPEN → P log) ∧ AtClosings P log := by
  cases state <;> simp [AtClosings]

/-- Where `P` and `Q` agree at the closings, they hold at the closings together. -/
theorem atClosings_congr {log : List BreakerEvent} (h : AtClosings (fun l => P l ↔ Q l) log) :
    AtClosings P log ↔ AtClosings Q log := by
  induction log with
  | nil => exact Iff.rfl
  | cons e log ih =>
    cases e with
    | entered state time =>
      rw [atClosings_entered] at h ⊢
      rw [atClosings_entered, ih h.2]
      constructor
      · rintro ⟨hc, hlog⟩
        exact ⟨fun hs hl => (h.1 hs hl).mp (hc hs hl), hlog⟩
      · rintro ⟨hc, hlog⟩
        exact ⟨fun hs hl => (h.1 hs hl).mpr (hc hs hl), hlog⟩
    | admitted => exact ih h
    | rejected => exact ih h
    | completed => exact ih h

/-- What holds at the closings implies at the closings what it implies. -/
theorem AtClosings.mono {log : List BreakerEvent} (h : AtClosings P log) (hPQ : ∀ l, P l → Q l) :
    AtClosings Q log := by
  induction log with
  | nil => trivial
  | cons e log ih =>
    cases e with
    | entered state time =>
      rw [atClosings_entered] at h ⊢
      exact ⟨fun hs hl => hPQ log (h.1 hs hl), ih h.2⟩
    | admitted => exact ih h
    | rejected => exact ih h
    | completed => exact ih h

/-- The end of a call closes a breaker that was not closed only as the success that reaches the
threshold in `HALF_OPEN`. -/
theorem settle_closed {cb : CircuitBreaker} {now : ℚ} {outcome : CallOutcome}
    (h : (cb.settle cfg now outcome).state = .CLOSED) (hne : cb.state ≠ .CLOSED) :
    outcome = .returned ∧ cb.state = .HALF_OPEN ∧ cfg.successThreshold ≤ cb.successCount + 1 := by
  cases outcome with
  | returned =>
    change (cb.recordSuccess cfg now).state = .CLOSED at h
    rcases CircuitBreaker.recordSuccess_cases cfg now cb with
      ⟨hs, he⟩ | ⟨hs, he⟩ | ⟨hs, -, he⟩ | ⟨hs, hthr, -⟩
    · exact absurd hs hne
    · rw [he, hs] at h; cases h
    · rw [he, hs] at h; cases h
    · exact ⟨rfl, hs, hthr⟩
  | raised =>
    change (cb.recordFailure cfg now).state = .CLOSED at h
    rcases CircuitBreaker.recordFailure_cases cfg now cb with
      ⟨hs, -, he⟩ | ⟨hs, he⟩ | ⟨-, he⟩
    · exact absurd hs hne
    · rw [he, hs] at h; cases h
    · rw [he] at h; cases h
  | interrupted => exact absurd h hne

/-- A step of a run of calls keeps what holds at the closings, if the success that reaches the
threshold gives it. -/
theorem AtClosings.step {s t : BreakerSystem} {a : BreakerAction} (h : AtClosings P s.log)
    (ha : a.IsExecution) (hst : BreakerSystem.step cfg s a = some t)
    (hclose : ∀ call, a = .complete call .returned → s.breaker.state = .HALF_OPEN →
      cfg.successThreshold ≤ s.breaker.successCount + 1 →
      P (.completed call .returned :: s.log)) : AtClosings P t.log := by
  have hpoll : AtClosings P (s.poll cfg).log := by
    rcases BreakerSystem.poll_cases cfg s with he | ⟨-, he⟩
    · rw [he]
      exact h
    · rw [he]
      exact (atClosings_entered _ _ _).mpr ⟨by simp, h⟩
  cases a with
  | execute =>
    obtain ⟨p, rfl, hcases⟩ := BreakerSystem.step_execute hst
    rcases hcases with ⟨-, rfl⟩ | ⟨-, -, rfl⟩ | rfl
    · exact hpoll
    · exact hpoll
    · exact hpoll
  | complete call outcome =>
    obtain ⟨-, rfl⟩ := BreakerSystem.step_complete hst
    by_cases hstate : (s.breaker.settle cfg s.now outcome).state = s.breaker.state
    · rw [BreakerSystem.move_of_state_eq (s := s.ended call outcome) hstate]
      exact h
    · rw [BreakerSystem.move_of_state_ne (s := s.ended call outcome) hstate]
      -- The only step that closes a breaker in a run of calls.
      refine (atClosings_entered _ _ _).mpr ⟨fun hclosed _ => ?_, h⟩
      rw [hclosed] at hstate
      obtain ⟨rfl, hhalf, hthr⟩ := settle_closed hclosed (Ne.symm hstate)
      exact hclose call rfl hhalf hthr
  | recordSuccess => exact ha.elim
  | recordFailure => exact ha.elim
  | reset => exact ha.elim
  | readState =>
    obtain rfl := Option.some.inj hst
    exact hpoll
  | advance seconds =>
    obtain ⟨-, rfl⟩ := BreakerSystem.step_advance hst
    exact h

/-- A window closes on exactly `success_threshold` recorded successes. -/
theorem closing_count {s : BreakerSystem} {name : String} {now : ℚ} {as : List BreakerAction}
    (has : ∀ a ∈ as, a.IsExecution)
    (h : run (BreakerSystem.step cfg) (.init name now) as = some s) :
    AtClosings (fun log =>
      (completedCalls .returned (window log)).length = cfg.successThreshold) s.log := by
  suffices hinv : Tracked cfg s ∧ Probing s ∧ AtClosings (fun log =>
      (completedCalls .returned (window log)).length = cfg.successThreshold) s.log from hinv.2.2
  refine run_induction_along (I := fun s => Tracked cfg s ∧ Probing s ∧ AtClosings _ s.log) ?_
    ⟨Tracked.init name now, Probing.init name now, trivial⟩ (along_of_actions has _) h
  rintro s a t ⟨htr, hpr, hcl⟩ ha hst
  refine ⟨htr.step hst, hpr.step ha hst, hcl.step ha hst fun call _ hhalf hthr => ?_⟩
  -- The count was below the threshold, and this success reaches it.
  have hlt := (htr.valid.halfOpened hhalf).1
  rw [window_cons _ rfl, completedCalls_completed, if_pos rfl, List.length_cons,
    hpr.successCount hhalf]
  omega

/-- A step that records no success of another window's call keeps the current window's successes
its own. -/
theorem ownSuccesses_step {s t : BreakerSystem} {a : BreakerAction}
    (h : s.breaker.state = .HALF_OPEN → OwnSuccesses s.log) (ha : a.IsExecution)
    (hown : RecordsOwn s a) (hst : BreakerSystem.step cfg s a = some t) :
    t.breaker.state = .HALF_OPEN → OwnSuccesses t.log := by
  have hpoll : (s.poll cfg).breaker.state = .HALF_OPEN → OwnSuccesses (s.poll cfg).log := by
    rcases BreakerSystem.poll_cases cfg s with he | ⟨-, he⟩
    · rw [he]
      exact h
    · rw [he]
      intro _ c hc
      cases hc
  cases a with
  | execute =>
    obtain ⟨p, rfl, hcases⟩ := BreakerSystem.step_execute hst
    rcases hcases with ⟨hs, rfl⟩ | ⟨hs, -, rfl⟩ | rfl
    · -- Admitted in `CLOSED`, in `HALF_OPEN`, or rejected.
      intro ht
      rw [hs] at ht
      cases ht
    · intro ht c hc
      dsimp only at hc ⊢
      rw [window_cons _ rfl, completedCalls_admitted] at hc
      rw [window_cons _ rfl, admittedCalls_admitted]
      exact List.mem_cons_of_mem _ (hpoll ht c hc)
    · intro ht c hc
      dsimp only at hc ⊢
      rw [window_cons _ rfl, completedCalls_rejected] at hc
      rw [window_cons _ rfl, admittedCalls_rejected]
      exact hpoll ht c hc
  | complete call outcome =>
    obtain ⟨-, rfl⟩ := BreakerSystem.step_complete hst
    intro ht c hc
    change (s.breaker.settle cfg s.now outcome).state = .HALF_OPEN at ht
    obtain ⟨hs, -, hcases⟩ := settle_halfOpen ht
    rw [BreakerSystem.move_of_state_eq (s := s.ended call outcome) (ht.trans hs.symm)] at hc ⊢
    unfold BreakerSystem.ended at hc ⊢
    dsimp only at hc ⊢
    rw [window_cons _ rfl, completedCalls_completed] at hc
    rw [window_cons _ rfl, admittedCalls_completed]
    rcases hcases with ⟨rfl, -⟩ | ⟨rfl, -⟩
    · rw [if_pos rfl, List.mem_cons] at hc
      rcases hc with rfl | hc
      · -- The step records a success, which is of a call of this window.
        exact hown hs
      · exact h hs c hc
    · rw [if_neg (by decide)] at hc
      exact h hs c hc
  | recordSuccess => exact ha.elim
  | recordFailure => exact ha.elim
  | reset => exact ha.elim
  | readState =>
    obtain rfl := Option.some.inj hst
    exact hpoll
  | advance seconds =>
    obtain ⟨-, rfl⟩ := BreakerSystem.step_advance hst
    exact h

/-- When no step records a success of another window's call in `HALF_OPEN`, each window closes on
its own successes. -/
theorem closings_ownSuccesses {s : BreakerSystem} {name : String} {now : ℚ}
    {as : List BreakerAction}
    (hown : Along (BreakerSystem.step cfg) (fun s a => a.IsExecution ∧ RecordsOwn s a)
      (.init name now) as)
    (h : run (BreakerSystem.step cfg) (.init name now) as = some s) :
    AtClosings OwnSuccesses s.log := by
  suffices hinv : (s.breaker.state = .HALF_OPEN → OwnSuccesses s.log) ∧
      AtClosings OwnSuccesses s.log from hinv.2
  refine run_induction_along (I := fun s => (s.breaker.state = .HALF_OPEN →
    OwnSuccesses s.log) ∧ AtClosings OwnSuccesses s.log) ?_ ⟨?_, ?_⟩ hown h
  · -- What is kept is about the current window, and a closing takes it over into the history.
    rintro s a t ⟨hwin, hcl⟩ ⟨ha, ho⟩ hst
    refine ⟨ownSuccesses_step hwin ha ho hst, hcl.step ha hst fun call hcall hhalf _ c hc => ?_⟩
    subst hcall
    rw [window_cons _ rfl, completedCalls_completed, if_pos rfl, List.mem_cons] at hc
    rw [window_cons _ rfl, admittedCalls_completed]
    rcases hc with rfl | hc
    · exact ho hhalf
    · exact hwin hhalf c hc
  · simp [BreakerSystem.init]
  · trivial

/-- Where a window closes on exactly `success_threshold` successes, it has its evidence exactly when
the successes are its own. -/
theorem evidence_iff_own {log : List BreakerEvent}
    (h : (completedCalls .returned (window log)).length = cfg.successThreshold) :
    cfg.successThreshold ≤ (ownCompletions .returned log).length ↔ OwnSuccesses log := by
  unfold ownCompletions OwnSuccesses
  rw [← h]
  constructor
  · intro hle
    -- As many own successes as successes: the filter drops none.
    have heq := le_antisymm (List.length_filter_le _ _) hle
    simpa using List.length_filter_eq_length_iff.mp heq
  · intro hown
    rw [List.filter_eq_self.mpr (by simpa using hown)]

/-- In a run of calls in which no step records a success of another window's call in `HALF_OPEN`,
each closing has its evidence. In any run of calls, the closings have their evidence exactly when
the successes recorded in each window that closes are its own. -/
theorem recovery_evidence {cfg : CircuitBreakerConfig} {name : String} {now : ℚ}
    {as : List BreakerAction} {s : BreakerSystem} (has : ∀ a ∈ as, a.IsExecution)
    (h : run (BreakerSystem.step cfg) (.init name now) as = some s) :
    (Along (BreakerSystem.step cfg) RecordsOwn (.init name now) as →
      RecoveryEvidence cfg s.log) ∧
    (RecoveryEvidence cfg s.log ↔ AtClosings OwnSuccesses s.log) := by
  have hiff : RecoveryEvidence cfg s.log ↔ AtClosings OwnSuccesses s.log :=
    atClosings_congr ((closing_count has h).mono fun _ => evidence_iff_own)
  refine ⟨fun hown => hiff.mpr ?_, hiff⟩
  exact closings_ownSuccesses (along_and (along_of_actions has _) hown) h

/-- One probe, which succeeds. -/
def probeRun : List BreakerAction :=
  [.execute, .complete 0 .raised, .advance 1, .execute, .complete 1 .returned]

/-- `recovery_evidence` on a run whose one probe succeeds. -/
theorem recovery_evidence_probeRun :
    ∃ s, run (BreakerSystem.step singleProbe) (.init "payments" 0) probeRun = some s ∧
      RecoveryEvidence singleProbe s.log := by
  obtain ⟨s, hs⟩ := Option.isSome_iff_exists.mp
    (show (run (BreakerSystem.step singleProbe) (.init "payments" 0) probeRun).isSome by
      decide +kernel)
  exact ⟨s, hs, (recovery_evidence (by decide) hs).1 (by decide +kernel)⟩

/-- Two calls are admitted in `CLOSED`, and the failure of one opens the circuit. After the timeout
a probe is admitted, and while it runs the other old call succeeds. -/
def staleRun : List BreakerAction :=
  [.execute, .execute, .complete 1 .raised, .advance 1, .execute, .complete 0 .returned]

/-- The success of the old call closes the circuit, with the probe still running. -/
theorem stale_success_closes :
    (∀ a ∈ staleRun, a.IsExecution) ∧
    ∃ s, run (BreakerSystem.step singleProbe) (.init "payments" 0) staleRun = some s ∧
      s.breaker.state = .CLOSED ∧ s.outstanding = [2] ∧ ¬ RecoveryEvidence singleProbe s.log := by
  refine ⟨by decide, ⟨⟨"payments", .CLOSED, 0, 0, 0, none, 3, 1, 1, 0⟩, 1, 3, [2],
    [.entered .CLOSED 1, .completed 0 .returned, .admitted 2, .entered .HALF_OPEN 1,
      .entered .OPEN 0, .completed 1 .raised, .admitted 1, .admitted 0]⟩,
    by decide +kernel, rfl, rfl, fun h => ?_⟩
  have hevidence := h.1 rfl
  revert hevidence
  decide

end MeshRouter.Resilience
