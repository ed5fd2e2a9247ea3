import MeshRouter.Resilience.BreakerRuns

/-!
# Admissions of a circuit breaker

Over every interleaving of calls, manual operations, reads, and clock advances, the breaker is
valid, no call is admitted while it is `OPEN` before the recovery timeout has elapsed since it last
opened, and each `HALF_OPEN` window admits at most its quota of calls (`admission_safe`).

The invariant (`Tracked`) ties the breaker to the history: the state is the one the history ends
in, the time of opening is that of the last opening, and in `HALF_OPEN` the call count is the number
of admissions of the current window. Every operation of the breaker either keeps its state, and then
keeps what the invariant reads, or changes it and starts the counters again (`Follows`). So one
lemma about `move` (`Tracked.move`) serves all of them.
-/

namespace MeshRouter.Resilience

open Lib

variable {cfg : CircuitBreakerConfig}

/-- What the history needs of an operation on a breaker: it keeps the state and what is tracked of
it, or it changes the state and starts the tracked values again. -/
def Follows (now : ℚ) (cb cb' : CircuitBreaker) : Prop :=
  (cb'.state = cb.state ∧ (cb.state = .OPEN → cb'.openedAt = cb.openedAt) ∧
    (cb.state = .HALF_OPEN → cb'.halfOpenCallCount = cb.halfOpenCallCount)) ∨
  (cb'.state ≠ cb.state ∧ (cb'.state = .OPEN → cb'.openedAt = some now) ∧
    (cb'.state = .HALF_OPEN → cb'.halfOpenCallCount = 0))

namespace CircuitBreaker

variable {now : ℚ} (cb : CircuitBreaker)

/-- A look at the clock follows. -/
theorem maybeTransitionToHalfOpen_follows :
    Follows now cb (cb.maybeTransitionToHalfOpen cfg now) := by
  rcases maybeTransitionToHalfOpen_cases cfg now cb with ⟨hdue, he⟩ | ⟨-, he⟩
  · rw [he]
    exact Or.inr ⟨by simp [hdue.1], by simp, fun _ => rfl⟩
  · rw [he]
    exact Or.inl ⟨rfl, fun _ => rfl, fun _ => rfl⟩

/-- A recorded success follows: it keeps the state, or it closes a half-open breaker. -/
theorem recordSuccess_follows : Follows now cb (cb.recordSuccess cfg now) := by
  rcases recordSuccess_cases cfg now cb with
    ⟨hs, he⟩ | ⟨hs, he⟩ | ⟨hs, -, he⟩ | ⟨hs, -, he⟩
  · rw [he]
    exact Or.inl ⟨rfl, fun _ => rfl, fun _ => rfl⟩
  · rw [he]
    exact Or.inl ⟨rfl, fun _ => rfl, fun _ => rfl⟩
  · rw [he]
    exact Or.inl ⟨rfl, fun _ => rfl, fun _ => rfl⟩
  · rw [he]
    exact Or.inr ⟨by simp [hs], by simp, by simp⟩

/-- A recorded failure follows: it keeps the state, or it opens the breaker. -/
theorem recordFailure_follows : Follows now cb (cb.recordFailure cfg now) := by
  rcases recordFailure_cases cfg now cb with
    ⟨-, -, he⟩ | ⟨-, he⟩ | ⟨hs, he⟩
  · rw [he]
    exact Or.inl ⟨rfl, fun _ => rfl, fun _ => rfl⟩
  · rw [he]
    exact Or.inl ⟨rfl, fun _ => rfl, fun _ => rfl⟩
  · rw [he]
    refine Or.inr ⟨?_, fun _ => rfl, by simp⟩
    rcases hs with hs | ⟨hs, -⟩
    · simp [hs]
    · simp [hs]

/-- A reset follows: it closes the breaker. -/
theorem reset_follows : Follows now cb (cb.reset now) := by
  by_cases hs : cb.state = .CLOSED
  · exact Or.inl ⟨by simp [reset, hs], by simp [hs], by simp [hs]⟩
  · exact Or.inr ⟨by simpa [reset, eq_comm] using hs, by simp [reset], by simp [reset]⟩

/-- The end of a call follows, however the call ends. -/
theorem settle_follows (outcome : CallOutcome) : Follows now cb (cb.settle cfg now outcome) := by
  cases outcome with
  | returned => exact recordSuccess_follows cb
  | raised => exact recordFailure_follows cb
  | interrupted => exact Or.inl ⟨rfl, fun _ => rfl, fun _ => rfl⟩

end CircuitBreaker

/-- The breaker and its history agree. -/
structure Tracked (cfg : CircuitBreakerConfig) (s : BreakerSystem) : Prop where
  valid : s.breaker.Valid cfg
  state : loggedState s.log = s.breaker.state
  opened : s.breaker.state = .OPEN → s.breaker.openedAt = lastOpened s.log
  admissions_le : windowAdmissions s.log ≤ cfg.halfOpenMaxCalls
  admissions : s.breaker.state = .HALF_OPEN →
    windowAdmissions s.log = s.breaker.halfOpenCallCount

namespace Tracked

/-- A new breaker agrees with the empty history. -/
theorem init (name : String) (now : ℚ) : Tracked cfg (.init name now) where
  valid := CircuitBreaker.new_valid name
  state := rfl
  opened := by simp [BreakerSystem.init]
  admissions_le := Nat.zero_le _
  admissions := by simp [BreakerSystem.init]

/-- An operation that follows keeps the agreement. -/
theorem move {s : BreakerSystem} (h : Tracked cfg s) {cb : CircuitBreaker} (hv : cb.Valid cfg)
    (hf : Follows s.now s.breaker cb) : Tracked cfg (s.move cb) := by
  rcases hf with ⟨hstate, hopened, hcount⟩ | ⟨hstate, hopened, hcount⟩
  · -- The state is kept, and so is the history.
    rw [BreakerSystem.move_of_state_eq hstate]
    refine ⟨hv, ?_, ?_, h.admissions_le, ?_⟩
    · rw [h.state, hstate]
    · intro ho
      dsimp only at ho ⊢
      rw [hstate] at ho
      rw [hopened ho, h.opened ho]
    · intro hh
      dsimp only at hh ⊢
      rw [hstate] at hh
      rw [hcount hh, h.admissions hh]
  · -- The state changes, and the history gets its entry.
    rw [BreakerSystem.move_of_state_ne hstate]
    refine ⟨hv, by simp, ?_, ?_, ?_⟩
    · intro ho
      dsimp only at ho ⊢
      rw [hopened ho, lastOpened_entered, if_pos ho]
    · rw [windowAdmissions_entered]
      split_ifs
      · exact Nat.zero_le _
      · exact h.admissions_le
    · intro hh
      dsimp only at hh ⊢
      rw [hcount hh, windowAdmissions_entered, if_pos hh]

/-- Each step keeps the agreement. -/
theorem step {s t : BreakerSystem} {a : BreakerAction} (h : Tracked cfg s)
    (hst : BreakerSystem.step cfg s a = some t) : Tracked cfg t := by
  cases a with
  | execute =>
    obtain ⟨p, hp, hcases⟩ := BreakerSystem.step_execute hst
    have hpv : Tracked cfg p := by
      rw [← hp]
      exact h.move (CircuitBreaker.maybeTransitionToHalfOpen_valid h.valid)
        (CircuitBreaker.maybeTransitionToHalfOpen_follows _)
    rcases hcases with ⟨hs, rfl⟩ | ⟨hs, hroom, rfl⟩ | rfl
    · -- Admitted in `CLOSED`: no window counts it.
      have hlog : loggedState p.log ≠ .HALF_OPEN := by rw [hpv.state, hs]; decide
      refine ⟨⟨hpv.valid.closed, by simp [hs], by simp [hs]⟩, hpv.state, by simp [hs], ?_,
        by simp [hs]⟩
      simpa [windowAdmissions, hlog] using hpv.admissions_le
    · -- A probe: the window and the breaker count it, and there was room for it.
      have hlog : loggedState p.log = .HALF_OPEN := by rw [hpv.state, hs]
      have hcount := hpv.admissions hs
      refine ⟨⟨by simp [hs], by simp [hs], fun _ => ⟨(hpv.valid.halfOpened hs).1, hroom⟩⟩,
        hpv.state, by simp [hs], ?_, ?_⟩
      · simpa [windowAdmissions, hlog, hcount] using Nat.succ_le_of_lt hroom
      · simp [windowAdmissions, hlog, hcount]
    · exact ⟨⟨hpv.valid.closed, hpv.valid.opened, hpv.valid.halfOpened⟩, hpv.state, hpv.opened,
        hpv.admissions_le, hpv.admissions⟩
  -- The events of a completion and of its change of state count no admission.
  | complete call outcome =>
    obtain ⟨-, rfl⟩ := BreakerSystem.step_complete hst
    have hlogged : Tracked cfg (s.ended call outcome) :=
      ⟨h.valid, h.state, h.opened, h.admissions_le, h.admissions⟩
    exact hlogged.move (CircuitBreaker.settle_valid h.valid outcome)
      (CircuitBreaker.settle_follows _ outcome)
  | recordSuccess =>
    obtain rfl := Option.some.inj hst
    exact h.move (CircuitBreaker.recordSuccess_valid h.valid)
      (CircuitBreaker.recordSuccess_follows _)
  | recordFailure =>
    obtain rfl := Option.some.inj hst
    exact h.move (CircuitBreaker.recordFailure_valid h.valid)
      (CircuitBreaker.recordFailure_follows _)
  | reset =>
    obtain rfl := Option.some.inj hst
    exact h.move (CircuitBreaker.reset_valid _) (CircuitBreaker.reset_follows _)
  | readState =>
    obtain rfl := Option.some.inj hst
    exact h.move (CircuitBreaker.maybeTransitionToHalfOpen_valid h.valid)
      (CircuitBreaker.maybeTransitionToHalfOpen_follows _)
  | advance seconds =>
    obtain ⟨-, rfl⟩ := BreakerSystem.step_advance hst
    exact ⟨h.valid, h.state, h.opened, h.admissions_le, h.admissions⟩

/-- After every run the breaker and its history agree. -/
theorem run {s : BreakerSystem} {name : String} {now : ℚ} {as : List BreakerAction}
    (h : Lib.run (BreakerSystem.step cfg) (.init name now) as = some s) : Tracked cfg s :=
  run_induction (fun _ _ _ hI hst => hI.step hst) (init name now) h

end Tracked

/-- A call is admitted in an open breaker only when its recovery is due. -/
theorem recoveryDue_of_admit {cb : CircuitBreaker} {now : ℚ} (hopen : cb.state = .OPEN)
    (h : (cb.admitCall cfg now).2 = .ok ()) : cb.RecoveryDue cfg now := by
  rcases CircuitBreaker.maybeTransitionToHalfOpen_cases cfg now cb with
    ⟨hdue, -⟩ | ⟨-, he⟩
  · exact hdue
  · -- The breaker stays open, and rejects.
    rcases CircuitBreaker.admit_cases cb he with ⟨hs, -⟩ | ⟨hs, -⟩ | ⟨-, hr⟩
    · rw [hopen] at hs; cases hs
    · rw [hopen] at hs; cases hs
    · rw [hr] at h; cases h

/-- In every state that a breaker reaches, the representation invariant holds, a call that is
admitted while the breaker is `OPEN` comes after the recovery timeout has elapsed since it last
opened, and each window has admitted at most its quota. -/
theorem admission_safe {cfg : CircuitBreakerConfig} {name : String} {now : ℚ}
    {as : List BreakerAction} {s : BreakerSystem}
    (h : run (BreakerSystem.step cfg) (.init name now) as = some s) :
    s.breaker.Valid cfg ∧
    (s.breaker.state = .OPEN → (s.breaker.admitCall cfg s.now).2 = .ok () →
      ∃ t, lastOpened s.log = some t ∧ cfg.recoveryTimeoutSeconds ≤ s.now - t) ∧
    windowAdmissions s.log ≤ cfg.halfOpenMaxCalls := by
  have ht := Tracked.run h
  refine ⟨ht.valid, fun hopen hadmits => ?_, ht.admissions_le⟩
  obtain ⟨-, t, hopened, hdue⟩ := recoveryDue_of_admit hopen hadmits
  exact ⟨t, by rw [← ht.opened hopen]; exact hopened, hdue⟩

/-- The smallest thresholds: one failure opens the circuit, and one probe decides. -/
def singleProbe : CircuitBreakerConfig where
  failureThreshold := 1
  recoveryTimeoutSeconds := 1
  halfOpenMaxCalls := 1
  successThreshold := 1
  failureThreshold_pos := le_rfl
  recoveryTimeoutSeconds_pos := by norm_num
  successThreshold_pos := le_rfl
  successThreshold_le := le_rfl

/-- `admission_safe` on a run that opens the circuit and waits for its recovery. -/
theorem admission_safe_singleProbe :
    ∃ s, run (BreakerSystem.step singleProbe) (.init "payments" 0)
      [.execute, .complete 0 .raised, .advance 1] = some s ∧
    s.breaker.Valid singleProbe ∧
    (s.breaker.state = .OPEN → (s.breaker.admitCall singleProbe s.now).2 = .ok () →
      ∃ t, lastOpened s.log = some t ∧ singleProbe.recoveryTimeoutSeconds ≤ s.now - t) ∧
    windowAdmissions s.log ≤ singleProbe.halfOpenMaxCalls := by
  obtain ⟨s, hs⟩ := Option.isSome_iff_exists.mp
    (show (run (BreakerSystem.step singleProbe) (.init "payments" 0)
      [.execute, .complete 0 .raised, .advance 1]).isSome by decide +kernel)
  exact ⟨s, hs, admission_safe hs⟩

end MeshRouter.Resilience
