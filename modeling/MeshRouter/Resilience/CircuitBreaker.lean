import Mathlib.Algebra.Order.Ring.Rat
import Mathlib.Tactic.Linarith

/-!
# The circuit breaker

`CircuitBreaker` of `resilience/circuit_breaker.py`. Each block that the source runs with the lock
held is one function here: the admission part of `execute` is `admitCall`, the recording of a
completed call is `settle`, and `recordSuccess`, `recordFailure`, `reset`, and `readState` are the
public operations. A clock reading is an argument `now` of the functions that read the clock.

The configuration is immutable, so it stands beside the state, as an argument. Its fields are those
that `__post_init__` accepts (`postInit`): a `CircuitBreakerConfig` with a threshold out of range
cannot be built. `Valid` is the representation invariant, and each operation keeps it
(`admit_valid`, `recordSuccess_valid`, `recordFailure_valid`, `reset_valid`).
-/

namespace MeshRouter.Resilience

/-- Possible states of a circuit breaker. -/
inductive CircuitState where
  | CLOSED
  | OPEN
  | HALF_OPEN
deriving DecidableEq, Repr

/-- The checks of `CircuitBreakerConfig.__post_init__` that fail, with the value that each names. -/
inductive ConfigError where
  /-- "failure_threshold must be >= 1, got …." -/
  | failureThreshold (got : ℤ)
  /-- "recovery_timeout_seconds must be > 0, got …." -/
  | recoveryTimeoutSeconds (got : ℚ)
  /-- "half_open_max_calls must be >= 1, got …." -/
  | halfOpenMaxCalls (got : ℤ)
  /-- "success_threshold must be >= 1, got …." -/
  | successThreshold (got : ℤ)
  /-- "success_threshold (…) must be <= half_open_max_calls (…)." -/
  | successAboveMaxCalls (successThreshold halfOpenMaxCalls : ℤ)
deriving DecidableEq

/-- Immutable configuration for a `CircuitBreaker`, within the ranges that `__post_init__`
accepts. -/
structure CircuitBreakerConfig where
  /-- Consecutive failures in `CLOSED` that open the circuit. -/
  failureThreshold : ℕ
  /-- Seconds the circuit stays `OPEN`. -/
  recoveryTimeoutSeconds : ℚ
  /-- Probe calls allowed while in `HALF_OPEN`. -/
  halfOpenMaxCalls : ℕ
  /-- Successes in `HALF_OPEN` that close the circuit. -/
  successThreshold : ℕ
  failureThreshold_pos : 1 ≤ failureThreshold
  recoveryTimeoutSeconds_pos : 0 < recoveryTimeoutSeconds
  successThreshold_pos : 1 ≤ successThreshold
  successThreshold_le : successThreshold ≤ halfOpenMaxCalls

/-- `__post_init__`: the checks in the source's order, each on the value as it was given. -/
def postInit (failureThreshold : ℤ) (recoveryTimeoutSeconds : ℚ)
    (halfOpenMaxCalls successThreshold : ℤ) : Except ConfigError CircuitBreakerConfig :=
  if hf : failureThreshold < 1 then
    .error (.failureThreshold failureThreshold)
  else if hr : recoveryTimeoutSeconds ≤ 0 then
    .error (.recoveryTimeoutSeconds recoveryTimeoutSeconds)
  else if halfOpenMaxCalls < 1 then
    .error (.halfOpenMaxCalls halfOpenMaxCalls)
  else if hs : successThreshold < 1 then
    .error (.successThreshold successThreshold)
  else if hle : halfOpenMaxCalls < successThreshold then
    .error (.successAboveMaxCalls successThreshold halfOpenMaxCalls)
  else
    .ok {
      failureThreshold := failureThreshold.toNat
      recoveryTimeoutSeconds := recoveryTimeoutSeconds
      halfOpenMaxCalls := halfOpenMaxCalls.toNat
      successThreshold := successThreshold.toNat
      failureThreshold_pos := by omega
      recoveryTimeoutSeconds_pos := not_le.mp hr
      successThreshold_pos := by omega
      successThreshold_le := by omega }

/-- Raised when a call is rejected: the circuit is open, or its probe quota is full. -/
structure CircuitBreakerOpenError where
  /-- The name of the circuit breaker that rejected the call. -/
  circuitName : String
deriving DecidableEq

/-- The text of the error. -/
def CircuitBreakerOpenError.message (e : CircuitBreakerOpenError) : String :=
  "Circuit breaker '" ++ e.circuitName ++ "' is OPEN — call rejected."

/-- The mutable state of a breaker. -/
structure CircuitBreaker where
  name : String := "unnamed"
  state : CircuitState := .CLOSED
  failureCount : ℕ := 0
  successCount : ℕ := 0
  halfOpenCallCount : ℕ := 0
  openedAt : Option ℚ := none
  totalCalls : ℕ := 0
  totalSuccesses : ℕ := 0
  totalFailures : ℕ := 0
  totalRejected : ℕ := 0
deriving DecidableEq

/-- How a protected function ends: it returns, it raises an `Exception`, or it raises a
`BaseException` that is not one (`CancelledError`, `KeyboardInterrupt`). -/
inductive CallOutcome where
  | returned
  | raised
  | interrupted
deriving DecidableEq

namespace CircuitBreaker

/-- `_transition_to`: the new state, with the counters that it resets. Entering `HALF_OPEN` leaves
the failure count and the time of opening as they are. -/
def transitionTo (now : ℚ) (newState : CircuitState) (cb : CircuitBreaker) : CircuitBreaker :=
  match newState with
  | .OPEN =>
    { cb with state := .OPEN, openedAt := some now, failureCount := 0, successCount := 0,
              halfOpenCallCount := 0 }
  | .HALF_OPEN => { cb with state := .HALF_OPEN, successCount := 0, halfOpenCallCount := 0 }
  | .CLOSED =>
    { cb with state := .CLOSED, openedAt := none, failureCount := 0, successCount := 0,
              halfOpenCallCount := 0 }

variable (cfg : CircuitBreakerConfig) (now : ℚ)

/-- The condition of `_maybe_transition_to_half_open`: the breaker is open, and the recovery
timeout has elapsed since it opened. -/
def RecoveryDue (cb : CircuitBreaker) : Prop :=
  cb.state = .OPEN ∧ ∃ t ∈ cb.openedAt, cfg.recoveryTimeoutSeconds ≤ now - t

instance (cb : CircuitBreaker) : Decidable (cb.RecoveryDue cfg now) :=
  match h : cb.openedAt with
  | none => isFalse (by simp [RecoveryDue, h])
  | some t => decidable_of_iff (cb.state = .OPEN ∧ cfg.recoveryTimeoutSeconds ≤ now - t)
      (by simp [RecoveryDue, h])

/-- `_maybe_transition_to_half_open`. -/
def maybeTransitionToHalfOpen (cb : CircuitBreaker) : CircuitBreaker :=
  if cb.RecoveryDue cfg now then cb.transitionTo now .HALF_OPEN else cb

/-- The `state` property: a read that may move the breaker to `HALF_OPEN`. -/
def readState (cb : CircuitBreaker) : CircuitBreaker × CircuitState :=
  let cb := cb.maybeTransitionToHalfOpen cfg now
  (cb, cb.state)

/-- A call is turned away. -/
def reject (cb : CircuitBreaker) : CircuitBreaker × Except CircuitBreakerOpenError Unit :=
  ({ cb with totalRejected := cb.totalRejected + 1 }, .error ⟨cb.name⟩)

/-- The first locked block of `execute`: the call is admitted or turned away. -/
def admitCall (cb : CircuitBreaker) : CircuitBreaker × Except CircuitBreakerOpenError Unit :=
  let cb := cb.maybeTransitionToHalfOpen cfg now
  match cb.state with
  | .OPEN => cb.reject
  | .HALF_OPEN =>
    if cfg.halfOpenMaxCalls ≤ cb.halfOpenCallCount then
      cb.reject
    else
      ({ cb with halfOpenCallCount := cb.halfOpenCallCount + 1, totalCalls := cb.totalCalls + 1 },
        .ok ())
  | .CLOSED => ({ cb with totalCalls := cb.totalCalls + 1 }, .ok ())

/-- `record_success`. In `HALF_OPEN` it counts every success, whatever call it is of. -/
def recordSuccess (cb : CircuitBreaker) : CircuitBreaker :=
  let cb := { cb with totalSuccesses := cb.totalSuccesses + 1 }
  match cb.state with
  -- Only failures in a row count.
  | .CLOSED => { cb with failureCount := 0 }
  | .HALF_OPEN =>
    let cb := { cb with successCount := cb.successCount + 1 }
    if cfg.successThreshold ≤ cb.successCount then cb.transitionTo now .CLOSED else cb
  | .OPEN => cb

/-- `record_failure`. -/
def recordFailure (cb : CircuitBreaker) : CircuitBreaker :=
  let cb := { cb with totalFailures := cb.totalFailures + 1 }
  match cb.state with
  | .CLOSED =>
    let cb := { cb with failureCount := cb.failureCount + 1 }
    if cfg.failureThreshold ≤ cb.failureCount then cb.transitionTo now .OPEN else cb
  -- One failed probe is enough.
  | .HALF_OPEN => cb.transitionTo now .OPEN
  | .OPEN => cb

/-- `reset`. -/
def reset (cb : CircuitBreaker) : CircuitBreaker :=
  { cb.transitionTo now .CLOSED with failureCount := 0 }

/-- The end of `execute`, once the protected function has ended: only `Exception` is caught, so an
interrupted call records nothing. -/
def settle (outcome : CallOutcome) (cb : CircuitBreaker) : CircuitBreaker :=
  match outcome with
  | .returned => cb.recordSuccess cfg now
  | .raised => cb.recordFailure cfg now
  | .interrupted => cb

/-! ## What each operation does -/

/-- The representation invariant. -/
structure Valid (cb : CircuitBreaker) : Prop where
  closed : cb.state = .CLOSED →
    cb.failureCount < cfg.failureThreshold ∧ cb.openedAt = none ∧ cb.halfOpenCallCount = 0 ∧
      cb.successCount = 0
  opened : cb.state = .OPEN → ∃ t, cb.openedAt = some t
  halfOpened : cb.state = .HALF_OPEN →
    cb.successCount < cfg.successThreshold ∧ cb.halfOpenCallCount ≤ cfg.halfOpenMaxCalls

variable {cfg now}

@[simp]
theorem transitionTo_state (newState : CircuitState) (cb : CircuitBreaker) :
    (cb.transitionTo now newState).state = newState := by
  cases newState <;> rfl

/-- A transition gives a valid state, whatever the counters were. -/
theorem transitionTo_valid (newState : CircuitState) (cb : CircuitBreaker) :
    (cb.transitionTo now newState).Valid cfg := by
  have hf := cfg.failureThreshold_pos
  have hs := cfg.successThreshold_pos
  cases newState
  · exact ⟨fun _ => ⟨hf, rfl, rfl, rfl⟩, by simp, by simp⟩
  · exact ⟨by simp, fun _ => ⟨now, rfl⟩, by simp⟩
  · exact ⟨by simp, by simp, fun _ => ⟨hs, Nat.zero_le _⟩⟩

/-- What `_maybe_transition_to_half_open` does: an open breaker whose timeout has elapsed becomes
half open with its counters at zero, any other is left alone. -/
theorem maybeTransitionToHalfOpen_cases (cfg : CircuitBreakerConfig) (now : ℚ)
    (cb : CircuitBreaker) :
    (cb.RecoveryDue cfg now ∧
      cb.maybeTransitionToHalfOpen cfg now = cb.transitionTo now .HALF_OPEN) ∨
    (¬ cb.RecoveryDue cfg now ∧ cb.maybeTransitionToHalfOpen cfg now = cb) := by
  unfold maybeTransitionToHalfOpen
  split_ifs with h
  · exact Or.inl ⟨h, rfl⟩
  · exact Or.inr ⟨h, rfl⟩

/-- The move to `HALF_OPEN` keeps the invariant. -/
theorem maybeTransitionToHalfOpen_valid {cb : CircuitBreaker} (h : cb.Valid cfg) :
    (cb.maybeTransitionToHalfOpen cfg now).Valid cfg := by
  rcases maybeTransitionToHalfOpen_cases cfg now cb with ⟨-, he⟩ | ⟨-, he⟩
  · rw [he]
    exact transitionTo_valid _ _
  · rw [he]
    exact h

/-- What `admitCall` does, once the breaker has moved to `cb'`: it admits in `CLOSED`, it admits in
`HALF_OPEN` while the quota has room and counts the call, and otherwise it rejects. -/
theorem admit_cases (cb : CircuitBreaker) {cb' : CircuitBreaker}
    (hcb' : cb.maybeTransitionToHalfOpen cfg now = cb') :
    (cb'.state = .CLOSED ∧
      cb.admitCall cfg now = ({ cb' with totalCalls := cb'.totalCalls + 1 }, .ok ())) ∨
    (cb'.state = .HALF_OPEN ∧ cb'.halfOpenCallCount < cfg.halfOpenMaxCalls ∧
      cb.admitCall cfg now =
        ({ cb' with halfOpenCallCount := cb'.halfOpenCallCount + 1,
                    totalCalls := cb'.totalCalls + 1 }, .ok ())) ∨
    ((cb'.state = .OPEN ∨
        cb'.state = .HALF_OPEN ∧ cfg.halfOpenMaxCalls ≤ cb'.halfOpenCallCount) ∧
      cb.admitCall cfg now = cb'.reject) := by
  unfold admitCall
  rw [hcb']
  dsimp only
  cases hs : cb'.state with
  | CLOSED => exact Or.inl ⟨rfl, rfl⟩
  | OPEN => exact Or.inr (Or.inr ⟨Or.inl rfl, rfl⟩)
  | HALF_OPEN =>
    by_cases hfull : cfg.halfOpenMaxCalls ≤ cb'.halfOpenCallCount
    · exact Or.inr (Or.inr ⟨Or.inr ⟨rfl, hfull⟩, by rw [if_pos hfull]⟩)
    · exact Or.inr (Or.inl ⟨rfl, not_le.mp hfull, by rw [if_neg hfull]⟩)

/-- What `record_success` does in each state. -/
theorem recordSuccess_cases (cfg : CircuitBreakerConfig) (now : ℚ) (cb : CircuitBreaker) :
    (cb.state = .CLOSED ∧ cb.recordSuccess cfg now =
      { cb with totalSuccesses := cb.totalSuccesses + 1, failureCount := 0 }) ∨
    (cb.state = .OPEN ∧ cb.recordSuccess cfg now =
      { cb with totalSuccesses := cb.totalSuccesses + 1 }) ∨
    (cb.state = .HALF_OPEN ∧ cb.successCount + 1 < cfg.successThreshold ∧
      cb.recordSuccess cfg now = { cb with totalSuccesses := cb.totalSuccesses + 1,
                                           successCount := cb.successCount + 1 }) ∨
    (cb.state = .HALF_OPEN ∧ cfg.successThreshold ≤ cb.successCount + 1 ∧
      cb.recordSuccess cfg now =
        { cb with state := .CLOSED, openedAt := none, failureCount := 0, successCount := 0,
                  halfOpenCallCount := 0, totalSuccesses := cb.totalSuccesses + 1 }) := by
  obtain ⟨_, state, _, successCount⟩ := cb
  unfold recordSuccess
  dsimp only
  cases state with
  | CLOSED => exact Or.inl ⟨rfl, rfl⟩
  | OPEN => exact Or.inr (Or.inl ⟨rfl, rfl⟩)
  | HALF_OPEN =>
    by_cases hthr : cfg.successThreshold ≤ successCount + 1
    · exact Or.inr (Or.inr (Or.inr ⟨rfl, hthr, if_pos hthr⟩))
    · exact Or.inr (Or.inr (Or.inl ⟨rfl, not_le.mp hthr, if_neg hthr⟩))

/-- What `record_failure` does in each state. -/
theorem recordFailure_cases (cfg : CircuitBreakerConfig) (now : ℚ) (cb : CircuitBreaker) :
    (cb.state = .CLOSED ∧ cb.failureCount + 1 < cfg.failureThreshold ∧
      cb.recordFailure cfg now = { cb with totalFailures := cb.totalFailures + 1,
                                           failureCount := cb.failureCount + 1 }) ∨
    (cb.state = .OPEN ∧ cb.recordFailure cfg now =
      { cb with totalFailures := cb.totalFailures + 1 }) ∨
    ((cb.state = .HALF_OPEN ∨
        cb.state = .CLOSED ∧ cfg.failureThreshold ≤ cb.failureCount + 1) ∧
      cb.recordFailure cfg now =
        { cb with state := .OPEN, openedAt := some now, failureCount := 0, successCount := 0,
                  halfOpenCallCount := 0, totalFailures := cb.totalFailures + 1 }) := by
  obtain ⟨_, state, failureCount⟩ := cb
  unfold recordFailure
  dsimp only
  cases state with
  | CLOSED =>
    by_cases hthr : cfg.failureThreshold ≤ failureCount + 1
    · exact Or.inr (Or.inr ⟨Or.inr ⟨rfl, hthr⟩, if_pos hthr⟩)
    · exact Or.inl ⟨rfl, not_le.mp hthr, if_neg hthr⟩
  | OPEN => exact Or.inr (Or.inl ⟨rfl, rfl⟩)
  | HALF_OPEN => exact Or.inr (Or.inr ⟨Or.inl rfl, rfl⟩)

/-! ## The invariant is kept -/

/-- A fresh breaker is valid. -/
theorem new_valid (name : String) : ({ name := name } : CircuitBreaker).Valid cfg :=
  ⟨fun _ => ⟨cfg.failureThreshold_pos, rfl, rfl, rfl⟩, by simp, by simp⟩

/-- `admitCall` keeps the invariant: a probe is counted only while the quota has room. -/
theorem admit_valid {cb : CircuitBreaker} (h : cb.Valid cfg) :
    (cb.admitCall cfg now).1.Valid cfg := by
  have hv : (cb.maybeTransitionToHalfOpen cfg now).Valid cfg := maybeTransitionToHalfOpen_valid h
  generalize hcb' : cb.maybeTransitionToHalfOpen cfg now = cb' at hv
  rcases admit_cases cb hcb' with ⟨hs, he⟩ | ⟨hs, hroom, he⟩ | ⟨-, he⟩
  · rw [he]
    exact ⟨hv.closed, by simp [hs], by simp [hs]⟩
  · rw [he]
    -- The probe is counted, and there was room for it.
    exact ⟨by simp [hs], by simp [hs], fun _ => ⟨(hv.halfOpened hs).1, hroom⟩⟩
  · rw [he]
    exact ⟨hv.closed, hv.opened, hv.halfOpened⟩

/-- `record_success` keeps the invariant, also for a success that arrives in another state than
the one that admitted its call. -/
theorem recordSuccess_valid {cb : CircuitBreaker} (h : cb.Valid cfg) :
    (cb.recordSuccess cfg now).Valid cfg := by
  rcases recordSuccess_cases cfg now cb with
    ⟨hs, he⟩ | ⟨hs, he⟩ | ⟨hs, hlt, he⟩ | ⟨-, -, he⟩
  · rw [he]
    exact ⟨fun _ => ⟨cfg.failureThreshold_pos, (h.closed hs).2⟩, by simp [hs], by simp [hs]⟩
  · rw [he]
    exact ⟨by simp [hs], h.opened, by simp [hs]⟩
  · rw [he]
    -- The success is counted and does not reach the threshold.
    exact ⟨by simp [hs], by simp [hs], fun _ => ⟨hlt, (h.halfOpened hs).2⟩⟩
  · rw [he]
    exact ⟨fun _ => ⟨cfg.failureThreshold_pos, rfl, rfl, rfl⟩, by simp, by simp⟩

/-- `record_failure` keeps the invariant. -/
theorem recordFailure_valid {cb : CircuitBreaker} (h : cb.Valid cfg) :
    (cb.recordFailure cfg now).Valid cfg := by
  rcases recordFailure_cases cfg now cb with
    ⟨hs, hlt, he⟩ | ⟨hs, he⟩ | ⟨-, he⟩
  · rw [he]
    exact ⟨fun _ => ⟨hlt, (h.closed hs).2⟩, by simp [hs], by simp [hs]⟩
  · rw [he]
    exact ⟨by simp [hs], h.opened, by simp [hs]⟩
  · rw [he]
    exact ⟨by simp, fun _ => ⟨now, rfl⟩, by simp⟩

/-- `reset` gives a valid state. -/
theorem reset_valid (cb : CircuitBreaker) : (cb.reset now).Valid cfg :=
  ⟨fun _ => ⟨cfg.failureThreshold_pos, rfl, rfl, rfl⟩, by simp [reset], by simp [reset]⟩

/-- The end of a call keeps the invariant, however the call ends. -/
theorem settle_valid {cb : CircuitBreaker} (h : cb.Valid cfg) (outcome : CallOutcome) :
    (cb.settle cfg now outcome).Valid cfg := by
  cases outcome with
  | returned => exact recordSuccess_valid h
  | raised => exact recordFailure_valid h
  | interrupted => exact h

end CircuitBreaker

end MeshRouter.Resilience
