import MeshRouter.Resilience.CircuitBreaker
import MeshRouter.Resilience.Retry

/-!
# Retries through a circuit breaker

`RetryPolicy.execute` of `resilience/retry.py` on a function that is protected by
`CircuitBreaker.execute` of `resilience/circuit_breaker.py`. To the policy the error of an open
circuit is an exception like any other, so that it goes on retrying. `Hammered` says what has become
of the breaker after some attempts on a service that is down: the attempts that the breaker let
through until it opened, and the attempts that it turned away since.

So as long as the policy's patience ends before the breaker's (`retry_spares_service`), a service
that is down is called no more often than the breaker allows, whatever the policy asks for.
-/

namespace MeshRouter.Resilience

open RetryPolicy

/-- What a protected function raises: its own exception, or that of the open circuit. -/
inductive GuardedError (ε : Type) where
  | openCircuit (error : CircuitBreakerOpenError)
  | own (error : ε)
deriving DecidableEq

/-- The error of an open circuit is an exception like any other. -/
instance {ε : Type} [Catchable ε] : Catchable (GuardedError ε) where
  isException
    | .openCircuit _ => true
    | .own error => Catchable.isException error
  typeName
    | .openCircuit _ => "CircuitBreakerOpenError"
    | .own error => Catchable.typeName error
  truth
    | .openCircuit _ => .ok true
    | .own error => (Catchable.truth error).mapError .own
  text
    | .openCircuit error => .ok error.message
    | .own error => (Catchable.text error).mapError .own

/-- A breaker with the clock, and the state of the service behind it. -/
structure Guarded (τ : Type) where
  breaker : CircuitBreaker
  clock : ℚ
  service : τ

section Guarded

variable {τ ρ ε : Type} [Catchable ε] (bcfg : CircuitBreakerConfig)
  (f : ℚ → τ → Except ε ρ × ℚ × τ)

/-- `CircuitBreaker.execute`. The function is given the time and the state of the service, and says
how it ends, at what time, and what becomes of the service. -/
def guardedCall (s : Guarded τ) : Except (GuardedError ε) ρ × Guarded τ :=
  match s.breaker.admitCall bcfg s.clock with
  | (cb, .error error) => (.error (.openCircuit error), { s with breaker := cb })
  | (cb, .ok ()) =>
    let (outcome, clock, service) := f s.clock s.service
    match outcome with
    | .ok value => (.ok value, ⟨cb.settle bcfg clock .returned, clock, service⟩)
    | .error exc =>
      if Catchable.isException exc then
        (.error (.own exc), ⟨cb.settle bcfg clock .raised, clock, service⟩)
      else
        (.error (.own exc), ⟨cb.settle bcfg clock .interrupted, clock, service⟩)

/-- A call of the service fails, with an exception that can be reported. -/
def CallFails (now : ℚ) (service : τ) : Prop :=
  ∃ exc, (f now service).1 = .error exc ∧ Catchable.isException exc = true ∧ Reportable exc

end Guarded

/-- A reportable exception stays so behind a breaker. -/
theorem Reportable.own {ε : Type} [Catchable ε] {exc : ε} (h : Reportable exc) :
    Reportable (GuardedError.own exc) := by
  rcases h with hfalse | ⟨htrue, text, htext⟩
  · exact .inl (congrArg (Except.mapError GuardedError.own) hfalse)
  · exact .inr ⟨congrArg (Except.mapError GuardedError.own) htrue, text,
      congrArg (Except.mapError GuardedError.own) htext⟩

/-- The error of an open circuit can be reported. -/
theorem reportable_openCircuit {ε : Type} [Catchable ε] (error : CircuitBreakerOpenError) :
    Reportable (GuardedError.openCircuit error : GuardedError ε) := .inr ⟨rfl, _, rfl⟩

/-- How many failures in a row a breaker still allows. -/
def CircuitBreaker.room (bcfg : CircuitBreakerConfig) (cb : CircuitBreaker) : ℕ :=
  bcfg.failureThreshold - cb.failureCount

section Hammered

variable {τ ρ ε : Type} [Catchable ε] {bcfg : CircuitBreakerConfig} {cb : CircuitBreaker}
  {waited wait : ℚ} {f : ℚ → τ → Except ε ρ × ℚ × τ} {made : ℕ} {s s' : Guarded τ}

/-- What has become of the breaker `cb` after so many attempts on a service that is down, where the
waits between them have taken so long in all. -/
structure Hammered (bcfg : CircuitBreakerConfig) (cb : CircuitBreaker) (made : ℕ) (waited : ℚ)
    (s : Guarded τ) : Prop where
  calls : s.breaker.totalCalls = cb.totalCalls + min made (cb.room bcfg)
  rejected : s.breaker.totalRejected = cb.totalRejected + (made - cb.room bcfg)
  closed : made < cb.room bcfg →
    s.breaker.state = .CLOSED ∧ s.breaker.failureCount = cb.failureCount + made
  opened : cb.room bcfg ≤ made → s.breaker.state = .OPEN ∧
    ∃ t, s.breaker.openedAt = some t ∧ s.clock - t ≤ waited

/-- Before the first attempt. -/
theorem Hammered.start (hclosed : s.breaker.state = .CLOSED)
    (hroom : 0 < s.breaker.room bcfg) : Hammered bcfg s.breaker 0 0 s where
  calls := by rw [Nat.zero_min, Nat.add_zero]
  rejected := by rw [Nat.zero_sub, Nat.add_zero]
  closed _ := ⟨hclosed, rfl⟩
  opened hfull := absurd hroom (Nat.not_lt.mpr hfull)

/-- A wait between two attempts. -/
theorem Hammered.sleep (h : Hammered bcfg cb made waited s) (hbreaker : s'.breaker = s.breaker)
    (hclock : s'.clock = s.clock + wait) : Hammered bcfg cb made (waited + wait) s' where
  calls := by rw [hbreaker, h.calls]
  rejected := by rw [hbreaker, h.rejected]
  closed hroom := by
    rw [hbreaker]
    exact h.closed hroom
  opened hfull := by
    obtain ⟨hstate, t, ht, helapsed⟩ := h.opened hfull
    rw [hbreaker]
    refine ⟨hstate, t, ht, ?_⟩
    linarith

/-- A call that the closed breaker lets through, and that raises. -/
theorem guardedCall_closed (hclosed : s.breaker.state = .CLOSED) {exc : ε}
    (hdown : (f s.clock s.service).1 = .error exc) (hexc : Catchable.isException exc = true) :
    guardedCall bcfg f s = (.error (.own exc),
      ⟨({ s.breaker with totalCalls := s.breaker.totalCalls + 1 }).recordFailure bcfg
        (f s.clock s.service).2.1, (f s.clock s.service).2.1, (f s.clock s.service).2.2⟩) := by
  have hsame : s.breaker.maybeTransitionToHalfOpen bcfg s.clock = s.breaker :=
    if_neg fun hdue => by
      have hopen := hdue.1
      rw [hclosed] at hopen
      cases hopen
  have hadmit : s.breaker.admitCall bcfg s.clock =
      ({ s.breaker with totalCalls := s.breaker.totalCalls + 1 }, .ok ()) := by
    rcases CircuitBreaker.admit_cases s.breaker hsame with ⟨-, he⟩ | ⟨hs, -, -⟩ | ⟨hs, -⟩
    · exact he
    · rw [hclosed] at hs
      cases hs
    · rw [hclosed] at hs
      rcases hs with hs | ⟨hs, -⟩ <;> cases hs
  rw [guardedCall, hadmit]
  dsimp only
  rw [hdown]
  dsimp only
  rw [if_pos hexc]
  rfl

/-- A call that the open breaker turns away. -/
theorem guardedCall_open (hopen : s.breaker.state = .OPEN)
    (hdue : ¬ s.breaker.RecoveryDue bcfg s.clock) :
    guardedCall bcfg f s = (.error (.openCircuit ⟨s.breaker.name⟩),
      { s with breaker :=
        { s.breaker with totalRejected := s.breaker.totalRejected + 1 } }) := by
  have hsame : s.breaker.maybeTransitionToHalfOpen bcfg s.clock = s.breaker := if_neg hdue
  have hadmit : s.breaker.admitCall bcfg s.clock = s.breaker.reject := by
    rcases CircuitBreaker.admit_cases s.breaker hsame with ⟨hs, -⟩ | ⟨hs, -, -⟩ | ⟨-, he⟩
    · rw [hopen] at hs
      cases hs
    · rw [hopen] at hs
      cases hs
    · exact he
  rw [guardedCall, hadmit]
  rfl

/-- The failure of a call that the closed breaker let through. -/
theorem Hammered.failure (h : Hammered bcfg cb made waited s)
    (hclosed : s.breaker.state = .CLOSED)
    (hcount : s.breaker.failureCount = cb.failureCount + made) (hroom : made < cb.room bcfg)
    (hwaited : 0 ≤ waited) {clock : ℚ} {service : τ} :
    Hammered bcfg cb (made + 1) waited
      ⟨({ s.breaker with totalCalls := s.breaker.totalCalls + 1 }).recordFailure bcfg clock,
        clock, service⟩ := by
  have hcalls := h.calls
  have hrejected := h.rejected
  have hsize : cb.room bcfg = bcfg.failureThreshold - cb.failureCount := rfl
  rcases CircuitBreaker.recordFailure_cases bcfg clock
    { s.breaker with totalCalls := s.breaker.totalCalls + 1 } with
    ⟨-, hlt, he⟩ | ⟨hs, -⟩ | ⟨hs, he⟩
  · rw [he]
    dsimp only at hlt
    exact {
      calls := by
        dsimp only
        omega
      rejected := by
        dsimp only
        omega
      closed := fun _ => ⟨hclosed, by dsimp only; omega⟩
      opened := fun hfull => absurd hfull (by omega) }
  · dsimp only at hs
    rw [hclosed] at hs
    cases hs
  · rw [he]
    have hlimit : bcfg.failureThreshold ≤ s.breaker.failureCount + 1 := by
      rcases hs with hs | ⟨-, hle⟩
      · dsimp only at hs
        rw [hclosed] at hs
        cases hs
      · exact hle
    exact {
      calls := by
        dsimp only
        omega
      rejected := by
        dsimp only
        omega
      closed := fun hlt => absurd hlt (by omega)
      opened := fun _ => ⟨rfl, clock, rfl, by
        rw [sub_self]
        exact hwaited⟩ }

/-- An attempt, before the timeout of an open breaker can have elapsed. -/
theorem Hammered.attempt (h : Hammered bcfg cb made waited s)
    (hdown : ∀ now service, CallFails f now service)
    (hpatience : waited < bcfg.recoveryTimeoutSeconds) (hwaited : 0 ≤ waited) :
    Hammered bcfg cb (made + 1) waited (guardedCall bcfg f s).2 ∧
      if made < cb.room bcfg then
        ∃ exc, (guardedCall bcfg f s).1 = .error (.own exc) ∧
          Catchable.isException exc = true ∧ Reportable exc
      else ∃ error, (guardedCall bcfg f s).1 = .error (.openCircuit error) := by
  split_ifs with hroom
  · obtain ⟨hclosed, hcount⟩ := h.closed hroom
    obtain ⟨exc, hraised, hexc, hreport⟩ := hdown s.clock s.service
    rw [guardedCall_closed hclosed hraised hexc]
    exact ⟨h.failure hclosed hcount hroom hwaited, exc, rfl, hexc, hreport⟩
  · obtain ⟨hopen, t, ht, helapsed⟩ := h.opened (Nat.le_of_not_lt hroom)
    have hdue : ¬ s.breaker.RecoveryDue bcfg s.clock := by
      rintro ⟨-, t', ht', hle⟩
      rw [ht] at ht'
      obtain rfl := Option.some.inj ht'
      linarith
    rw [guardedCall_open hopen hdue]
    refine ⟨?_, _, rfl⟩
    have hcalls := h.calls
    have hrejected := h.rejected
    exact {
      calls := by
        dsimp only
        omega
      rejected := by
        dsimp only
        omega
      closed := fun hlt => absurd hlt (by omega)
      opened := fun _ => ⟨hopen, t, ht, helapsed⟩ }

end Hammered

section Run

variable {τ ρ ε : Type} [Catchable ε] {cfg : RetryConfig} {bcfg : CircuitBreakerConfig}
  {f : ℚ → τ → Except ε ρ × ℚ × τ}
  {sleep : ℚ → Guarded τ → Except (GuardedError ε) Unit × Guarded τ} {random : ℕ → ℚ}
  {s : Guarded τ}

/-- How long the policy has waited in all before an attempt. -/
def waitedBefore (cfg : RetryConfig) (bcfg : CircuitBreakerConfig) (f : ℚ → τ → Except ε ρ × ℚ × τ)
    (sleep : ℚ → Guarded τ → Except (GuardedError ε) Unit × Guarded τ) (random : ℕ → ℚ)
    (s : Guarded τ) : ℕ → ℚ
  | 0 => 0
  | k + 1 => waitedBefore cfg bcfg f sleep random s k +
      ((before cfg (guardedCall bcfg f) sleep random s (k + 1)).clock -
        (guardedCall bcfg f (before cfg (guardedCall bcfg f) sleep random s k)).2.clock)

/-- A sleep wakes, leaves the breaker as it is, and does not turn back the clock. -/
def Sound (cfg : RetryConfig)
    (sleep : ℚ → Guarded τ → Except (GuardedError ε) Unit × Guarded τ) : Prop :=
  ∀ delay s, 0 ≤ delay → delay ≤ cfg.maxDelaySeconds →
    (sleep delay s).1 = .ok () ∧ (sleep delay s).2.breaker = s.breaker ∧
      s.clock ≤ (sleep delay s).2.clock

omit [Catchable ε] in
/-- A sleep after an attempt is sound. -/
theorem Sound.rest (hsleep : Sound cfg sleep) (hrandom : ∀ k, 0 ≤ random k ∧ random k ≤ 1) (k : ℕ)
    (s : Guarded τ) :
    (RetryPolicy.rest cfg sleep random k s).1 = .ok () ∧
      (RetryPolicy.rest cfg sleep random k s).2.breaker = s.breaker ∧
      s.clock ≤ (RetryPolicy.rest cfg sleep random k s).2.clock := by
  have hdelay : 0 ≤ (cfg.computeDelay (random k) k).getD 0 ∧
      (cfg.computeDelay (random k) k).getD 0 ≤ cfg.maxDelaySeconds := by
    cases hcomputed : cfg.computeDelay (random k) k with
    | none => exact ⟨le_rfl, cfg.baseDelaySeconds_nonneg.trans cfg.baseDelaySeconds_le⟩
    | some delay => exact RetryConfig.computeDelay_bounds hcomputed (hrandom k)
  exact hsleep _ s hdelay.1 hdelay.2

/-- The policy has waited the longer the more attempts it has made. -/
theorem waitedBefore_mono (hsleep : Sound cfg sleep) (hrandom : ∀ k, 0 ≤ random k ∧ random k ≤ 1) :
    Monotone (waitedBefore cfg bcfg f sleep random s) := by
  refine monotone_nat_of_le_succ fun k => ?_
  have hclock := (hsleep.rest hrandom k
    (guardedCall bcfg f (before cfg (guardedCall bcfg f) sleep random s k)).2).2.2
  exact le_add_of_nonneg_right (sub_nonneg.mpr hclock)

/-- Before each attempt, as long as the waits so far are shorter than the recovery timeout. -/
theorem hammered_before (hdown : ∀ now service, CallFails f now service) (hsleep : Sound cfg sleep)
    (hrandom : ∀ k, 0 ≤ random k ∧ random k ≤ 1)
    (hpatience : waitedBefore cfg bcfg f sleep random s cfg.maxRetries <
      bcfg.recoveryTimeoutSeconds)
    (hclosed : s.breaker.state = .CLOSED) (hroom : 0 < s.breaker.room bcfg) {k : ℕ}
    (hk : k ≤ cfg.maxRetries) :
    0 ≤ waitedBefore cfg bcfg f sleep random s k ∧
      waitedBefore cfg bcfg f sleep random s k < bcfg.recoveryTimeoutSeconds ∧
      Hammered bcfg s.breaker k (waitedBefore cfg bcfg f sleep random s k)
        (before cfg (guardedCall bcfg f) sleep random s k) := by
  have hmono : Monotone (waitedBefore cfg bcfg f sleep random s) :=
    waitedBefore_mono hsleep hrandom
  have hnonneg : ∀ j, 0 ≤ waitedBefore cfg bcfg f sleep random s j := fun j => hmono j.zero_le
  have hshort : ∀ j ≤ cfg.maxRetries,
      waitedBefore cfg bcfg f sleep random s j < bcfg.recoveryTimeoutSeconds :=
    fun j hj => (hmono hj).trans_lt hpatience
  refine ⟨hnonneg k, hshort k hk, ?_⟩
  -- Induction on the attempts that have been made.
  induction k with
  | zero => exact Hammered.start hclosed hroom
  | succ k ih =>
    have hle : k ≤ cfg.maxRetries := by omega
    have hattempt := ((ih hle).attempt hdown (hshort k hle) (hnonneg k)).1
    have hrest := hsleep.rest hrandom k
      (guardedCall bcfg f (before cfg (guardedCall bcfg f) sleep random s k)).2
    exact hattempt.sleep hrest.2.1 (add_sub_cancel _ _).symm

/-- Every attempt fails, with what can be reported: the circuit is open once the breaker has no
failures left to its threshold. -/
theorem attempt_fails (hdown : ∀ now service, CallFails f now service) (hsleep : Sound cfg sleep)
    (hrandom : ∀ k, 0 ≤ random k ∧ random k ≤ 1)
    (hpatience : waitedBefore cfg bcfg f sleep random s cfg.maxRetries <
      bcfg.recoveryTimeoutSeconds)
    (hclosed : s.breaker.state = .CLOSED) (hroom : 0 < s.breaker.room bcfg) {k : ℕ}
    (hk : k ≤ cfg.maxRetries) :
    Hammered bcfg s.breaker (k + 1) (waitedBefore cfg bcfg f sleep random s k)
        (guardedCall bcfg f (before cfg (guardedCall bcfg f) sleep random s k)).2 ∧
      ∃ exc, (guardedCall bcfg f (before cfg (guardedCall bcfg f) sleep random s k)).1 =
          .error exc ∧ Catchable.isException exc = true ∧ Reportable exc ∧
        ((∃ rejection, exc = .openCircuit rejection) ↔ s.breaker.room bcfg ≤ k) := by
  obtain ⟨hnonneg, hshort, hammered⟩ :=
    hammered_before hdown hsleep hrandom hpatience hclosed hroom hk
  obtain ⟨hafter, hresult⟩ := hammered.attempt hdown hshort hnonneg
  refine ⟨hafter, ?_⟩
  split_ifs at hresult with hlt
  · obtain ⟨exc, hraised, hexc, hreport⟩ := hresult
    exact ⟨_, hraised, hexc, hreport.own, iff_of_false (by simp) (by omega)⟩
  · obtain ⟨error, hraised⟩ := hresult
    exact ⟨_, hraised, rfl, reportable_openCircuit error, iff_of_true ⟨error, rfl⟩ (by omega)⟩

/-- A service that is down, behind a closed breaker, retried by a policy whose waits together are
shorter than the recovery timeout. All attempts are made, and the policy is exhausted; but only the
first of them reach the service, as many as the breaker has failures left to its threshold. The
others are rejected. The policy reports the open circuit instead of what the service raised exactly
if there are such others, and leaves the circuit open exactly if the threshold was reached. -/
theorem retry_spares_service (hdown : ∀ now service, CallFails f now service)
    (hsleep : Sound cfg sleep) (hrandom : ∀ k, 0 ≤ random k ∧ random k ≤ 1)
    (hpatience : waitedBefore cfg bcfg f sleep random s cfg.maxRetries <
      bcfg.recoveryTimeoutSeconds)
    (hover : ∀ j < cfg.maxRetries, ¬ cfg.Overflows j)
    (hvalid : s.breaker.Valid bcfg) (hclosed : s.breaker.state = .CLOSED) :
    ∃ error after, execute cfg (guardedCall bcfg f) sleep random s = (.exhausted error, after) ∧
      error.attempts = cfg.maxRetries + 1 ∧
      after.breaker.totalCalls =
        s.breaker.totalCalls + min (cfg.maxRetries + 1) (s.breaker.room bcfg) ∧
      after.breaker.totalRejected =
        s.breaker.totalRejected + (cfg.maxRetries + 1 - s.breaker.room bcfg) ∧
      ((∃ rejection, error.lastError = some (.openCircuit rejection)) ↔
        s.breaker.room bcfg < cfg.maxRetries + 1) ∧
      (after.breaker.state = .OPEN ↔ s.breaker.room bcfg ≤ cfg.maxRetries + 1) := by
  have hroom : 0 < s.breaker.room bcfg := Nat.sub_pos_of_lt (hvalid.closed hclosed).1
  -- No attempt before the last settles the loop.
  have hnone : ∀ j < cfg.maxRetries,
      settledAt cfg (guardedCall bcfg f) sleep random s j = none := fun j hj => by
    obtain ⟨-, exc, hraised, hexc, -⟩ :=
      attempt_fails hdown hsleep hrandom hpatience hclosed hroom hj.le
    exact settledAt_eq_none_iff.mpr ⟨⟨exc, hraised, hexc⟩, hj.ne, hover j hj,
      (hsleep.rest hrandom j _).1⟩
  obtain ⟨hafter, exc, hraised, hexc, hreport, hopen⟩ :=
    attempt_fails hdown hsleep hrandom hpatience hclosed hroom le_rfl
  obtain ⟨error, hexhausted, hattempts, hlast⟩ :=
    exhausted_of_reportable (ρ := ρ) (cfg.maxRetries + 1) hreport
  have hsettled : settledAt cfg (guardedCall bcfg f) sleep random s cfg.maxRetries =
      some (.exhausted error) := by
    rw [settledAt_of_fails hexc hraised, if_pos rfl, hexhausted]
  refine ⟨error, _, execute_eq_of_settledAt hnone hsettled, hattempts, hafter.calls,
    hafter.rejected, ?_, ?_⟩
  · rw [Nat.lt_succ_iff, ← hopen]
    rcases hlast with hsome | ⟨hnoError, hfalse⟩
    · rw [hsome]
      simp only [Option.some.injEq]
    · rw [hnoError]
      refine iff_of_false (by simp) ?_
      rintro ⟨rejection, rfl⟩
      cases hfalse
  · constructor
    · intro hstate
      by_contra hlt
      have hstill := (hafter.closed (by omega)).1
      cases hstill.symm.trans hstate
    · exact fun hfull => (hafter.opened hfull).1

/-- Half a minute is a recovery timeout. -/
theorem halfMinute_pos : (0 : ℚ) < 30.0 := by decide +kernel

/-- Two failures are a threshold. -/
theorem twoStrikes_pos : 1 ≤ 2 := Nat.le_succ 1

/-- One success is a threshold, and one call can meet it. -/
theorem oneSuccess_le : 1 ≤ 1 := le_rfl

/-- A breaker that opens at the second failure in a row, for half a minute. -/
def twoStrikes : CircuitBreakerConfig where
  failureThreshold := 2
  recoveryTimeoutSeconds := 30.0
  halfOpenMaxCalls := 1
  successThreshold := 1
  failureThreshold_pos := twoStrikes_pos
  recoveryTimeoutSeconds_pos := halfMinute_pos
  successThreshold_pos := oneSuccess_le
  successThreshold_le := oneSuccess_le

/-- A service that is down: each call takes a second and raises. -/
def failAfterSecond (now : ℚ) (service : Unit) : Except PyException Unit × ℚ × Unit :=
  (.error (.printable .exception "ConnectionError" "refused"), now + 1, service)

/-- `time.sleep` that wakes on time. -/
def sleepExactly (delay : ℚ) (s : Guarded Unit) :
    Except (GuardedError PyException) Unit × Guarded Unit :=
  (.ok (), { s with clock := s.clock + delay })

/-- The powers of the policy of three attempts fit a float. -/
theorem threeAttempts_not_overflows :
    ∀ j < threeAttempts.maxRetries, ¬ threeAttempts.Overflows j := by
  decide +kernel

/-- Two waits of a second are shorter than half a minute. -/
theorem threeAttempts_patience :
    waitedBefore threeAttempts twoStrikes failAfterSecond sleepExactly (fun _ => 1)
      ⟨{ name := "backend" }, 0, ()⟩ threeAttempts.maxRetries <
        twoStrikes.recoveryTimeoutSeconds := by
  decide +kernel

/-- Three attempts on such a service behind such a breaker: the service sees two calls. -/
theorem retry_spares_service_threeAttempts :
    ∃ error after, execute threeAttempts (guardedCall twoStrikes failAfterSecond) sleepExactly
        (fun _ => 1) ⟨{ name := "backend" }, 0, ()⟩ = (.exhausted error, after) ∧
      error.attempts = 3 ∧
      after.breaker.totalCalls = 0 + min 3 2 ∧
      after.breaker.totalRejected = 0 + (3 - 2) ∧
      ((∃ rejection, error.lastError = some (.openCircuit rejection)) ↔ 2 < 3) ∧
      (after.breaker.state = .OPEN ↔ 2 ≤ 3) :=
  retry_spares_service (fun _ _ => ⟨_, rfl, rfl, .inr ⟨rfl, _, rfl⟩⟩)
    (fun _ _ hle _ => ⟨rfl, rfl, le_add_of_nonneg_right hle⟩)
    (fun _ => ⟨zero_le_one, le_rfl⟩) threeAttempts_patience threeAttempts_not_overflows
    (CircuitBreaker.new_valid "backend") rfl

end Run

end MeshRouter.Resilience
