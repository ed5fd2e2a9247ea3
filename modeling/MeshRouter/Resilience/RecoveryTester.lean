import Mathlib.Data.NNRat.Defs
import MeshRouter.Resilience.CircuitBreaker

/-!
# The recovery tester

`RecoveryTester` of `resilience/recovery_tester.py`, and the calls of `CircuitBreaker.execute` that
it stands for: one after the other, from a breaker that has just entered `HALF_OPEN` until it leaves
it. The service is given by how each of its calls ends.

The loop of the tester and the breaker go through the same probes. After `k` successes both have
made `k` calls, the success count of the breaker is `k`, and its quota has room for the next call,
since the success threshold is within the quota (`probe_mirrors`).
-/

namespace MeshRouter.Resilience

/-- The checks of `RecoveryTester.__init__` that fail. -/
inductive TesterError where
  /-- "max_test_requests must be >= 1, got …." -/
  | maxTestRequests (got : ℤ)
  /-- "success_threshold must be >= 1, got …." -/
  | successThreshold (got : ℤ)
  /-- "success_threshold (…) must be <= max_test_requests (…)." -/
  | successAboveMaxRequests (successThreshold maxTestRequests : ℤ)
deriving DecidableEq

/-- A recovery tester, within the ranges that `__init__` accepts. -/
structure RecoveryTester where
  maxTestRequests : ℕ := 3
  successThreshold : ℕ := 2
  stopOnFirstFailure : Bool := true
  successThreshold_pos : 1 ≤ successThreshold
  successThreshold_le : successThreshold ≤ maxTestRequests

/-- Summary of a recovery test run, with what `__post_init__` checks: no more probes ended than were
made, and the clock did not go back. -/
structure RecoveryTestResult where
  totalAttempts : ℕ
  successes : ℕ
  failures : ℕ
  shouldClose : Bool
  latencyMs : NNRat
  counted : successes + failures ≤ totalAttempts

/-- `success_rate`. -/
def RecoveryTestResult.successRate (r : RecoveryTestResult) : ℚ :=
  if r.totalAttempts = 0 then 0 else r.successes / r.totalAttempts

/-- How far a test run has come: the calls of the service that it made, and how they ended. -/
structure TestProgress where
  calls : ℕ := 0
  successes : ℕ := 0
  failures : ℕ := 0
deriving DecidableEq

namespace RecoveryTester

/-- `__init__`: the checks in the source's order. -/
def init (maxTestRequests successThreshold : ℤ) (stopOnFirstFailure : Bool) :
    Except TesterError RecoveryTester :=
  if maxTestRequests < 1 then
    .error (.maxTestRequests maxTestRequests)
  else if hs : successThreshold < 1 then
    .error (.successThreshold successThreshold)
  else if hle : maxTestRequests < successThreshold then
    .error (.successAboveMaxRequests successThreshold maxTestRequests)
  else
    .ok {
      maxTestRequests := maxTestRequests.toNat
      successThreshold := successThreshold.toNat
      stopOnFirstFailure := stopOnFirstFailure
      successThreshold_pos := by omega
      successThreshold_le := by omega }

/-- The loop of `test_recovery`, for so many turns. The `n`-th call of the service ends as
`outcomes n`; a call that is interrupted ends the test run without a result. -/
def probe (tester : RecoveryTester) (outcomes : ℕ → CallOutcome) :
    ℕ → TestProgress → Option TestProgress
  | 0, p => some p
  | turns + 1, p =>
    match outcomes p.calls with
    | .returned =>
      let p := { p with calls := p.calls + 1, successes := p.successes + 1 }
      -- Threshold met, no need to continue probing.
      if tester.successThreshold ≤ p.successes then some p else probe tester outcomes turns p
    | .raised =>
      let p := { p with calls := p.calls + 1, failures := p.failures + 1 }
      if tester.stopOnFirstFailure then some p else probe tester outcomes turns p
    | .interrupted => none

/-- `test_recovery`: the result, and how many calls of the service were made for it. -/
def testRecovery (tester : RecoveryTester) (outcomes : ℕ → CallOutcome) (elapsedMs : NNRat) :
    Option (RecoveryTestResult × ℕ) :=
  (tester.probe outcomes tester.maxTestRequests {}).map fun p =>
    ({ totalAttempts := p.successes + p.failures
       successes := p.successes
       failures := p.failures
       shouldClose := decide (tester.successThreshold ≤ p.successes)
       latencyMs := elapsedMs
       counted := le_refl _ }, p.calls)

/-- The tester with the thresholds of a breaker, which stops on the first failure. -/
def ofBreaker (cfg : CircuitBreakerConfig) : RecoveryTester where
  maxTestRequests := cfg.halfOpenMaxCalls
  successThreshold := cfg.successThreshold
  stopOnFirstFailure := true
  successThreshold_pos := cfg.successThreshold_pos
  successThreshold_le := cfg.successThreshold_le

/-- The thresholds of a breaker are those of a tester. -/
theorem init_ofBreaker (cfg : CircuitBreakerConfig) :
    init cfg.halfOpenMaxCalls cfg.successThreshold true = .ok (ofBreaker cfg) := by
  have hs := cfg.successThreshold_pos
  have hle := cfg.successThreshold_le
  unfold init
  rw [if_neg (by omega), dif_neg (by omega), dif_neg (by omega)]
  simp [ofBreaker]

/-- One turn of the loop: the probe succeeds, and is the last if the threshold is met, or it fails,
and is the last if the tester stops on a failure. -/
theorem probe_succ_cases {tester : RecoveryTester} {outcomes : ℕ → CallOutcome} {turns : ℕ}
    {p p' : TestProgress} (h : tester.probe outcomes (turns + 1) p = some p') :
    (outcomes p.calls = .returned ∧
      (tester.successThreshold ≤ p.successes + 1 ∧
          p' = ⟨p.calls + 1, p.successes + 1, p.failures⟩ ∨
        p.successes + 1 < tester.successThreshold ∧
          tester.probe outcomes turns ⟨p.calls + 1, p.successes + 1, p.failures⟩ = some p')) ∨
    (outcomes p.calls = .raised ∧
      (tester.stopOnFirstFailure = true ∧ p' = ⟨p.calls + 1, p.successes, p.failures + 1⟩ ∨
        tester.stopOnFirstFailure = false ∧
          tester.probe outcomes turns ⟨p.calls + 1, p.successes, p.failures + 1⟩ = some p')) := by
  unfold probe at h
  cases houtcome : outcomes p.calls with
  | returned =>
    rw [houtcome] at h
    dsimp only at h
    split_ifs at h with hthreshold
    · exact .inl ⟨rfl, .inl ⟨hthreshold, (Option.some.inj h).symm⟩⟩
    · exact .inl ⟨rfl, .inr ⟨not_le.mp hthreshold, h⟩⟩
  | raised =>
    rw [houtcome] at h
    dsimp only at h
    split_ifs at h with hstop
    · exact .inr ⟨rfl, .inl ⟨hstop, (Option.some.inj h).symm⟩⟩
    · exact .inr ⟨rfl, .inr ⟨eq_false_of_ne_true hstop, h⟩⟩
  | interrupted =>
    rw [houtcome] at h
    cases h

/-- Every call of the service is counted as a success or as a failure. -/
theorem calls_of_probe {tester : RecoveryTester} {outcomes : ℕ → CallOutcome} {turns : ℕ}
    {p p' : TestProgress} (h : tester.probe outcomes turns p = some p')
    (hp : p.calls = p.successes + p.failures) : p'.calls = p'.successes + p'.failures := by
  induction turns generalizing p with
  | zero =>
    obtain rfl := Option.some.inj h
    exact hp
  | succ turns ih =>
    have hsuccess : p.calls + 1 = p.successes + 1 + p.failures := by omega
    have hfailure : p.calls + 1 = p.successes + (p.failures + 1) := by omega
    rcases probe_succ_cases h with ⟨-, ⟨-, rfl⟩ | ⟨-, hrest⟩⟩ | ⟨-, ⟨-, rfl⟩ | ⟨-, hrest⟩⟩
    · exact hsuccess
    · exact ih hrest hsuccess
    · exact hfailure
    · exact ih hrest hfailure

end RecoveryTester

namespace CircuitBreaker

/-- `execute`, admitted and ended at the given times, of a function that ends as `outcome`: the
breaker afterwards, and whether the function was called. -/
def execute (cfg : CircuitBreakerConfig) (cb : CircuitBreaker) (admitted ended : ℚ)
    (outcome : CallOutcome) : CircuitBreaker × Bool :=
  match cb.admitCall cfg admitted with
  | (cb, .ok ()) => (cb.settle cfg ended outcome, true)
  | (cb, .error _) => (cb, false)

/-- Calls of `execute` one after the other until the breaker is not half open, at most so many: how
often the function was called, and the breaker then. The `n`-th call of `execute` reads the clock as
`clock n`, and the `n`-th call of the function ends as `outcomes n`. -/
def executeUntilLeft (cfg : CircuitBreakerConfig) (outcomes : ℕ → CallOutcome)
    (clock : ℕ → ℚ × ℚ) : ℕ → ℕ → ℕ → CircuitBreaker → Option (ℕ × CircuitBreaker)
  | turns, n, called, cb =>
    if cb.state ≠ .HALF_OPEN then
      some (called, cb)
    else
      match turns with
      | 0 => none
      | turns + 1 =>
        let (cb, wasCalled) := cb.execute cfg (clock n).1 (clock n).2 (outcomes called)
        executeUntilLeft cfg outcomes clock turns (n + 1)
          (if wasCalled then called + 1 else called) cb

variable {cfg : CircuitBreakerConfig} {cb : CircuitBreaker}

/-- In `HALF_OPEN`, with room in the quota, a call is admitted and counted. -/
theorem execute_of_halfOpen (hstate : cb.state = .HALF_OPEN)
    (hroom : cb.halfOpenCallCount < cfg.halfOpenMaxCalls) (admitted ended : ℚ)
    (outcome : CallOutcome) :
    cb.execute cfg admitted ended outcome =
      (settle cfg ended outcome { cb with
        halfOpenCallCount := cb.halfOpenCallCount + 1
        totalCalls := cb.totalCalls + 1 }, true) := by
  have hnotDue : ¬ cb.RecoveryDue cfg admitted := fun hdue => by
    rw [hdue.1] at hstate
    cases hstate
  have hstays : cb.maybeTransitionToHalfOpen cfg admitted = cb := if_neg hnotDue
  unfold execute
  rcases admit_cases cb hstays with ⟨hclosed, -⟩ | ⟨-, -, heq⟩ | ⟨hopen | ⟨-, hfull⟩, -⟩
  · cases hstate.symm.trans hclosed
  · rw [heq]
  · cases hstate.symm.trans hopen
  · exact absurd hroom (not_lt.mpr hfull)

/-- A probe that fails opens the breaker. -/
theorem state_settle_raised (hstate : cb.state = .HALF_OPEN) (ended : ℚ) :
    (cb.settle cfg ended .raised).state = .OPEN := by
  rcases recordFailure_cases cfg ended cb with ⟨hclosed, -⟩ | ⟨hopen, -⟩ | ⟨-, heq⟩
  · cases hstate.symm.trans hclosed
  · cases hstate.symm.trans hopen
  · exact congrArg CircuitBreaker.state heq

/-- A probe that succeeds is counted, and closes the breaker at the success threshold. -/
theorem settle_returned_cases (cfg : CircuitBreakerConfig) (hstate : cb.state = .HALF_OPEN)
    (ended : ℚ) :
    cfg.successThreshold ≤ cb.successCount + 1 ∧
        (cb.settle cfg ended .returned).state = .CLOSED ∨
      cb.successCount + 1 < cfg.successThreshold ∧
        (cb.settle cfg ended .returned).state = .HALF_OPEN ∧
        (cb.settle cfg ended .returned).successCount = cb.successCount + 1 ∧
        (cb.settle cfg ended .returned).halfOpenCallCount = cb.halfOpenCallCount := by
  have hsettle : cb.settle cfg ended .returned = cb.recordSuccess cfg ended := rfl
  rw [hsettle]
  rcases recordSuccess_cases cfg ended cb with
    ⟨hclosed, -⟩ | ⟨hopen, -⟩ | ⟨-, hbelow, heq⟩ | ⟨-, hreached, heq⟩
  · cases hstate.symm.trans hclosed
  · cases hstate.symm.trans hopen
  · rw [heq]
    exact Or.inr ⟨hbelow, hstate, rfl, rfl⟩
  · rw [heq]
    exact Or.inl ⟨hreached, rfl⟩

/-- The calls stop when the breaker is not half open. -/
theorem executeUntilLeft_of_left {outcomes : ℕ → CallOutcome} {clock : ℕ → ℚ × ℚ}
    (hleft : cb.state ≠ .HALF_OPEN) (turns n called : ℕ) :
    executeUntilLeft cfg outcomes clock turns n called cb = some (called, cb) := by
  unfold executeUntilLeft
  rw [if_pos hleft]

/-- A call of a half open breaker, and the calls after it. -/
theorem executeUntilLeft_of_halfOpen {outcomes : ℕ → CallOutcome} {clock : ℕ → ℚ × ℚ}
    (hstate : cb.state = .HALF_OPEN) (hroom : cb.halfOpenCallCount < cfg.halfOpenMaxCalls)
    (turns n called : ℕ) :
    executeUntilLeft cfg outcomes clock (turns + 1) n called cb =
      executeUntilLeft cfg outcomes clock turns (n + 1) (called + 1)
        (settle cfg (clock n).2 (outcomes called) { cb with
          halfOpenCallCount := cb.halfOpenCallCount + 1
          totalCalls := cb.totalCalls + 1 }) := by
  rw [executeUntilLeft, if_neg (not_not.mpr hstate)]
  dsimp only
  rw [execute_of_halfOpen hstate hroom]
  rfl

end CircuitBreaker

section Mirror

variable {cfg : CircuitBreakerConfig} {outcomes : ℕ → CallOutcome} {clock : ℕ → ℚ × ℚ}

/-- After `k` successes, the tester with its remaining turns and the breaker go on to make the same
number of calls, and the tester has reached the threshold if the breaker ends closed, and not
reached it if the breaker ends open. -/
theorem probe_mirrors (clock : ℕ → ℚ × ℚ) (houtcomes : ∀ n, outcomes n ≠ .interrupted)
    {turns k : ℕ} (cb : CircuitBreaker) (hbelow : k < cfg.successThreshold)
    (hturns : turns + k = cfg.halfOpenMaxCalls) (hstate : cb.state = .HALF_OPEN)
    (hsuccesses : cb.successCount = k) (hcalls : cb.halfOpenCallCount = k) :
    ∃ p cb', (RecoveryTester.ofBreaker cfg).probe outcomes turns ⟨k, k, 0⟩ = some p ∧
      CircuitBreaker.executeUntilLeft cfg outcomes clock (turns + 1) k k cb = some (p.calls, cb') ∧
      (cfg.successThreshold ≤ p.successes ∧ cb'.state = .CLOSED ∨
        p.successes < cfg.successThreshold ∧ cb'.state = .OPEN) := by
  induction turns generalizing k cb with
  | zero =>
    have hle := cfg.successThreshold_le
    omega
  | succ turns ih =>
    have hroom : cb.halfOpenCallCount < cfg.halfOpenMaxCalls := by omega
    rw [CircuitBreaker.executeUntilLeft_of_halfOpen hstate hroom]
    -- The breaker in which the call has been admitted.
    set admitted : CircuitBreaker := { cb with
      halfOpenCallCount := cb.halfOpenCallCount + 1, totalCalls := cb.totalCalls + 1 }
    have hhalf : admitted.state = .HALF_OPEN := hstate
    unfold RecoveryTester.probe
    cases houtcome : outcomes k with
    | interrupted => exact absurd houtcome (houtcomes k)
    | raised =>
      have hopen : (CircuitBreaker.settle cfg (clock k).2 .raised admitted).state = .OPEN :=
        CircuitBreaker.state_settle_raised hhalf _
      rw [CircuitBreaker.executeUntilLeft_of_left (by rw [hopen]; decide)]
      exact ⟨_, _, rfl, rfl, Or.inr ⟨hbelow, hopen⟩⟩
    | returned =>
      rcases CircuitBreaker.settle_returned_cases cfg hhalf (clock k).2 with
        ⟨hreached, hclosed⟩ | ⟨hnext, hstill, hcount, hquota⟩
      · have hthreshold : cfg.successThreshold ≤ k + 1 := hsuccesses ▸ hreached
        rw [CircuitBreaker.executeUntilLeft_of_left (by rw [hclosed]; decide)]
        exact ⟨⟨k + 1, k + 1, 0⟩, _, if_pos hthreshold, rfl, Or.inl ⟨hthreshold, hclosed⟩⟩
      · have hthreshold : k + 1 < cfg.successThreshold := hsuccesses ▸ hnext
        have hcount' : (CircuitBreaker.settle cfg (clock k).2 .returned admitted).successCount =
            k + 1 := hcount.trans (congrArg (· + 1) hsuccesses)
        have hquota' : (CircuitBreaker.settle cfg (clock k).2 .returned
            admitted).halfOpenCallCount = k + 1 := hquota.trans (congrArg (· + 1) hcalls)
        obtain ⟨p, cb', hprobe, hcalls', hends⟩ :=
          ih _ hthreshold (by omega) hstill hcount' hquota'
        exact ⟨p, cb', (if_neg (not_le.mpr hthreshold)).trans hprobe, hcalls', hends⟩

/-- For every admitted configuration, every outcome of the probes that are not interrupted and every
clock: the tester with the breaker's thresholds ends, makes as many calls as the breaker makes from
a freshly entered `HALF_OPEN` until it leaves it, counts them as attempts, and recommends to close
exactly if the breaker ends closed; otherwise the breaker ends open. -/
theorem tester_mirrors_halfOpen (cfg : CircuitBreakerConfig) (cb : CircuitBreaker) (now : ℚ)
    (clock : ℕ → ℚ × ℚ) (elapsedMs : NNRat) {outcomes : ℕ → CallOutcome}
    (houtcomes : ∀ n, outcomes n ≠ .interrupted) :
    ∃ result calls cb',
      (RecoveryTester.ofBreaker cfg).testRecovery outcomes elapsedMs = some (result, calls) ∧
      result.totalAttempts = calls ∧
      CircuitBreaker.executeUntilLeft cfg outcomes clock (cfg.halfOpenMaxCalls + 1) 0 0
        (cb.transitionTo now .HALF_OPEN) = some (calls, cb') ∧
      (result.shouldClose = true ↔ cb'.state = .CLOSED) ∧
      (result.shouldClose = false ↔ cb'.state = .OPEN) := by
  obtain ⟨p, cb', hprobe, hcalls, hends⟩ := probe_mirrors clock houtcomes
    (cb.transitionTo now .HALF_OPEN) cfg.successThreshold_pos (add_zero _) rfl rfl rfl
  refine ⟨_, _, cb', Option.map_eq_some_iff.mpr ⟨p, hprobe, rfl⟩,
    (RecoveryTester.calls_of_probe hprobe rfl).symm, hcalls, ?_⟩
  rcases hends with ⟨hreached, hclosed⟩ | ⟨hbelow, hopen⟩
  · refine ⟨iff_of_true (decide_eq_true hreached) hclosed, iff_of_false (fun hnot => ?_) ?_⟩
    · exact of_decide_eq_false hnot hreached
    · rw [hclosed]
      decide
  · refine ⟨iff_of_false (fun hclose => ?_) ?_, iff_of_true ?_ hopen⟩
    · exact absurd (of_decide_eq_true hclose) (not_le.mpr hbelow)
    · rw [hopen]
      decide
    · exact decide_eq_false (not_le.mpr hbelow)

end Mirror

/-- Bounds of the configuration below. -/
theorem oneSecond_pos : (0 : ℚ) < 1 := one_pos

theorem two_le_three : 2 ≤ 3 := Nat.le_succ 2

/-- A breaker that closes after two successes, and may make three probe calls. -/
def threeProbes : CircuitBreakerConfig :=
  { failureThreshold := 1, recoveryTimeoutSeconds := 1, halfOpenMaxCalls := 3,
    successThreshold := 2, failureThreshold_pos := Nat.one_pos,
    recoveryTimeoutSeconds_pos := oneSecond_pos, successThreshold_pos := Nat.two_pos,
    successThreshold_le := two_le_three }

/-- A service that answers once and fails from then on. -/
def failsSecond (n : ℕ) : CallOutcome := if n = 0 then .returned else .raised

/-- `tester_mirrors_halfOpen` on a service that fails its second call. -/
theorem tester_mirrors_failsSecond :
    ∃ result calls cb', (RecoveryTester.ofBreaker threeProbes).testRecovery failsSecond 0 =
        some (result, calls) ∧
      calls = 2 ∧ result.shouldClose = false ∧ cb'.state = .OPEN ∧
      CircuitBreaker.executeUntilLeft threeProbes failsSecond (fun _ => (0, 0)) 4 0 0
        (CircuitBreaker.transitionTo 0 .HALF_OPEN {}) = some (calls, cb') := by
  have houtcomes : ∀ n, failsSecond n ≠ .interrupted := by
    intro n
    unfold failsSecond
    split_ifs <;> decide
  obtain ⟨result, calls, cb', htest, -, hcalls, -, hopen⟩ :=
    tester_mirrors_halfOpen threeProbes {} 0 (fun _ => (0, 0)) 0 houtcomes
  have hvalues : ((RecoveryTester.ofBreaker threeProbes).testRecovery failsSecond 0).map
      (fun r => (r.2, r.1.shouldClose)) = some (2, false) := by decide +kernel
  rw [htest] at hvalues
  obtain ⟨htwo, hshould⟩ := Prod.mk.inj (Option.some.inj hvalues)
  exact ⟨result, calls, cb', htest, htwo, hshould, hopen.mp hshould, hcalls⟩

end MeshRouter.Resilience
