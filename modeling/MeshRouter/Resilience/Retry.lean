import Mathlib.Algebra.Order.GroupWithZero.Basic
import Mathlib.Algebra.Order.Ring.Rat
import MeshRouter.Builtins
import MeshRouter.Exceptions

/-!
# Retries

`RetryPolicy` of `resilience/retry.py`. `execute` and `execute_async` are one definition: what is
called and how long is slept are the same, and what other tasks do in between is part of `sleep`.
The function that is retried works on a state, and so does `sleep`, which may raise in its turn: a
task is cancelled while it sleeps, and a delay can be too long for the clock. What `random.uniform`
draws is a fraction of the delay for each attempt.

`before` is the state before each attempt, and `settled` says at which attempt the loop ends, and
how. `execute_settles` is the specification of the loop, from which everything else is read. The
power of `exponential_base` may not fit a float, which raises in the handler of the attempt's own
exception, so that a policy with enough retries ends in an `OverflowError` instead of a
`RetryExhaustedError` (`execute_exact`). Nor does it end in one if the last exception does not say
whether it is true, or what its text is.
-/

namespace MeshRouter.Resilience

/-- The checks of `RetryConfig.__post_init__` that fail, with the values that each names. -/
inductive RetryConfigError where
  /-- "max_retries must be >= 0, got …." -/
  | maxRetries (got : ℤ)
  /-- "base_delay_seconds must be >= 0, got …." -/
  | baseDelaySeconds (got : ℚ)
  /-- "max_delay_seconds (…) must be >= base_delay_seconds (…)." -/
  | maxDelaySeconds (got baseDelaySeconds : ℚ)
  /-- "exponential_base must be >= 1.0, got …." -/
  | exponentialBase (got : ℚ)
deriving DecidableEq

/-- Immutable configuration for a `RetryPolicy`, within the ranges that `__post_init__` accepts. -/
structure RetryConfig where
  maxRetries : ℕ
  baseDelaySeconds : ℚ
  maxDelaySeconds : ℚ
  exponentialBase : ℚ := 2.0
  jitter : Bool := true
  baseDelaySeconds_nonneg : 0 ≤ baseDelaySeconds
  baseDelaySeconds_le : baseDelaySeconds ≤ maxDelaySeconds
  one_le_exponentialBase : 1 ≤ exponentialBase

namespace RetryConfig

/-- `__post_init__`. -/
def postInit (maxRetries : ℤ) (baseDelaySeconds maxDelaySeconds exponentialBase : ℚ)
    (jitter : Bool) : Except RetryConfigError RetryConfig :=
  if maxRetries < 0 then
    .error (.maxRetries maxRetries)
  else if hbase : baseDelaySeconds < 0 then
    .error (.baseDelaySeconds baseDelaySeconds)
  else if hmax : maxDelaySeconds < baseDelaySeconds then
    .error (.maxDelaySeconds maxDelaySeconds baseDelaySeconds)
  else if hexp : exponentialBase < 1 then
    .error (.exponentialBase exponentialBase)
  else
    .ok {
      maxRetries := maxRetries.toNat
      baseDelaySeconds := baseDelaySeconds
      maxDelaySeconds := maxDelaySeconds
      exponentialBase := exponentialBase
      jitter := jitter
      baseDelaySeconds_nonneg := not_lt.mp hbase
      baseDelaySeconds_le := not_lt.mp hmax
      one_le_exponentialBase := not_lt.mp hexp }

/-- Whether `exponential_base ** attempt` raises an `OverflowError`. -/
def Overflows (cfg : RetryConfig) (attempt : ℕ) : Prop :=
  (floatLimit : ℚ) ≤ cfg.exponentialBase ^ attempt

instance (cfg : RetryConfig) (attempt : ℕ) : Decidable (cfg.Overflows attempt) :=
  inferInstanceAs (Decidable (_ ≤ _))

/-- `_compute_delay`, with the fraction that `random.uniform` draws; `none` is the `OverflowError`.
-/
def computeDelay (cfg : RetryConfig) (fraction : ℚ) (attempt : ℕ) : Option ℚ :=
  if cfg.Overflows attempt then
    none
  else
    let raw := min (cfg.baseDelaySeconds * cfg.exponentialBase ^ attempt) cfg.maxDelaySeconds
    some (if cfg.jitter then fraction * raw else raw)

end RetryConfig

/-- What the policy asks of an exception. -/
class Catchable (ε : Type) where
  /-- Whether `except Exception` catches it. -/
  isException : ε → Bool
  /-- `type(exc).__name__`. -/
  typeName : ε → String
  /-- `bool(exc)`, or what that raises. -/
  truth : ε → Except ε Bool
  /-- `str(exc)`, or what that raises. -/
  text : ε → Except ε String

/-- An exception is true, if its class does not say anything else. -/
instance : Catchable PyException where
  isException exc := decide exc.IsException
  typeName := PyException.typeName
  truth _ := .ok true
  text := PyException.str

/-- An exception can be reported: it is false, so that it is not looked at, or it has a text. -/
def Reportable {ε : Type} [Catchable ε] (error : ε) : Prop :=
  Catchable.truth error = .ok false ∨
    Catchable.truth error = .ok true ∧ ∃ text, Catchable.text error = .ok text

/-- Raised when all retry attempts are exhausted. -/
structure RetryExhaustedError (ε : Type) where
  attempts : ℕ
  /-- None is `RuntimeError("Unknown error")`. -/
  lastError : Option ε
  message : String
deriving DecidableEq

/-- How `execute` ends. -/
inductive RetryEnd (ρ ε : Type) where
  | returned (value : ρ)
  | exhausted (error : RetryExhaustedError ε)
  /-- What the last exception raises when it is reported. -/
  | unreported (error : ε)
  /-- What the function raised, which is no `Exception`. -/
  | interrupted (error : ε)
  /-- The `OverflowError` of `_compute_delay`. -/
  | overflow
  /-- What a sleep raised. -/
  | woken (error : ε)
deriving DecidableEq

namespace RetryPolicy

section Execute

variable {σ ρ ε : Type} [Catchable ε] (cfg : RetryConfig) (fn : σ → Except ε ρ × σ)
  (sleep : ℚ → σ → Except ε Unit × σ) (random : ℕ → ℚ)

/-- The message of `RetryExhaustedError.__init__`. -/
def allFailed (attempts : ℕ) (typeName text : String) : String :=
  "All " ++ toString attempts ++ " attempt(s) failed. Last error: " ++ typeName ++ ": " ++ text

/-- The `RetryExhaustedError` that is raised for `last_exc or RuntimeError("Unknown error")`. -/
def exhaust (attempts : ℕ) (lastExc : ε) : RetryEnd ρ ε :=
  match Catchable.truth lastExc with
  | .error raised => .unreported raised
  | .ok false => .exhausted {
      attempts := attempts
      lastError := none
      message := allFailed attempts "RuntimeError" "Unknown error" }
  | .ok true =>
    match Catchable.text lastExc with
    | .error raised => .unreported raised
    | .ok text => .exhausted {
        attempts := attempts
        lastError := some lastExc
        message := allFailed attempts (Catchable.typeName lastExc) text }

/-- The loop of `execute`, with `left` attempts after this one. -/
def executeLoop : ℕ → ℕ → σ → RetryEnd ρ ε × σ
  | left, attempt, s =>
    match fn s with
    | (.ok value, s) => (.returned value, s)
    | (.error exc, s) =>
      if Catchable.isException exc then
        match left with
        | 0 => (exhaust (cfg.maxRetries + 1) exc, s)
        | left + 1 =>
          match cfg.computeDelay (random attempt) attempt with
          -- It is raised in the handler, and nothing catches it. So is what the sleep raises.
          | none => (.overflow, s)
          | some delay =>
            match sleep delay s with
            | (.error raised, s) => (.woken raised, s)
            | (.ok (), s) => executeLoop left (attempt + 1) s
      else
        (.interrupted exc, s)

/-- `execute`. -/
def execute (s : σ) : RetryEnd ρ ε × σ := executeLoop cfg fn sleep random cfg.maxRetries 0 s

/-- The sleep after an attempt, if there is one. -/
def rest (attempt : ℕ) (s : σ) : Except ε Unit × σ :=
  sleep ((cfg.computeDelay (random attempt) attempt).getD 0) s

/-- The state before an attempt, as long as the attempts before it have failed. -/
def before (s : σ) : ℕ → σ
  | 0 => s
  | k + 1 => (rest cfg sleep random k (fn (before s k)).2).2

/-- How the loop ends at an attempt or in the sleep after it, if it does. -/
def settled (attempt : ℕ) (called : Except ε ρ) (slept : Except ε Unit) : Option (RetryEnd ρ ε) :=
  match called with
  | .ok value => some (.returned value)
  | .error exc =>
    if ¬ Catchable.isException exc then some (.interrupted exc)
    else if attempt = cfg.maxRetries then some (exhaust (attempt + 1) exc)
    else if cfg.Overflows attempt then some .overflow
    else
      match slept with
      | .error raised => some (.woken raised)
      | .ok () => none

/-- `settled`, at an attempt of the loop. -/
def settledAt (s : σ) (k : ℕ) : Option (RetryEnd ρ ε) :=
  settled cfg k (fn (before cfg fn sleep random s k)).1
    (rest cfg sleep random k (fn (before cfg fn sleep random s k)).2).1

/-- The state in which the loop ends at an attempt: that after the sleep, if it ends there. -/
def stateAt (s : σ) (k : ℕ) : RetryEnd ρ ε → σ
  | .woken _ => (rest cfg sleep random k (fn (before cfg fn sleep random s k)).2).2
  | _ => (fn (before cfg fn sleep random s k)).2

/-- An attempt fails: the function raises an `Exception`. -/
def Fails (s : σ) (k : ℕ) : Prop :=
  ∃ exc, (fn (before cfg fn sleep random s k)).1 = .error exc ∧ Catchable.isException exc = true

/-- The sleep after an attempt ends by itself. -/
def Wakes (s : σ) (k : ℕ) : Prop :=
  (rest cfg sleep random k (fn (before cfg fn sleep random s k)).2).1 = .ok ()

end Execute

end RetryPolicy

/-! ## Delays -/

namespace RetryConfig

variable {cfg : RetryConfig} {fraction : ℚ} {attempt later : ℕ} {delay : ℚ}

/-- The power grows with the attempt. -/
theorem pow_le_pow (cfg : RetryConfig) (h : attempt ≤ later) :
    cfg.exponentialBase ^ attempt ≤ cfg.exponentialBase ^ later :=
  pow_le_pow_right₀ cfg.one_le_exponentialBase h

/-- The delay before jitter is within its bounds. -/
theorem raw_bounds (cfg : RetryConfig) (attempt : ℕ) :
    0 ≤ min (cfg.baseDelaySeconds * cfg.exponentialBase ^ attempt) cfg.maxDelaySeconds ∧
      min (cfg.baseDelaySeconds * cfg.exponentialBase ^ attempt) cfg.maxDelaySeconds ≤
        cfg.maxDelaySeconds := by
  have hpow : 0 ≤ cfg.exponentialBase ^ attempt :=
    pow_nonneg (zero_le_one.trans cfg.one_le_exponentialBase) attempt
  have hmax : 0 ≤ cfg.maxDelaySeconds := cfg.baseDelaySeconds_nonneg.trans cfg.baseDelaySeconds_le
  exact ⟨le_min (mul_nonneg cfg.baseDelaySeconds_nonneg hpow) hmax, min_le_right _ _⟩

/-- Every delay is between zero and the maximum. -/
theorem computeDelay_bounds (h : cfg.computeDelay fraction attempt = some delay)
    (hfraction : 0 ≤ fraction ∧ fraction ≤ 1) : 0 ≤ delay ∧ delay ≤ cfg.maxDelaySeconds := by
  obtain ⟨hnonneg, hle⟩ := cfg.raw_bounds attempt
  unfold computeDelay at h
  split_ifs at h
  · obtain rfl := Option.some.inj h
    exact ⟨mul_nonneg hfraction.1 hnonneg, (mul_le_of_le_one_left hnonneg hfraction.2).trans hle⟩
  · obtain rfl := Option.some.inj h
    exact ⟨hnonneg, hle⟩

/-- Without jitter the delays do not decrease. -/
theorem computeDelay_mono (hjitter : cfg.jitter = false) {fraction' delay' : ℚ}
    (h : cfg.computeDelay fraction attempt = some delay)
    (h' : cfg.computeDelay fraction' later = some delay') (hle : attempt ≤ later) :
    delay ≤ delay' := by
  unfold computeDelay at h h'
  simp only [hjitter, Bool.false_eq_true, if_false] at h h'
  split_ifs at h h' with hover hover'
  · obtain rfl := Option.some.inj h
    obtain rfl := Option.some.inj h'
    have hmul := mul_le_mul_of_nonneg_left (cfg.pow_le_pow hle) cfg.baseDelaySeconds_nonneg
    exact min_le_min_right _ hmul

/-- A delay can be computed exactly if the power does not overflow. -/
theorem computeDelay_eq_none_iff :
    cfg.computeDelay fraction attempt = none ↔ cfg.Overflows attempt := by
  unfold computeDelay
  split_ifs with hover
  · exact iff_of_true rfl hover
  · exact iff_of_false (by simp) hover

end RetryConfig

/-! ## The loop -/

namespace RetryPolicy

section Loop

variable {σ ρ ε : Type} [Catchable ε] (cfg : RetryConfig) (fn : σ → Except ε ρ × σ)
  (sleep : ℚ → σ → Except ε Unit × σ) (random : ℕ → ℚ)

/-- A report is made exactly of what can be reported, with the number of attempts. -/
theorem exhaust_cases (attempts : ℕ) (exc : ε) :
    Reportable exc ∧ (∃ error : RetryExhaustedError ε,
      (exhaust attempts exc : RetryEnd ρ ε) = .exhausted error ∧ error.attempts = attempts ∧
        (error.lastError = some exc ∨
          error.lastError = none ∧ Catchable.truth exc = .ok false)) ∨
    ¬ Reportable exc ∧ ∃ raised, (exhaust attempts exc : RetryEnd ρ ε) = .unreported raised := by
  unfold exhaust Reportable
  cases htruth : Catchable.truth exc with
  | error raised => exact .inr ⟨by simp, raised, rfl⟩
  | ok truth =>
    cases truth with
    | false => exact .inl ⟨.inl rfl, _, rfl, rfl, .inr ⟨rfl, rfl⟩⟩
    | true =>
      cases htext : Catchable.text exc with
      | error raised => exact .inr ⟨by simp, raised, rfl⟩
      | ok text => exact .inl ⟨.inr ⟨rfl, text, rfl⟩, _, rfl, rfl, .inl rfl⟩

/-- A report is made of what can be reported. -/
theorem exhausted_of_reportable (attempts : ℕ) {exc : ε} (h : Reportable exc) :
    ∃ error : RetryExhaustedError ε,
      (exhaust attempts exc : RetryEnd ρ ε) = .exhausted error ∧ error.attempts = attempts ∧
        (error.lastError = some exc ∨
          error.lastError = none ∧ Catchable.truth exc = .ok false) := by
  rcases exhaust_cases (ρ := ρ) attempts exc with ⟨-, herror⟩ | ⟨hnot, -⟩
  · exact herror
  · exact absurd h hnot

/-- An attempt that settles the loop ends it, and any other is followed by the next attempt. -/
theorem executeLoop_eq (left attempt : ℕ) (hleft : left + attempt = cfg.maxRetries) (s : σ) :
    (∃ result, settled cfg attempt (fn s).1 (rest cfg sleep random attempt (fn s).2).1 =
        some result ∧
      executeLoop cfg fn sleep random left attempt s = (result,
        match result with
        | .woken _ => (rest cfg sleep random attempt (fn s).2).2
        | _ => (fn s).2)) ∨
    settled cfg attempt (fn s).1 (rest cfg sleep random attempt (fn s).2).1 = none ∧
      ∃ left', left = left' + 1 ∧
        executeLoop cfg fn sleep random left attempt s =
          executeLoop cfg fn sleep random left' (attempt + 1)
            (rest cfg sleep random attempt (fn s).2).2 := by
  rw [executeLoop.eq_def]
  dsimp only
  generalize fn s = call
  obtain ⟨called, s'⟩ := call
  cases called with
  | ok value => exact Or.inl ⟨_, rfl, rfl⟩
  | error exc =>
    unfold settled
    dsimp only
    cases hexc : Catchable.isException exc with
    | false =>
      rw [if_pos Bool.false_ne_true]
      exact Or.inl ⟨_, rfl, rfl⟩
    | true =>
      rw [if_neg (not_not.mpr rfl), if_pos rfl]
      cases left with
      | zero =>
        obtain rfl : attempt = cfg.maxRetries := by omega
        rw [if_pos rfl]
        refine Or.inl ⟨_, rfl, ?_⟩
        rcases exhaust_cases (cfg.maxRetries + 1) exc with
          ⟨-, error, heq, -⟩ | ⟨-, raised, heq⟩
        · rw [heq]
        · rw [heq]
      | succ left' =>
        rw [if_neg (by omega)]
        cases hdelay : cfg.computeDelay (random attempt) attempt with
        | none =>
          rw [if_pos (RetryConfig.computeDelay_eq_none_iff.mp hdelay)]
          exact Or.inl ⟨_, rfl, rfl⟩
        | some delay =>
          have hover : ¬ cfg.Overflows attempt := fun hover => by
            rw [RetryConfig.computeDelay_eq_none_iff.mpr hover] at hdelay
            cases hdelay
          have hrest : rest cfg sleep random attempt s' = sleep delay s' := by
            unfold rest
            rw [hdelay]
            rfl
          rw [if_neg hover, hrest]
          dsimp only
          generalize sleep delay s' = slept
          obtain ⟨woke, s''⟩ := slept
          cases woke with
          | error raised => exact Or.inl ⟨_, rfl, rfl⟩
          | ok => exact Or.inr ⟨rfl, left', rfl, rfl⟩

/-- The loop ends at the first attempt that settles it. -/
theorem executeLoop_settles (s : σ) (left attempt : ℕ) (hleft : left + attempt = cfg.maxRetries) :
    ∃ k, attempt ≤ k ∧ k ≤ cfg.maxRetries ∧
      (∀ j, attempt ≤ j → j < k → settledAt cfg fn sleep random s j = none) ∧
      ∃ result, settledAt cfg fn sleep random s k = some result ∧
        executeLoop cfg fn sleep random left attempt (before cfg fn sleep random s attempt) =
          (result, stateAt cfg fn sleep random s k result) := by
  -- Induction on the attempts that are left.
  induction left generalizing attempt with
  | zero =>
    rcases executeLoop_eq cfg fn sleep random 0 attempt hleft (before cfg fn sleep random s attempt)
      with ⟨result, hsettled, heq⟩ | ⟨-, left', hleft', -⟩
    · exact ⟨attempt, le_rfl, by omega, fun j hj hj' => (by omega), result, hsettled, heq⟩
    · cases hleft'
  | succ left ih =>
    rcases executeLoop_eq cfg fn sleep random (left + 1) attempt hleft
      (before cfg fn sleep random s attempt) with
      ⟨result, hsettled, heq⟩ | ⟨hnone, left', hleft', heq⟩
    · exact ⟨attempt, le_rfl, by omega, fun j hj hj' => (by omega), result, hsettled, heq⟩
    · obtain rfl := Nat.succ.inj hleft'
      obtain ⟨k, hle, hmax, hearlier, hsettled⟩ := ih (attempt + 1) (by omega)
      rw [heq]
      refine ⟨k, by omega, hmax, fun j hj hjk => ?_, hsettled⟩
      rcases Nat.eq_or_lt_of_le hj with rfl | hlt
      · exact hnone
      · exact hearlier j hlt hjk

/-- `execute` calls the function until the first attempt that settles the loop, the last one
allowed at the latest, and ends as that attempt says. -/
theorem execute_settles (s : σ) :
    ∃ k ≤ cfg.maxRetries,
      (∀ j < k, settledAt cfg fn sleep random s j = none) ∧
      settledAt cfg fn sleep random s k = some (execute cfg fn sleep random s).1 ∧
      (execute cfg fn sleep random s).2 =
        stateAt cfg fn sleep random s k (execute cfg fn sleep random s).1 := by
  obtain ⟨k, -, hmax, hearlier, result, hsettled, hstate⟩ :=
    executeLoop_settles cfg fn sleep random s cfg.maxRetries 0 (Nat.add_zero _)
  have hexecute : execute cfg fn sleep random s =
      (result, stateAt cfg fn sleep random s k result) := hstate
  rw [hexecute]
  exact ⟨k, hmax, fun j hj => hearlier j (Nat.zero_le j) hj, hsettled, rfl⟩

variable {cfg} {fn} {sleep} {random} {s : σ} {k : ℕ}

/-- What an attempt that fails says. -/
theorem settledAt_of_fails {exc : ε} (hexc : Catchable.isException exc = true)
    (hcalled : (fn (before cfg fn sleep random s k)).1 = .error exc) :
    settledAt cfg fn sleep random s k =
      if k = cfg.maxRetries then some (exhaust (k + 1) exc)
      else if cfg.Overflows k then some .overflow
      else
        match (rest cfg sleep random k (fn (before cfg fn sleep random s k)).2).1 with
        | .error raised => some (.woken raised)
        | .ok () => none := by
  unfold settledAt settled
  rw [hcalled]
  dsimp only
  rw [if_neg (not_not.mpr hexc)]

/-- An attempt that does not fail ends the loop as it ended itself. -/
theorem settledAt_of_not_fails (h : ¬ Fails cfg fn sleep random s k) :
    (∃ value, settledAt cfg fn sleep random s k = some (.returned value)) ∨
      ∃ exc, settledAt cfg fn sleep random s k = some (.interrupted exc) := by
  unfold settledAt settled
  cases hcalled : (fn (before cfg fn sleep random s k)).1 with
  | ok value => exact .inl ⟨value, rfl⟩
  | error exc =>
    have hnot : ¬ Catchable.isException exc := fun hexc => h ⟨exc, hcalled, hexc⟩
    exact .inr ⟨exc, if_pos hnot⟩

/-- An attempt that does not settle the loop failed, was not the last, and is followed by a sleep
that wakes. -/
theorem settledAt_eq_none_iff :
    settledAt cfg fn sleep random s k = none ↔
      Fails cfg fn sleep random s k ∧ k ≠ cfg.maxRetries ∧ ¬ cfg.Overflows k ∧
        Wakes cfg fn sleep random s k := by
  by_cases hfails : Fails cfg fn sleep random s k
  · obtain ⟨exc, hcalled, hexc⟩ := hfails
    rw [and_iff_right ⟨exc, hcalled, hexc⟩, settledAt_of_fails hexc hcalled]
    unfold Wakes
    split_ifs with hlast hover
    · exact iff_of_false nofun fun h => h.1 hlast
    · exact iff_of_false nofun fun h => h.2.1 hover
    · cases (rest cfg sleep random k (fn (before cfg fn sleep random s k)).2).1 with
      | error raised => exact iff_of_false nofun fun h => nomatch h.2.2
      | ok => exact iff_of_true rfl ⟨hlast, hover, rfl⟩
  · refine iff_of_false (fun hnone => ?_) fun h => hfails h.1
    rcases settledAt_of_not_fails hfails with ⟨value, hsettled⟩ | ⟨exc, hsettled⟩
    · rw [hsettled] at hnone
      cases hnone
    · rw [hsettled] at hnone
      cases hnone

/-- What settles the loop with a failed attempt. -/
theorem fails_of_settledAt {result : RetryEnd ρ ε}
    (h : settledAt cfg fn sleep random s k = some result)
    (hreturned : ∀ value, result ≠ .returned value)
    (hinterrupted : ∀ exc, result ≠ .interrupted exc) :
    Fails cfg fn sleep random s k := by
  by_contra hnot
  rcases settledAt_of_not_fails hnot with ⟨value, hsettled⟩ | ⟨exc, hsettled⟩
  · exact hreturned value (Option.some.inj (h.symm.trans hsettled))
  · exact hinterrupted exc (Option.some.inj (h.symm.trans hsettled))

/-- The loop is exhausted exactly by a failure of the last attempt that can be reported. -/
theorem settledAt_exhausted_iff :
    (∃ error, settledAt cfg fn sleep random s k = some (.exhausted error)) ↔
      k = cfg.maxRetries ∧ ∃ exc, (fn (before cfg fn sleep random s k)).1 = .error exc ∧
        Catchable.isException exc = true ∧ Reportable exc := by
  constructor
  · rintro ⟨error, hsettled⟩
    obtain ⟨exc, hcalled, hexc⟩ := fails_of_settledAt hsettled nofun nofun
    rw [settledAt_of_fails hexc hcalled] at hsettled
    split_ifs at hsettled with hlast hover
    · refine ⟨hlast, exc, hcalled, hexc, ?_⟩
      rcases exhaust_cases (k + 1) exc with ⟨hreport, -⟩ | ⟨-, raised, heq⟩
      · exact hreport
      · rw [heq] at hsettled
        cases hsettled
    · cases hsettled
    · split at hsettled
      · cases hsettled
      · cases hsettled
  · rintro ⟨hlast, exc, hcalled, hexc, hreport⟩
    rw [settledAt_of_fails hexc hcalled, if_pos hlast]
    rcases exhaust_cases (k + 1) exc with ⟨-, error, heq, -⟩ | ⟨hnot, -⟩
    · exact ⟨error, congrArg some heq⟩
    · exact absurd hreport hnot

/-- The loop ends in an `OverflowError` exactly after a failure that was not the last attempt, of
which the delay overflows. -/
theorem settledAt_overflow_iff :
    settledAt cfg fn sleep random s k = some .overflow ↔
      Fails cfg fn sleep random s k ∧ k ≠ cfg.maxRetries ∧ cfg.Overflows k := by
  constructor
  · intro hsettled
    obtain ⟨exc, hcalled, hexc⟩ := fails_of_settledAt hsettled nofun nofun
    rw [settledAt_of_fails hexc hcalled] at hsettled
    split_ifs at hsettled with hlast hover
    · rcases exhaust_cases (k + 1) exc with ⟨-, error, heq, -⟩ | ⟨-, raised, heq⟩
      · rw [heq] at hsettled
        cases hsettled
      · rw [heq] at hsettled
        cases hsettled
    · exact ⟨⟨exc, hcalled, hexc⟩, hlast, hover⟩
    · split at hsettled
      · cases hsettled
      · cases hsettled
  · rintro ⟨⟨exc, hcalled, hexc⟩, hlast, hover⟩
    rw [settledAt_of_fails hexc hcalled, if_neg hlast, if_pos hover]

/-- `execute` ends with a result at an attempt exactly if the attempt settles the loop so and none
before settles it. -/
theorem execute_eq_of_settledAt {result : RetryEnd ρ ε}
    (hearlier : ∀ j < k, settledAt cfg fn sleep random s j = none)
    (hsettled : settledAt cfg fn sleep random s k = some result) :
    execute cfg fn sleep random s = (result, stateAt cfg fn sleep random s k result) := by
  obtain ⟨i, hi, hbefore, hend, hstate⟩ := execute_settles cfg fn sleep random s
  have hik : i = k := by
    rcases Nat.lt_trichotomy i k with hlt | heq | hlt
    · rw [hearlier i hlt] at hend
      cases hend
    · exact heq
    · rw [hbefore k hlt] at hsettled
      cases hsettled
  rw [hik] at hend hstate
  obtain rfl := Option.some.inj (hend.symm.trans hsettled)
  exact Prod.ext rfl hstate

/-- For every function and every sleep, with whatever they do to the state: the function is called
in the attempts 0 to `k`, at most `max_retries + 1` times, and `execute` ends as its last call, or
the sleep after it, says. Each call before the last failed, and is followed by one sleep of at most
`max_delay_seconds`, which wakes; without jitter the sleeps never get shorter. `RetryExhaustedError`
is raised exactly if all `max_retries + 1` calls fail, no power of the base before the last
overflows a float, every sleep wakes, and the last exception can be reported. At the first power
that overflows, after calls that have all failed and sleeps that wake, `execute` raises an
`OverflowError` instead, with attempts left. -/
theorem execute_exact (cfg : RetryConfig) (fn : σ → Except ε ρ × σ)
    (sleep : ℚ → σ → Except ε Unit × σ) {random : ℕ → ℚ}
    (hrandom : ∀ k, 0 ≤ random k ∧ random k ≤ 1) (s : σ) :
    (∃ k ≤ cfg.maxRetries,
      (∀ j < k, Fails cfg fn sleep random s j ∧ Wakes cfg fn sleep random s j ∧
        ∃ delay, cfg.computeDelay (random j) j = some delay ∧
          0 ≤ delay ∧ delay ≤ cfg.maxDelaySeconds ∧
          (cfg.jitter = false → ∀ i ≤ j, ∀ earlier,
            cfg.computeDelay (random i) i = some earlier → earlier ≤ delay)) ∧
      settledAt cfg fn sleep random s k = some (execute cfg fn sleep random s).1 ∧
      (execute cfg fn sleep random s).2 =
        stateAt cfg fn sleep random s k (execute cfg fn sleep random s).1) ∧
    ((∃ error, (execute cfg fn sleep random s).1 = .exhausted error) ↔
      (∀ j < cfg.maxRetries, Fails cfg fn sleep random s j ∧ ¬ cfg.Overflows j ∧
        Wakes cfg fn sleep random s j) ∧
      ∃ exc, (fn (before cfg fn sleep random s cfg.maxRetries)).1 = .error exc ∧
        Catchable.isException exc = true ∧ Reportable exc) ∧
    ((execute cfg fn sleep random s).1 = .overflow ↔
      ∃ k < cfg.maxRetries, cfg.Overflows k ∧ Fails cfg fn sleep random s k ∧
        ∀ j < k, ¬ cfg.Overflows j ∧ Fails cfg fn sleep random s j ∧
          Wakes cfg fn sleep random s j) := by
  obtain ⟨k, hmax, hearlier, hsettled, hstate⟩ := execute_settles cfg fn sleep random s
  have hunsettled : ∀ j < k, Fails cfg fn sleep random s j ∧ j ≠ cfg.maxRetries ∧
      ¬ cfg.Overflows j ∧ Wakes cfg fn sleep random s j :=
    fun j hj => settledAt_eq_none_iff.mp (hearlier j hj)
  refine ⟨⟨k, hmax, fun j hj => ?_, hsettled, hstate⟩, ?_, ?_⟩
  · obtain ⟨hfails, -, hover, hwakes⟩ := hunsettled j hj
    refine ⟨hfails, hwakes, ?_⟩
    obtain ⟨delay, hdelay⟩ := Option.ne_none_iff_exists'.mp
      (fun hnone => hover (RetryConfig.computeDelay_eq_none_iff.mp hnone))
    obtain ⟨hnonneg, hle⟩ := RetryConfig.computeDelay_bounds hdelay (hrandom j)
    exact ⟨delay, hdelay, hnonneg, hle, fun hjitter i hi earlier hi' =>
      RetryConfig.computeDelay_mono hjitter hi' hdelay hi⟩
  · constructor
    · rintro ⟨error, hend⟩
      rw [hend] at hsettled
      obtain ⟨rfl, hlast⟩ := settledAt_exhausted_iff.mp ⟨error, hsettled⟩
      exact ⟨fun j hj => ⟨(hunsettled j hj).1, (hunsettled j hj).2.2⟩, hlast⟩
    · rintro ⟨hall, hlast⟩
      obtain ⟨error, hend⟩ := settledAt_exhausted_iff.mpr ⟨rfl, hlast⟩
      have hnone : ∀ j < cfg.maxRetries, settledAt cfg fn sleep random s j = none := fun j hj =>
        settledAt_eq_none_iff.mpr ⟨(hall j hj).1, hj.ne, (hall j hj).2⟩
      exact ⟨error, congrArg Prod.fst (execute_eq_of_settledAt hnone hend)⟩
  · constructor
    · intro hend
      rw [hend] at hsettled
      obtain ⟨hfails, hne, hover⟩ := settledAt_overflow_iff.mp hsettled
      refine ⟨k, lt_of_le_of_ne hmax hne, hover, hfails, fun j hj => ?_⟩
      obtain ⟨hfails, -, hover, hwakes⟩ := hunsettled j hj
      exact ⟨hover, hfails, hwakes⟩
    · rintro ⟨i, hi, hover, hfails, hall⟩
      have hend := settledAt_overflow_iff.mpr ⟨hfails, hi.ne, hover⟩
      have hnone : ∀ j < i, settledAt cfg fn sleep random s j = none := fun j hj => by
        obtain ⟨hover, hfails, hwakes⟩ := hall j hj
        exact settledAt_eq_none_iff.mpr ⟨hfails, by omega, hover, hwakes⟩
      exact congrArg Prod.fst (execute_eq_of_settledAt hnone hend)

/-- The default base is in its range. -/
theorem one_le_defaultBase : (1 : ℚ) ≤ 2.0 := by decide +kernel

/-- A second is a delay. -/
theorem second_nonneg : (0 : ℚ) ≤ 1 := zero_le_one

/-- A second is a longest delay for it. -/
theorem second_le : (1 : ℚ) ≤ 1 := le_rfl

/-- A policy of three attempts, at most a second apart. -/
def threeAttempts : RetryConfig where
  maxRetries := 2
  baseDelaySeconds := 1
  maxDelaySeconds := 1
  baseDelaySeconds_nonneg := second_nonneg
  baseDelaySeconds_le := second_le
  one_le_exponentialBase := one_le_defaultBase

/-- A function that fails while its counter is positive. -/
def countDown (left : ℕ) : Except PyException Unit × ℕ :=
  if left = 0 then (.ok (), left)
  else (.error (.printable .exception "ConnectionError" "refused"), left - 1)

/-- A sleep that wakes. -/
def sleepSoundly (_ : ℚ) (left : ℕ) : Except PyException Unit × ℕ := (.ok (), left)

/-- Two failures, and then a call that returns. -/
theorem execute_exact_threeAttempts :
    (∃ k ≤ threeAttempts.maxRetries,
      (∀ j < k, Fails threeAttempts countDown sleepSoundly (fun _ => 1) 2 j ∧
        Wakes threeAttempts countDown sleepSoundly (fun _ => 1) 2 j ∧
        ∃ delay, threeAttempts.computeDelay 1 j = some delay ∧
          0 ≤ delay ∧ delay ≤ threeAttempts.maxDelaySeconds ∧
          (threeAttempts.jitter = false → ∀ i ≤ j, ∀ earlier,
            threeAttempts.computeDelay 1 i = some earlier → earlier ≤ delay)) ∧
      settledAt threeAttempts countDown sleepSoundly (fun _ => 1) 2 k =
        some (execute threeAttempts countDown sleepSoundly (fun _ => 1) 2).1 ∧
      (execute threeAttempts countDown sleepSoundly (fun _ => 1) 2).2 =
        stateAt threeAttempts countDown sleepSoundly (fun _ => 1) 2 k
          (execute threeAttempts countDown sleepSoundly (fun _ => 1) 2).1) ∧
    (execute threeAttempts countDown sleepSoundly (fun _ => 1) 2).1 = .returned () :=
  ⟨(execute_exact threeAttempts countDown sleepSoundly (fun _ => ⟨zero_le_one, le_rfl⟩) 2).1,
    by decide +kernel⟩

end Loop

end RetryPolicy

end MeshRouter.Resilience
