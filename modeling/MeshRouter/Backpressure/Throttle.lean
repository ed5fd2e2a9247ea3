import MeshRouter.Lib.Fallible
import MeshRouter.Lib.Runs
import MeshRouter.Lib.TokenBucket

/-!
# The adaptive throttle

`AdaptiveThrottle` of `backpressure/throttle.py`. A call takes the reading of the monotonic clock
and the pressure score that its refill reads. The effective rate is between its minimum and the base
rate, and falls as the pressure grows, whatever the thresholds are (`effectiveRate_safe`), so a
throttle is a token bucket of the base rate, and `granted_le` bounds what it grants in any window of
time.
-/

namespace MeshRouter.Backpressure

open Lib

/-- `WARN_THRESHOLD`. -/
def warnThreshold : ℚ := 7 / 10

/-- `CRITICAL_THRESHOLD`. -/
def criticalThreshold : ℚ := 9 / 10

/-- The parameters of a throttle, with the bounds that `__init__` checks. The thresholds have none.
-/
structure ThrottleConfig where
  agentId : String
  baseRate : ℚ := 100
  bucketCapacity : ℚ := 200
  /-- Whether a monitor is attached. -/
  monitored : Bool := false
  minRateFraction : ℚ := 1 / 10
  warnThreshold : ℚ := Backpressure.warnThreshold
  criticalThreshold : ℚ := Backpressure.criticalThreshold
  baseRate_pos : 0 < baseRate
  bucketCapacity_pos : 0 < bucketCapacity
  minRateFraction_pos : 0 < minRateFraction
  minRateFraction_le : minRateFraction ≤ 1

/-- Token-bucket rate limiter that adapts to backpressure levels. -/
structure AdaptiveThrottle where
  tokens : ℚ
  lastRefill : ℚ
  totalAcquired : ℕ := 0
  totalRejected : ℕ := 0
deriving DecidableEq

namespace AdaptiveThrottle

/-- `__init__`: the bucket starts full. -/
def init (cfg : ThrottleConfig) (now : ℚ) : AdaptiveThrottle :=
  { tokens := cfg.bucketCapacity, lastRefill := now }

/-- `_compute_rate`. -/
def computeRate (cfg : ThrottleConfig) (pressure : ℚ) : ℚ :=
  if cfg.criticalThreshold ≤ pressure then
    cfg.baseRate * cfg.minRateFraction
  else if cfg.warnThreshold ≤ pressure then
    let rangeSize := cfg.criticalThreshold - cfg.warnThreshold
    let t := (pressure - cfg.warnThreshold) / rangeSize
    let fraction := 1 - t * (1 - cfg.minRateFraction)
    cfg.baseRate * fraction
  else
    cfg.baseRate

/-- `_compute_rate`, in which the division by the range fails for a range of zero. -/
def computeRate? (cfg : ThrottleConfig) (pressure : ℚ) : Option ℚ :=
  if cfg.criticalThreshold ≤ pressure then
    some (cfg.baseRate * cfg.minRateFraction)
  else if cfg.warnThreshold ≤ pressure then
    let rangeSize := cfg.criticalThreshold - cfg.warnThreshold
    (div? (pressure - cfg.warnThreshold) rangeSize).map fun t =>
      let fraction := 1 - t * (1 - cfg.minRateFraction)
      cfg.baseRate * fraction
  else
    some cfg.baseRate

/-- `effective_rate`, with the pressure score of the monitor. -/
def effectiveRate (cfg : ThrottleConfig) (pressureScore : ℚ) : Option ℚ :=
  if cfg.monitored then computeRate? cfg pressureScore else some cfg.baseRate

/-- `_refill`, with the reading of the clock and the pressure score of the monitor. -/
def refill (cfg : ThrottleConfig) (th : AdaptiveThrottle) (now pressureScore : ℚ) :
    AdaptiveThrottle :=
  let elapsed := now - th.lastRefill
  let pressure := if cfg.monitored then pressureScore else 0
  let rate := computeRate cfg pressure
  let newTokens := elapsed * rate
  { th with lastRefill := now, tokens := min cfg.bucketCapacity (th.tokens + newTokens) }

/-- `try_acquire`. -/
def tryAcquire (cfg : ThrottleConfig) (th : AdaptiveThrottle) (tokens now pressureScore : ℚ) :
    Bool × AdaptiveThrottle :=
  let th := th.refill cfg now pressureScore
  if tokens ≤ th.tokens then
    (true, { th with tokens := th.tokens - tokens, totalAcquired := th.totalAcquired + 1 })
  else
    (false, { th with totalRejected := th.totalRejected + 1 })

/-- `available_tokens`. -/
def availableTokens (cfg : ThrottleConfig) (th : AdaptiveThrottle) (now pressureScore : ℚ) :
    ℚ × AdaptiveThrottle :=
  let th := th.refill cfg now pressureScore
  (th.tokens, th)

end AdaptiveThrottle

/-- A call on a throttle, with the reading of the clock and the pressure score. -/
inductive ThrottleCall where
  | tryAcquire (tokens now pressureScore : ℚ)
  | availableTokens (now pressureScore : ℚ)
deriving DecidableEq

/-- A throttle, and the amounts that it granted with the times of the calls, the latest first. -/
structure ThrottleSystem where
  throttle : AdaptiveThrottle
  granted : List (ℚ × ℚ) := []
deriving DecidableEq

namespace ThrottleSystem

/-- A new throttle. -/
def init (cfg : ThrottleConfig) (now : ℚ) : ThrottleSystem := { throttle := .init cfg now }

/-- The state after a call whose amount is not negative, at a reading of the clock that is not
earlier than the last, with a pressure score from zero to one. -/
def step (cfg : ThrottleConfig) (s : ThrottleSystem) : ThrottleCall → Option ThrottleSystem
  | .tryAcquire tokens now pressureScore =>
    if 0 ≤ tokens ∧ s.throttle.lastRefill ≤ now ∧ 0 ≤ pressureScore ∧ pressureScore ≤ 1 then
      let (acquired, throttle) := s.throttle.tryAcquire cfg tokens now pressureScore
      some { throttle := throttle
             granted := if acquired then (now, tokens) :: s.granted else s.granted }
    else
      none
  | .availableTokens now pressureScore =>
    if s.throttle.lastRefill ≤ now ∧ 0 ≤ pressureScore ∧ pressureScore ≤ 1 then
      some { s with throttle := (s.throttle.availableTokens cfg now pressureScore).2 }
    else
      none

/-- The sum of the amounts granted from `t₁` to `t₂`. -/
def grantedWithin (s : ThrottleSystem) (t₁ t₂ : ℚ) : ℚ := TokenBucket.takenWithin s.granted t₁ t₂

/-- The bucket of a throttle. -/
def bucket (s : ThrottleSystem) : TokenBucket ℚ :=
  ⟨s.throttle.tokens, s.throttle.lastRefill, s.granted⟩

end ThrottleSystem

variable {cfg : ThrottleConfig}

namespace AdaptiveThrottle

/-- The divisor is positive where the division is reached. -/
theorem computeRate?_eq (cfg : ThrottleConfig) (pressure : ℚ) :
    computeRate? cfg pressure = some (computeRate cfg pressure) := by
  unfold computeRate? computeRate
  split_ifs with hcritical hwarn
  · rfl
  · have hrange : cfg.criticalThreshold - cfg.warnThreshold ≠ 0 := by linarith
    dsimp only
    rw [div?_of_ne hrange, Option.map_some]
  · rfl

/-- Between the thresholds, the rate is scaled down by a part of the way to the critical one. -/
theorem computeRate_between {pressure : ℚ} (hcritical : pressure < cfg.criticalThreshold)
    (hwarn : cfg.warnThreshold ≤ pressure) :
    ∃ t, 0 ≤ t ∧ t ≤ 1 ∧
      computeRate cfg pressure = cfg.baseRate * (1 - t * (1 - cfg.minRateFraction)) := by
  have hrange : 0 < cfg.criticalThreshold - cfg.warnThreshold := by linarith
  refine ⟨(pressure - cfg.warnThreshold) / (cfg.criticalThreshold - cfg.warnThreshold), ?_, ?_, ?_⟩
  · exact div_nonneg (by linarith) hrange.le
  · rw [div_le_one hrange]
    linarith
  · unfold computeRate
    rw [if_neg (not_le.mpr hcritical), if_pos hwarn]

/-- The rate is at most the base rate. -/
theorem computeRate_le (pressure : ℚ) : computeRate cfg pressure ≤ cfg.baseRate := by
  have hbase := cfg.baseRate_pos
  have hfraction := cfg.minRateFraction_le
  by_cases hcritical : cfg.criticalThreshold ≤ pressure
  · unfold computeRate
    rw [if_pos hcritical]
    exact mul_le_of_le_one_right hbase.le hfraction
  · by_cases hwarn : cfg.warnThreshold ≤ pressure
    · obtain ⟨t, ht, -, hrate⟩ := computeRate_between (not_le.mp hcritical) hwarn
      rw [hrate]
      have hscaled := mul_nonneg ht (sub_nonneg.mpr hfraction)
      exact mul_le_of_le_one_right hbase.le (by linarith)
    · unfold computeRate
      rw [if_neg hcritical, if_neg hwarn]

/-- The rate is at least its minimum. -/
theorem le_computeRate (pressure : ℚ) :
    cfg.baseRate * cfg.minRateFraction ≤ computeRate cfg pressure := by
  have hbase := cfg.baseRate_pos
  have hfraction := cfg.minRateFraction_le
  by_cases hcritical : cfg.criticalThreshold ≤ pressure
  · unfold computeRate
    rw [if_pos hcritical]
  · by_cases hwarn : cfg.warnThreshold ≤ pressure
    · obtain ⟨t, -, ht, hrate⟩ := computeRate_between (not_le.mp hcritical) hwarn
      rw [hrate]
      have hscaled := mul_le_of_le_one_left (sub_nonneg.mpr hfraction) ht
      exact mul_le_mul_of_nonneg_left (by linarith) hbase.le
    · unfold computeRate
      rw [if_neg hcritical, if_neg hwarn]
      exact mul_le_of_le_one_right hbase.le hfraction

/-- The rate is not negative. -/
theorem computeRate_nonneg (pressure : ℚ) : 0 ≤ computeRate cfg pressure :=
  (mul_pos cfg.baseRate_pos cfg.minRateFraction_pos).le.trans (le_computeRate pressure)

/-- The rate does not grow with the pressure. -/
theorem computeRate_antitone (cfg : ThrottleConfig) : Antitone (computeRate cfg) := by
  intro pressure pressure' hle
  by_cases hcritical' : cfg.criticalThreshold ≤ pressure'
  · have hmin : computeRate cfg pressure' = cfg.baseRate * cfg.minRateFraction := by
      rw [computeRate, if_pos hcritical']
    exact hmin.trans_le (le_computeRate pressure)
  · by_cases hwarn : cfg.warnThreshold ≤ pressure
    · -- Both pressures are between the thresholds, so the range is positive.
      have hrange : 0 ≤ cfg.criticalThreshold - cfg.warnThreshold := by linarith
      have ht := div_le_div_of_nonneg_right (sub_le_sub_right hle cfg.warnThreshold) hrange
      have hscaled := mul_le_mul_of_nonneg_right ht (sub_nonneg.mpr cfg.minRateFraction_le)
      have hcritical : ¬ cfg.criticalThreshold ≤ pressure := fun h => hcritical' (h.trans hle)
      rw [computeRate, if_neg hcritical', if_pos (hwarn.trans hle), computeRate, if_neg hcritical,
        if_pos hwarn]
      exact mul_le_mul_of_nonneg_left (by linarith) cfg.baseRate_pos.le
    · have hbase : computeRate cfg pressure = cfg.baseRate := by
        rw [computeRate, if_neg (fun h => hcritical' (h.trans hle)), if_neg hwarn]
      exact (computeRate_le pressure').trans_eq hbase.symm

/-- A rate that is computed for every pressure, is between its minimum and the base rate, and does
not grow with the pressure. -/
structure SafeRate (cfg : ThrottleConfig) (rate? : ℚ → Option ℚ) (rate : ℚ → ℚ) : Prop where
  computed : ∀ pressure, rate? pressure = some (rate pressure)
  lower : ∀ pressure, cfg.baseRate * cfg.minRateFraction ≤ rate pressure
  upper : ∀ pressure, rate pressure ≤ cfg.baseRate
  antitone : Antitone rate

/-- For any thresholds, the effective rate is computed without a division by zero for every
pressure, is between its minimum and the base rate, and does not grow with the pressure. So is the
rate of a refill, which is computed in the same way with or without a monitor. -/
theorem effectiveRate_safe (cfg : ThrottleConfig) :
    (∃ rate, SafeRate cfg (effectiveRate cfg) rate) ∧
      ∃ rate, SafeRate cfg (computeRate? cfg) rate := by
  have hcompute : SafeRate cfg (computeRate? cfg) (computeRate cfg) :=
    ⟨computeRate?_eq cfg, le_computeRate, computeRate_le, computeRate_antitone cfg⟩
  refine ⟨?_, _, hcompute⟩
  cases hmonitored : cfg.monitored with
  | true =>
    have heffective : effectiveRate cfg = computeRate? cfg := funext fun _ => if_pos hmonitored
    exact ⟨_, heffective ▸ hcompute⟩
  | false =>
    have heffective : effectiveRate cfg = fun _ => some cfg.baseRate :=
      funext fun _ => if_neg (by simp [hmonitored])
    rw [heffective]
    exact ⟨fun _ => cfg.baseRate, fun _ => rfl,
      fun _ => mul_le_of_le_one_right cfg.baseRate_pos.le cfg.minRateFraction_le,
      fun _ => le_rfl, antitone_const⟩

/-- What `try_acquire` does after its refill: it takes the tokens, or it is rejected and takes
none. -/
theorem tryAcquire_cases (cfg : ThrottleConfig) (th : AdaptiveThrottle)
    (tokens now pressureScore : ℚ) :
    let refilled := th.refill cfg now pressureScore
    tokens ≤ refilled.tokens ∧ th.tryAcquire cfg tokens now pressureScore =
        (true, { refilled with
          tokens := refilled.tokens - tokens
          totalAcquired := refilled.totalAcquired + 1 }) ∨
      th.tryAcquire cfg tokens now pressureScore =
        (false, { refilled with totalRejected := refilled.totalRejected + 1 }) := by
  dsimp only
  unfold tryAcquire
  dsimp only
  split_ifs with hle
  · exact Or.inl ⟨hle, rfl⟩
  · exact Or.inr rfl

end AdaptiveThrottle

namespace ThrottleSystem

variable {s t : ThrottleSystem} {as : List ThrottleCall} {now : ℚ}

/-- A refill is a refill of the bucket. -/
theorem refill_bounded
    (h : TokenBucket.Bounded cfg.bucketCapacity cfg.baseRate s.bucket)
    (hnow : s.throttle.lastRefill ≤ now) (pressureScore : ℚ) :
    TokenBucket.Bounded cfg.bucketCapacity cfg.baseRate
      (bucket { s with throttle := s.throttle.refill cfg now pressureScore }) := by
  set rate := AdaptiveThrottle.computeRate cfg (if cfg.monitored then pressureScore else 0)
  have hle : rate ≤ cfg.baseRate := AdaptiveThrottle.computeRate_le _
  have hnonneg : 0 ≤ rate := AdaptiveThrottle.computeRate_nonneg _
  have helapsed : 0 ≤ now - s.throttle.lastRefill := sub_nonneg.mpr hnow
  have hgain := mul_nonneg helapsed hnonneg
  have hgain_le := mul_le_mul_of_nonneg_left hle helapsed
  have htokens : 0 ≤ s.throttle.tokens := h.nonneg
  refine h.step cfg.baseRate_pos.le (.refill
    (min cfg.bucketCapacity (s.throttle.tokens + (now - s.throttle.lastRefill) * rate)) now hnow
    ?_ (min_le_left _ _) ?_)
  · exact le_min cfg.bucketCapacity_pos.le (by linarith)
  · refine (min_le_right _ _).trans ?_
    change s.throttle.tokens + (now - s.throttle.lastRefill) * rate ≤
      s.throttle.tokens + cfg.baseRate * (now - s.throttle.lastRefill)
    linarith

/-- A call keeps the bounds of the bucket. -/
theorem step_bounded (h : TokenBucket.Bounded cfg.bucketCapacity cfg.baseRate s.bucket)
    {a : ThrottleCall} (hst : s.step cfg a = some t) :
    TokenBucket.Bounded cfg.bucketCapacity cfg.baseRate t.bucket := by
  cases a with
  | tryAcquire tokens now pressureScore =>
    unfold step at hst
    dsimp only at hst
    split at hst
    case isFalse => cases hst
    rename_i hcall
    obtain rfl := Option.some.inj hst
    obtain ⟨htokens, hnow, -⟩ := hcall
    have hrefill := refill_bounded h hnow pressureScore
    rcases s.throttle.tryAcquire_cases cfg tokens now pressureScore with ⟨hle, heq⟩ | heq
    · rw [heq]
      exact hrefill.step cfg.baseRate_pos.le (.take tokens htokens hle)
    · rw [heq]
      exact hrefill
  | availableTokens now pressureScore =>
    unfold step at hst
    dsimp only at hst
    split_ifs at hst with hcall
    obtain rfl := Option.some.inj hst
    exact refill_bounded h hcall.1 pressureScore

/-- In every run, under any pressure: the tokens are from zero to the capacity, what is granted in a
window is at most a full bucket and what the base rate gives over the window, and a call that is
rejected consumes nothing. -/
theorem granted_le {cfg : ThrottleConfig} {start : ℚ} {as : List ThrottleCall} {s : ThrottleSystem}
    (h : run (step cfg) (.init cfg start) as = some s) :
    (0 ≤ s.throttle.tokens ∧ s.throttle.tokens ≤ cfg.bucketCapacity) ∧
    (∀ t₁ t₂, t₁ ≤ t₂ →
      s.grantedWithin t₁ t₂ ≤ cfg.bucketCapacity + cfg.baseRate * (t₂ - t₁)) ∧
    ∀ tokens now pressureScore,
      (s.throttle.tryAcquire cfg tokens now pressureScore).1 = false →
      (s.throttle.tryAcquire cfg tokens now pressureScore).2.tokens =
        (s.throttle.refill cfg now pressureScore).tokens := by
  have hbounded : TokenBucket.Bounded cfg.bucketCapacity cfg.baseRate s.bucket :=
    run_induction (I := fun s => TokenBucket.Bounded cfg.bucketCapacity cfg.baseRate s.bucket)
      (fun _ _ _ hI hst => step_bounded hI hst)
      (.full cfg.bucketCapacity_pos.le cfg.baseRate_pos.le start) h
  refine ⟨⟨hbounded.nonneg, hbounded.level_le⟩, hbounded.window,
    fun tokens now pressure hfalse => ?_⟩
  rcases s.throttle.tryAcquire_cases cfg tokens now pressure with ⟨-, heq⟩ | heq
  · rw [heq] at hfalse
    cases hfalse
  · rw [heq]

/-- The bounds of the parameters of `slowThrottle`. -/
theorem slowRate_pos : (0 : ℚ) < 1.0 := by decide +kernel

theorem slowCapacity_pos : (0 : ℚ) < 2.0 := by decide +kernel

theorem slowFraction_pos : (0 : ℚ) < 0.5 := by decide +kernel

theorem slowFraction_le : (0.5 : ℚ) ≤ 1 := by decide +kernel

/-- One token a second, and two in the bucket. -/
def slowThrottle : ThrottleConfig :=
  { agentId := "agent-a", baseRate := 1.0, bucketCapacity := 2.0, monitored := true,
    minRateFraction := 0.5, baseRate_pos := slowRate_pos, bucketCapacity_pos := slowCapacity_pos,
    minRateFraction_pos := slowFraction_pos, minRateFraction_le := slowFraction_le }

/-- The bucket is emptied, and a call under pressure is rejected. -/
def emptiedBucket : List ThrottleCall :=
  [.tryAcquire 2 0 0, .tryAcquire 1 1 1, .availableTokens 2 1, .tryAcquire 1 3 0]

/-- `granted_le` on a throttle that is emptied. -/
theorem granted_le_emptiedBucket :
    ∃ s, run (step slowThrottle) (.init slowThrottle 0) emptiedBucket = some s ∧
      s.grantedWithin 0 3 = 3 ∧ s.grantedWithin 0 3 ≤ 2 + 1 * (3 - 0) := by
  obtain ⟨s, hs, hgranted⟩ := Option.map_eq_some_iff.mp
    (show (run (step slowThrottle) (.init slowThrottle 0) emptiedBucket).map
      (fun s => s.grantedWithin 0 3) = some 3 by decide +kernel)
  have hbound := (granted_le hs).2.1 0 3 (by norm_num)
  norm_num [slowThrottle] at hbound
  exact ⟨s, hs, hgranted, by linarith⟩

end ThrottleSystem

end MeshRouter.Backpressure
