import MeshRouter.Exceptions
import MeshRouter.Resilience.LoadBalancer

/-!
# The health checker

`HealthChecker` of `resilience/health_check.py`. A check runs a probe against an endpoint and
resolves a status from how the probe ended, the two counters of the endpoint, and the last status
that was recorded for it. How a probe ends and how long it takes are inputs of a check. An exception
of the probe is turned into a text before anything is counted, so that a check raises, and leaves
the checker as it was, when that fails or when the exception is no `Exception`.

The checker keeps its books in dictionaries by the name of the endpoint. `track` is what they say
about one endpoint, and `check_of_some` says what a check does to it: the status and the counters of
the other endpoints do not matter.
-/

namespace MeshRouter.Resilience

open Lib

/-- Possible health statuses returned by a health check probe. -/
inductive HealthStatus where
  | HEALTHY
  | UNHEALTHY
  | DEGRADED
  | UNKNOWN
deriving DecidableEq

/-- Immutable configuration for a `HealthChecker`, within the ranges that `__post_init__`
accepts. -/
structure HealthCheckConfig where
  intervalSeconds : ℚ
  timeoutSeconds : ℚ
  healthyThreshold : ℕ
  unhealthyThreshold : ℕ
  maxHistory : ℕ := 100
  intervalSeconds_pos : 0 < intervalSeconds
  timeoutSeconds_pos : 0 < timeoutSeconds
  healthyThreshold_pos : 1 ≤ healthyThreshold
  unhealthyThreshold_pos : 1 ≤ unhealthyThreshold
  maxHistory_pos : 1 ≤ maxHistory

/-- The details of a failed probe. -/
inductive ProbeError where
  /-- The type and the text of the exception. -/
  | raised (errorType errorMessage : String)
  /-- "TimeoutError": "Probe exceeded timeout of … ms (took … ms)." -/
  | timeout (limitMs tookMs : ℚ)
deriving DecidableEq

/-- Result of a single health check probe. -/
structure HealthCheckResult where
  endpointName : String
  status : HealthStatus
  latencyMs : ℚ
  checkedAt : ℚ
  details : Option ProbeError
deriving DecidableEq

/-- How a probe runs: the exception that it raises, if it does, how long it takes, and when its
result is made. -/
structure ProbeRun where
  raised : Option PyException := none
  elapsedMs : ℚ := 0
  checkedAt : ℚ := 0
deriving DecidableEq

/-- Execute health check probes and maintain per-endpoint history. -/
structure HealthChecker where
  history : Dict String (List HealthCheckResult) := .empty
  consecutiveSuccesses : Dict String ℕ := .empty
  consecutiveFailures : Dict String ℕ := .empty
deriving DecidableEq

/-- What the books of a checker say about one endpoint. -/
structure Track where
  status : HealthStatus := .UNKNOWN
  successes : ℕ := 0
  failures : ℕ := 0
deriving DecidableEq

namespace HealthChecker

variable (cfg : HealthCheckConfig)

/-- `_last_status`: the status of the last result, or unknown. -/
def lastStatus (checker : HealthChecker) (name : String) : HealthStatus :=
  match checker.history.get? name with
  | none => .UNKNOWN
  | some results =>
    match results.getLast? with
    | none => .UNKNOWN
    | some result => result.status

/-- The status that `_compute_status` resolves from the last one and the counters. -/
def resolveStatus (lastStatus : HealthStatus) (success : Bool)
    (consecSuccesses consecFailures : ℕ) : HealthStatus :=
  match lastStatus with
  -- The first probe result determines the initial status.
  | .UNKNOWN => if success then .HEALTHY else .UNHEALTHY
  | .HEALTHY | .DEGRADED =>
    if !success && cfg.unhealthyThreshold ≤ consecFailures then .UNHEALTHY
    -- Partial failures before the threshold.
    else if !success then .DEGRADED
    else .HEALTHY
  | .UNHEALTHY =>
    if success && cfg.healthyThreshold ≤ consecSuccesses then .HEALTHY
    -- Recovery in progress but threshold not yet met.
    else if success then .DEGRADED
    else .UNHEALTHY

/-- The counters that `_compute_status` updates. -/
def count (checker : HealthChecker) (name : String) (success : Bool) : HealthChecker :=
  if success then
    { checker with
      consecutiveSuccesses :=
        checker.consecutiveSuccesses.set name (checker.consecutiveSuccesses.getD name 0 + 1)
      consecutiveFailures := checker.consecutiveFailures.set name 0 }
  else
    { checker with
      consecutiveFailures :=
        checker.consecutiveFailures.set name (checker.consecutiveFailures.getD name 0 + 1)
      consecutiveSuccesses := checker.consecutiveSuccesses.set name 0 }

/-- `_compute_status`. -/
def computeStatus (checker : HealthChecker) (name : String) (success : Bool) :
    HealthStatus × HealthChecker :=
  let checker := checker.count name success
  (resolveStatus cfg (checker.lastStatus name) success (checker.consecutiveSuccesses.getD name 0)
    (checker.consecutiveFailures.getD name 0), checker)

/-- `_record`: the oldest results are dropped beyond `max_history`. -/
def record (checker : HealthChecker) (name : String) (result : HealthCheckResult) : HealthChecker :=
  let results := checker.history.getD name [] ++ [result]
  let kept := results.drop (results.length - cfg.maxHistory)
  { checker with history := checker.history.set name kept }

/-- Why a probe counts as failed, if it does: it raised, or it took too long. What it raises may
leave `check` before it is counted. -/
def probeError (run : ProbeRun) : Except PyException (Option ProbeError) :=
  match run.raised with
  | some exc =>
    match exc.caughtText with
    | .ok errorMessage => .ok (some (.raised exc.typeName errorMessage))
    | .error escaped => .error escaped
  | none =>
    if cfg.timeoutSeconds * 1000 < run.elapsedMs then
      .ok (some (.timeout (cfg.timeoutSeconds * 1000) run.elapsedMs))
    else
      .ok none

/-- `check`. What leaves it from the probe has changed nothing. -/
def check (checker : HealthChecker) (endpoint : ServiceEndpoint Binary64) (run : ProbeRun) :
    Except PyException (HealthCheckResult × HealthChecker) :=
  match probeError cfg run with
  | .error escaped => .error escaped
  | .ok details =>
    let (status, checker) := checker.computeStatus cfg endpoint.name details.isNone
    let result : HealthCheckResult :=
      { endpointName := endpoint.name
        status := status
        latencyMs := run.elapsedMs
        checkedAt := run.checkedAt
        details := details }
    .ok (result, checker.record cfg endpoint.name result)

/-- Whether the probe succeeded, if `check` counts it. -/
def outcome (run : ProbeRun) : Option Bool :=
  match probeError cfg run with
  | .error _ => none
  | .ok details => some details.isNone

/-- `clear_history`, of one endpoint or of all. -/
def clearHistory (checker : HealthChecker) (endpointName : Option String) : HealthChecker :=
  match endpointName with
  | some name =>
    { history := checker.history.erase name
      consecutiveSuccesses := checker.consecutiveSuccesses.erase name
      consecutiveFailures := checker.consecutiveFailures.erase name }
  | none => {}

/-- What the books say about an endpoint. -/
def track (checker : HealthChecker) (name : String) : Track :=
  { status := checker.lastStatus name
    successes := checker.consecutiveSuccesses.getD name 0
    failures := checker.consecutiveFailures.getD name 0 }

end HealthChecker

/-- What a probe makes of the track of its endpoint. -/
def Track.probed (cfg : HealthCheckConfig) (track : Track) (success : Bool) : Track :=
  let successes := if success then track.successes + 1 else 0
  let failures := if success then 0 else track.failures + 1
  { status := HealthChecker.resolveStatus cfg track.status success successes failures
    successes := successes
    failures := failures }

/-- What a check makes of the track of its endpoint: nothing, if it does not count the probe. -/
def Track.checked (cfg : HealthCheckConfig) (track : Track) : Option Bool → Track
  | some success => track.probed cfg success
  | none => track

namespace HealthChecker

variable {cfg : HealthCheckConfig}

/-- The counters of the probed endpoint are updated, and its last status is not. -/
theorem track_count (checker : HealthChecker) (name j : String) (success : Bool) :
    (checker.count name success).track j =
      if j = name then
        { status := checker.lastStatus j
          successes := if success then (checker.track j).successes + 1 else 0
          failures := if success then 0 else (checker.track j).failures + 1 }
      else
        checker.track j := by
  unfold count track
  cases success with
  | false =>
    simp only [Bool.false_eq_true, if_false, Dict.getD_set]
    by_cases hj : j = name
    · subst hj
      simp only [if_true]
      rfl
    · simp only [if_neg hj]
      rfl
  | true =>
    simp only [if_true, Dict.getD_set]
    by_cases hj : j = name
    · subst hj
      simp only [if_true]
      rfl
    · simp only [if_neg hj]
      rfl

/-- The recorded result is the last one: at least one result is kept. -/
theorem track_record (checker : HealthChecker) (name j : String) (result : HealthCheckResult) :
    (checker.record cfg name result).track j =
      if j = name then { checker.track j with status := result.status } else checker.track j := by
  have hlast : ∀ results : List HealthCheckResult,
      ((results ++ [result]).drop ((results ++ [result]).length - cfg.maxHistory)).getLast? =
        some result := by
    intro results
    have hmax := cfg.maxHistory_pos
    have hlength : (results ++ [result]).length = results.length + 1 := List.length_append
    rw [List.getLast?_drop, if_neg (by omega), List.getLast?_concat]
  unfold record track lastStatus
  dsimp only
  rw [Dict.get?_set]
  split_ifs with hj
  · dsimp only
    rw [hlast]
  · rfl

/-- The status that is resolved is the one that the probe makes of the track. -/
theorem computeStatus_eq (checker : HealthChecker) (name : String) (success : Bool) :
    checker.computeStatus cfg name success =
      (((checker.track name).probed cfg success).status, checker.count name success) := by
  have hcounted := track_count checker name name success
  rw [if_pos rfl] at hcounted
  have hstatus : (checker.count name success).lastStatus name = (checker.track name).status :=
    congrArg Track.status hcounted
  have hsuccesses : (checker.count name success).consecutiveSuccesses.getD name 0 =
      if success then (checker.track name).successes + 1 else 0 := congrArg Track.successes hcounted
  have hfailures : (checker.count name success).consecutiveFailures.getD name 0 =
      if success then 0 else (checker.track name).failures + 1 := congrArg Track.failures hcounted
  unfold computeStatus
  dsimp only
  rw [hstatus, hsuccesses, hfailures]
  rfl

/-- A check raises if the probe is not counted. -/
theorem check_of_none (checker : HealthChecker) (endpoint : ServiceEndpoint Binary64)
    {run : ProbeRun} (h : outcome cfg run = none) :
    ∃ escaped, checker.check cfg endpoint run = .error escaped := by
  unfold outcome at h
  unfold check
  cases hprobe : probeError cfg run with
  | error escaped => exact ⟨escaped, rfl⟩
  | ok details =>
    rw [hprobe] at h
    cases h

/-- A check that counts the probe returns the status that the probe makes of the track of the
endpoint, and tracks it. The other endpoints keep their tracks. -/
theorem check_of_some (checker : HealthChecker) (endpoint : ServiceEndpoint Binary64)
    {run : ProbeRun} {success : Bool} (h : outcome cfg run = some success) :
    ∃ details checker', details.isNone = success ∧
      checker.check cfg endpoint run = .ok ({
        endpointName := endpoint.name
        status := ((checker.track endpoint.name).probed cfg success).status
        latencyMs := run.elapsedMs
        checkedAt := run.checkedAt
        details := details }, checker') ∧
      ∀ j, checker'.track j =
        if j = endpoint.name then (checker.track j).probed cfg success else checker.track j := by
  unfold outcome at h
  cases hprobe : probeError cfg run with
  | error escaped =>
    rw [hprobe] at h
    cases h
  | ok details =>
    rw [hprobe] at h
    obtain rfl := Option.some.inj h
    unfold check
    rw [hprobe]
    dsimp only
    rw [computeStatus_eq]
    refine ⟨details, _, rfl, rfl, fun j => ?_⟩
    rw [track_record, track_count]
    by_cases hj : j = endpoint.name
    · subst hj
      rw [if_pos rfl, if_pos rfl, if_pos rfl]
      rfl
    · rw [if_neg hj, if_neg hj, if_neg hj]

end HealthChecker

end MeshRouter.Resilience
