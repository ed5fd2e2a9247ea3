import MeshRouter.Lib.History
import MeshRouter.Lib.Runs
import MeshRouter.Resilience.HealthCheck

/-!
# Recovery of an endpoint

`healthy_threshold` is documented as the number of consecutive successful probes that it takes to go
from `UNHEALTHY` to `HEALTHY`. `RecoveryEarned` states that for the probes of one endpoint. A probe
whose exception leaves `check` is a probe too: it has not succeeded, and it yields no status.

The checker gives the status `DEGRADED` to two kinds of endpoints: one that fails and has not
reached the other threshold, and one that recovers and has not reached this one. A success makes
either `HEALTHY`, so an endpoint recovers by its second success in a row at the latest, whatever the
threshold (`earnedSince_concat_iff`). A probe that the checker does not count interrupts no row of
successes that it counts. `recoveryEarned_iff` says in which runs the threshold is met all the same,
and `recoveryEarned_always_iff` for which configurations it is met in every run.
-/

namespace MeshRouter.Resilience

open Lib

/-- A probe of an endpoint, and the status that the check gave, unless it raised. -/
structure Probe where
  endpointName : String
  succeeded : Bool
  status : Option HealthStatus
deriving DecidableEq

/-- An endpoint became unhealthy by this probe, or stayed it. -/
def Probe.Unhealthy (x : Probe) : Prop := x.status = some .UNHEALTHY

/-- Whenever a probe yields `HEALTHY` after one was unhealthy, the last `threshold` probes up to it
all succeeded, and all came after that one. -/
def RecoveryEarned (threshold : ℕ) (log : List Probe) : Prop :=
  ∀ before x mid y rest, log = before ++ x :: (mid ++ y :: rest) → x.Unhealthy →
    y.status = some .HEALTHY → EndsWith Probe.succeeded threshold (mid ++ [y])

/-- `RecoveryEarned` as long as nothing is `off`: after an unhealthy probe `x`, and with no `off`
probe in between, a probe `y` yields `HEALTHY` only if the last `threshold` probes up to it all
succeeded, and all came after `x`. -/
def EarnedSince (off : Probe → Prop) (threshold : ℕ) (log : List Probe) : Prop :=
  ∀ before x mid y rest, log = before ++ x :: (mid ++ y :: rest) → x.Unhealthy →
    (∀ z ∈ mid, ¬ off z) → y.status = some .HEALTHY →
      EndsWith Probe.succeeded threshold (mid ++ [y])

/-- A success of an endpoint that is healthy or degraded while it recovers meets the threshold: the
threshold is one, or the probe before succeeded too, and the endpoint is healthy already or the
threshold is two. -/
def Deserved (cfg : HealthCheckConfig) (track : Track) (log : List Probe) (outcome : Option Bool)
    (recovering : Prop) : Prop :=
  outcome = some true → track.status = .HEALTHY ∨ track.status = .DEGRADED → recovering →
    cfg.healthyThreshold = 1 ∨
      0 < streak Probe.succeeded log ∧ (track.status = .HEALTHY ∨ cfg.healthyThreshold = 2)

/-- The probe that a check logs: one that is not counted has not succeeded. -/
def Track.logged (cfg : HealthCheckConfig) (track : Track) (name : String)
    (outcome : Option Bool) : Probe where
  endpointName := name
  succeeded := outcome.getD false
  status := outcome.map fun success => (track.probed cfg success).status

/-- The track of an endpoint sums up its probes. -/
structure SumsUp (track : Track) (log : List Probe) : Prop where
  known : track.status = .UNKNOWN → ∀ x ∈ log, ¬ x.Unhealthy
  failed : ∀ x ∈ log, x.Unhealthy → x.succeeded = false
  /-- A success is counted, so that the status that it yields is the one on the books. -/
  counted : 0 < streak Probe.succeeded log →
    ∃ before x, log = before ++ [x] ∧ x.status = some track.status
  /-- An unhealthy endpoint has not succeeded last. -/
  unhealthy : track.status = .UNHEALTHY → track.successes = 0 ∧ streak Probe.succeeded log = 0
  /-- A degraded endpoint has not succeeded last, or succeeded once. -/
  degraded : track.status = .DEGRADED → streak Probe.succeeded log ≤ 1

variable {cfg : HealthCheckConfig} {track : Track} {log : List Probe} {off : Probe → Prop}
  {name : String}

/-- A success makes an endpoint healthy, unless it is unhealthy and below the threshold. -/
theorem status_probed_true (cfg : HealthCheckConfig) (track : Track) :
    (track.probed cfg true).status =
      if track.status = .UNHEALTHY ∧ track.successes + 1 < cfg.healthyThreshold then .DEGRADED
      else .HEALTHY := by
  have hstatus : (track.probed cfg true).status =
      HealthChecker.resolveStatus cfg track.status true (track.successes + 1) 0 := rfl
  rw [hstatus]
  cases track.status with
  | UNHEALTHY =>
    rcases le_or_gt cfg.healthyThreshold (track.successes + 1) with hreached | hbelow
    · simp [HealthChecker.resolveStatus, hreached, not_lt.mpr hreached]
    · simp [HealthChecker.resolveStatus, hbelow, not_le.mpr hbelow]
  | HEALTHY => rfl
  | DEGRADED => rfl
  | UNKNOWN => rfl

/-- A failure makes an endpoint unhealthy, or degraded if it was not unhealthy and is below the
threshold. -/
theorem status_probed_false (cfg : HealthCheckConfig) (track : Track) :
    (track.probed cfg false).status =
      if track.status = .UNKNOWN ∨ track.status = .UNHEALTHY ∨
          cfg.unhealthyThreshold ≤ track.failures + 1 then
        .UNHEALTHY
      else
        .DEGRADED := by
  have hstatus : (track.probed cfg false).status =
      HealthChecker.resolveStatus cfg track.status false 0 (track.failures + 1) := rfl
  rw [hstatus]
  cases track.status with
  | UNKNOWN => simp [HealthChecker.resolveStatus]
  | UNHEALTHY => simp [HealthChecker.resolveStatus]
  | HEALTHY | DEGRADED => simp [HealthChecker.resolveStatus]

/-- A probe leaves no endpoint unknown. -/
theorem status_probed_ne (cfg : HealthCheckConfig) (track : Track) (success : Bool) :
    (track.probed cfg success).status ≠ .UNKNOWN := by
  intro hunknown
  cases success with
  | false =>
    rw [status_probed_false] at hunknown
    split_ifs at hunknown
  | true =>
    rw [status_probed_true] at hunknown
    split_ifs at hunknown

/-- The track of no probes. -/
theorem sumsUp_nil : SumsUp {} [] where
  known := by simp
  failed := by simp
  counted := fun hpos => absurd hpos (Nat.lt_irrefl 0)
  unhealthy := by simp
  degraded := by simp

namespace SumsUp

/-- Another probe that is not counted. -/
theorem concat_none (h : SumsUp track log) (name : String) :
    SumsUp track (log ++ [track.logged cfg name none]) := by
  have hstreak : streak Probe.succeeded (log ++ [track.logged cfg name none]) = 0 :=
    streak_concat _ _ _
  have hnot : ¬ (track.logged cfg name none).Unhealthy := fun hunhealthy => nomatch hunhealthy
  refine ⟨fun hunknown x hx => ?_, fun x hx hunhealthy => ?_, fun hpos => ?_, fun hstatus => ?_,
    fun _ => ?_⟩
  · rcases List.mem_append.mp hx with hx | hx
    · exact h.known hunknown x hx
    · rwa [List.mem_singleton.mp hx]
  · rcases List.mem_append.mp hx with hx | hx
    · exact h.failed x hx hunhealthy
    · rw [List.mem_singleton.mp hx]
      rfl
  · omega
  · exact ⟨(h.unhealthy hstatus).1, hstreak⟩
  · omega

/-- Another probe that is counted. -/
theorem concat_some (h : SumsUp track log) (name : String) (success : Bool) :
    SumsUp (track.probed cfg success) (log ++ [track.logged cfg name (some success)]) where
  known := fun hunknown => absurd hunknown (status_probed_ne cfg track success)
  failed := by
    intro x hx hunhealthy
    rcases List.mem_append.mp hx with hx | hx
    · exact h.failed x hx hunhealthy
    · rw [List.mem_singleton.mp hx] at hunhealthy ⊢
      cases success with
      | false => rfl
      | true =>
        have hstatus : (track.probed cfg true).status = .UNHEALTHY := Option.some.inj hunhealthy
        rw [status_probed_true] at hstatus
        split_ifs at hstatus
  counted := fun _ => ⟨log, _, rfl, rfl⟩
  unhealthy := by
    intro hstatus
    cases success with
    | false => exact ⟨rfl, streak_concat _ _ _⟩
    | true =>
      rw [status_probed_true] at hstatus
      split_ifs at hstatus
  degraded := by
    intro hdegraded
    rw [streak_concat]
    cases success with
    | false => exact Nat.zero_le 1
    | true =>
      rw [status_probed_true] at hdegraded
      split_ifs at hdegraded with hrecovering
      have hzero := (h.unhealthy hrecovering.1).2
      rw [hzero]
      exact le_refl 1

/-- One more probe. -/
theorem concat (h : SumsUp track log) (name : String) (outcome : Option Bool) :
    SumsUp (track.checked cfg outcome) (log ++ [track.logged cfg name outcome]) := by
  cases outcome with
  | none => exact h.concat_none name
  | some success => exact h.concat_some name success

end SumsUp

/-- The law and one more probe. -/
theorem earnedSince_concat {threshold : ℕ} {y : Probe}
    (hfailed : ∀ x ∈ log, x.Unhealthy → x.succeeded = false) :
    EarnedSince off threshold (log ++ [y]) ↔
      EarnedSince off threshold log ∧
        (y.status = some .HEALTHY → Since Probe.Unhealthy off log →
          threshold ≤ streak Probe.succeeded (log ++ [y])) := by
  constructor
  · intro h
    refine ⟨fun before x mid z rest heq => ?_, ?_⟩
    · exact h before x mid z (rest ++ [y]) (by simp [heq])
    · rintro hy ⟨before, x, mid, rfl, hx, hoff⟩
      have hends := endsWith_iff.mp (h before x mid y [] (by simp) hx hoff hy)
      rwa [List.append_assoc, List.cons_append, streak_append_cons (hfailed x (by simp) hx)]
  · rintro ⟨h, hlast⟩ before x mid z rest heq hx hoff hz
    rw [← List.cons_append, ← List.append_assoc] at heq
    rcases concat_eq_append_cons.mp heq with ⟨hbefore, rfl, rfl⟩ | ⟨rest, rfl, hlog⟩
    · have hreached := hlast hz ⟨before, x, mid, hbefore.symm, hx, hoff⟩
      subst hbefore
      rw [List.append_assoc, List.cons_append, streak_append_cons (hfailed x (by simp) hx)]
        at hreached
      exact endsWith_iff.mpr hreached
    · exact h before x mid z rest (by rw [hlog]; simp) hx hoff hz

/-- While an endpoint that has been unhealthy is healthy, the law keeps its streak, as long as its
probes succeed. -/
theorem EarnedSince.le_streak {threshold : ℕ} (hlaw : EarnedSince off threshold log)
    (h : SumsUp track log) (hstatus : track.status = .HEALTHY)
    (hpos : 0 < streak Probe.succeeded log) (hsince : Since Probe.Unhealthy off log) :
    threshold ≤ streak Probe.succeeded log := by
  obtain ⟨before, z, rfl, hz⟩ := h.counted hpos
  rw [hstatus] at hz
  have hnot : ¬ z.Unhealthy := fun hunhealthy => nomatch hz.symm.trans hunhealthy
  have hbefore := (since_concat.mp hsince).resolve_left hnot
  have hfailed : ∀ x ∈ before, x.Unhealthy → x.succeeded = false := fun x hx =>
    h.failed x (List.mem_append_left _ hx)
  exact ((earnedSince_concat hfailed).mp hlaw).2 hz hbefore.1

/-- A success and the threshold, as long as the law holds: the streak that it makes reaches the
threshold if the endpoint recovers and becomes healthy, exactly if that is deserved. -/
theorem reached_iff_deserved (h : SumsUp track log)
    (hlaw : EarnedSince off cfg.healthyThreshold log) :
    ((track.probed cfg true).status = .HEALTHY → Since Probe.Unhealthy off log →
        cfg.healthyThreshold ≤ streak Probe.succeeded log + 1) ↔
      Deserved cfg track log (some true) (Since Probe.Unhealthy off log) := by
  have hpos := cfg.healthyThreshold_pos
  rw [status_probed_true]
  unfold Deserved
  cases hstatus : track.status with
  | UNKNOWN =>
    -- Nothing has been unhealthy.
    have hnone : ¬ Since Probe.Unhealthy off log := by
      rintro ⟨before, x, after, rfl, hx, -⟩
      exact h.known hstatus x (by simp) hx
    exact iff_of_true (fun _ hsince => absurd hsince hnone) (fun _ _ hsince => absurd hsince hnone)
  | UNHEALTHY =>
    refine iff_of_true (fun hhealthy _ => ?_) (fun _ hd => by simp at hd)
    have hzero := (h.unhealthy hstatus).1
    split_ifs at hhealthy with hbelow
    have hreached : ¬ track.successes + 1 < cfg.healthyThreshold := fun hlt => hbelow ⟨rfl, hlt⟩
    omega
  | HEALTHY =>
    have hstreak := fun hlong => hlaw.le_streak h hstatus hlong
    have hhealthy : (if HealthStatus.HEALTHY = .UNHEALTHY ∧
        track.successes + 1 < cfg.healthyThreshold then HealthStatus.DEGRADED
        else .HEALTHY) = .HEALTHY := if_neg fun hand => nomatch hand.1
    simp only [hhealthy, true_or, forall_const, and_true]
    refine forall_congr' fun hsince => ⟨fun hreached => ?_, fun hdeserved => ?_⟩
    · omega
    · rcases hdeserved with hone | hlong
      · omega
      · exact Nat.le_succ_of_le (hstreak hlong hsince)
  | DEGRADED =>
    -- A degraded endpoint has not succeeded last, or succeeded once.
    have hone := h.degraded hstatus
    have hhealthy : (if HealthStatus.DEGRADED = .UNHEALTHY ∧
        track.successes + 1 < cfg.healthyThreshold then HealthStatus.DEGRADED
        else .HEALTHY) = .HEALTHY := if_neg fun hand => nomatch hand.1
    have hthreshold : cfg.healthyThreshold ≤ streak Probe.succeeded log + 1 ↔
        cfg.healthyThreshold = 1 ∨
          0 < streak Probe.succeeded log ∧ cfg.healthyThreshold = 2 := by
      omega
    rw [hhealthy, hthreshold]
    simp

/-- One more probe keeps the law exactly if a success of a healthy or degraded endpoint is
deserved. -/
theorem earnedSince_concat_iff (cfg : HealthCheckConfig) (off : Probe → Prop)
    (h : SumsUp track log) (name : String) (outcome : Option Bool) :
    EarnedSince off cfg.healthyThreshold (log ++ [track.logged cfg name outcome]) ↔
      EarnedSince off cfg.healthyThreshold log ∧
        Deserved cfg track log outcome (Since Probe.Unhealthy off log) := by
  rw [earnedSince_concat h.failed]
  refine and_congr_right fun hlaw => ?_
  rw [streak_concat]
  cases outcome with
  | none => exact iff_of_true (fun hhealthy => nomatch hhealthy) (fun hsuccess => nomatch hsuccess)
  | some success =>
    cases success with
    | false =>
      refine iff_of_true (fun hhealthy => ?_) (fun hsuccess => nomatch hsuccess)
      have hstatus : (track.probed cfg false).status = .HEALTHY := Option.some.inj hhealthy
      rw [status_probed_false] at hstatus
      split_ifs at hstatus
    | true =>
      rw [← reached_iff_deserved h hlaw]
      exact imp_congr_left (Option.some_inj (a := _))

/-! ## Runs -/

/-- A checker, and the probes that it has made. -/
structure Monitored where
  checker : HealthChecker := {}
  log : List Probe := []
deriving DecidableEq

/-- A call of `check`: the endpoint, and how its probe runs. -/
structure CheckCall where
  endpoint : ServiceEndpoint Binary64
  run : ProbeRun

namespace Monitored

/-- The probes of one endpoint. -/
def probesOf (s : Monitored) (name : String) : List Probe :=
  s.log.filter fun x => x.endpointName = name

/-- A check. -/
def step (cfg : HealthCheckConfig) (s : Monitored) (call : CheckCall) : Option Monitored :=
  match s.checker.check cfg call.endpoint call.run with
  | .ok (result, checker) =>
    some {
      checker := checker
      log := s.log ++ [{
        endpointName := result.endpointName
        succeeded := result.details.isNone
        status := some result.status }] }
  | .error _ =>
    some { s with
      log := s.log ++ [{
        endpointName := call.endpoint.name
        succeeded := false
        status := none }] }

/-- A success of an endpoint that is healthy or degraded, and has been unhealthy at some time, meets
the threshold. -/
def RecoveryDeserved (cfg : HealthCheckConfig) (s : Monitored) (call : CheckCall) : Prop :=
  Deserved cfg (s.checker.track call.endpoint.name) (s.probesOf call.endpoint.name)
    (HealthChecker.outcome cfg call.run) (∃ x ∈ s.probesOf call.endpoint.name, x.Unhealthy)

instance decidableRecoveryDeserved (cfg : HealthCheckConfig) (s : Monitored) (call : CheckCall) :
    Decidable (RecoveryDeserved cfg s call) :=
  inferInstanceAs (Decidable (_ = some true → _ = HealthStatus.HEALTHY ∨ _ = HealthStatus.DEGRADED →
    (∃ x ∈ s.probesOf call.endpoint.name, x.status = some .UNHEALTHY) →
      _ = 1 ∨ 0 < _ ∧ (_ = HealthStatus.HEALTHY ∨ _ = 2)))

/-- The books of the checker sum up the probes of every endpoint. -/
def Consistent (s : Monitored) : Prop :=
  ∀ name, SumsUp (s.checker.track name) (s.probesOf name)

variable {s t : Monitored} {call : CheckCall}

/-- A check logs its probe, and checks the track of its endpoint. -/
theorem step_eq (h : s.step cfg call = some t) :
    t.log = s.log ++ [(s.checker.track call.endpoint.name).logged cfg call.endpoint.name
        (HealthChecker.outcome cfg call.run)] ∧
      ∀ j, t.checker.track j =
        if j = call.endpoint.name then
          (s.checker.track j).checked cfg (HealthChecker.outcome cfg call.run)
        else
          s.checker.track j := by
  unfold step at h
  cases houtcome : HealthChecker.outcome cfg call.run with
  | none =>
    obtain ⟨escaped, hcheck⟩ := s.checker.check_of_none call.endpoint houtcome
    rw [hcheck] at h
    obtain rfl := Option.some.inj h
    exact ⟨rfl, fun j => (ite_self _).symm⟩
  | some success =>
    obtain ⟨details, checker, rfl, hcheck, htrack⟩ :=
      s.checker.check_of_some call.endpoint houtcome
    rw [hcheck] at h
    obtain rfl := Option.some.inj h
    exact ⟨rfl, htrack⟩

/-- What a check does to the track and to the probes of each endpoint. -/
theorem step_spec (h : s.step cfg call = some t) (j : String) :
    if j = call.endpoint.name then
      t.checker.track j =
          (s.checker.track j).checked cfg (HealthChecker.outcome cfg call.run) ∧
        t.probesOf j = s.probesOf j ++
          [(s.checker.track j).logged cfg j (HealthChecker.outcome cfg call.run)]
    else
      t.checker.track j = s.checker.track j ∧ t.probesOf j = s.probesOf j := by
  obtain ⟨hlog, htrack⟩ := step_eq h
  unfold probesOf
  rw [hlog, htrack, List.filter_append]
  split_ifs with hj
  · subst hj
    exact ⟨rfl, congrArg _ (List.filter_cons_of_pos (decide_eq_true rfl))⟩
  · refine ⟨rfl, ?_⟩
    rw [List.filter_cons_of_neg fun hname => hj (of_decide_eq_true hname).symm, List.filter_nil,
      List.append_nil]

/-- No probe has been made of any endpoint. -/
theorem consistent_new : Consistent {} := fun _ => sumsUp_nil

/-- A check keeps the books consistent. -/
theorem consistent_step (hs : s.Consistent) (h : s.step cfg call = some t) : t.Consistent := by
  intro j
  have hspec := step_spec h j
  split_ifs at hspec with hj
  · obtain ⟨htrack, hprobes⟩ := hspec
    rw [hprobes, htrack]
    exact (hs j).concat _ _
  · rw [hspec.1, hspec.2]
    exact hs j

/-- A check keeps the law exactly if it deserves to. -/
theorem earnedSince_step_iff (hs : s.Consistent) (h : s.step cfg call = some t) :
    (∀ j, EarnedSince off cfg.healthyThreshold (t.probesOf j)) ↔
      (∀ j, EarnedSince off cfg.healthyThreshold (s.probesOf j)) ∧
        Deserved cfg (s.checker.track call.endpoint.name) (s.probesOf call.endpoint.name)
          (HealthChecker.outcome cfg call.run)
          (Since Probe.Unhealthy off (s.probesOf call.endpoint.name)) := by
  -- The endpoint that is probed, and the others.
  have hprobed := step_spec h call.endpoint.name
  rw [if_pos rfl] at hprobed
  have hothers : ∀ j, j ≠ call.endpoint.name → t.probesOf j = s.probesOf j := by
    intro j hj
    have hother := step_spec h j
    rw [if_neg hj] at hother
    exact hother.2
  have hiff := earnedSince_concat_iff cfg off (hs call.endpoint.name) call.endpoint.name
    (HealthChecker.outcome cfg call.run)
  rw [← hprobed.2] at hiff
  constructor
  · refine fun hlaw => ⟨fun j => ?_, (hiff.mp (hlaw _)).2⟩
    by_cases hj : j = call.endpoint.name
    · subst hj
      exact (hiff.mp (hlaw _)).1
    · rw [← hothers j hj]
      exact hlaw j
  · rintro ⟨hlaw, hdeserved⟩ j
    by_cases hj : j = call.endpoint.name
    · subst hj
      exact hiff.mpr ⟨hlaw _, hdeserved⟩
    · rw [hothers j hj]
      exact hlaw j

/-- The law, until something is `off`, holds after the runs whose checks all deserve it. -/
theorem earnedSince_iff {calls : List CheckCall} (h : run (step cfg) {} calls = some s) :
    (∀ name, EarnedSince off cfg.healthyThreshold (s.probesOf name)) ↔
      Along (step cfg) (fun s call => Deserved cfg (s.checker.track call.endpoint.name)
        (s.probesOf call.endpoint.name) (HealthChecker.outcome cfg call.run)
        (Since Probe.Unhealthy off (s.probesOf call.endpoint.name))) {} calls := by
  rw [run_iff_along
    (fun s call t hs hst => ⟨consistent_step hs hst, earnedSince_step_iff hs hst⟩) consistent_new h]
  refine and_iff_right fun name before x mid y rest heq => ?_
  have hnil : (probesOf {} name) = [] := rfl
  rw [hnil] at heq
  simp at heq

/-- `RecoveryEarned` is the law that nothing turns off. -/
theorem recoveryEarned_iff_since {threshold : ℕ} :
    RecoveryEarned threshold log ↔ EarnedSince (fun _ => False) threshold log := by
  simp [RecoveryEarned, EarnedSince]

/-- Nothing turns off what an unhealthy probe turned on. -/
theorem since_false_iff :
    Since Probe.Unhealthy (fun _ => False) log ↔ ∃ x ∈ log, x.Unhealthy := by
  constructor
  · rintro ⟨before, x, after, rfl, hx, -⟩
    exact ⟨x, by simp, hx⟩
  · rintro ⟨x, hmem, hx⟩
    obtain ⟨before, after, rfl⟩ := List.append_of_mem hmem
    exact ⟨before, x, after, rfl, hx, fun _ _ => not_false⟩

/-- For every configuration and every sequence of checks, of any endpoints in turn, however their
probes run: every `HEALTHY` of an endpoint after an unhealthy probe is earned by consecutive
successes since then, exactly if the threshold is one, or every success of a healthy or degraded
endpoint that has been unhealthy comes right after another success, and that of a degraded one only
where the threshold is two. -/
theorem recoveryEarned_iff {cfg : HealthCheckConfig} {calls : List CheckCall} {s : Monitored}
    (h : run (step cfg) {} calls = some s) :
    (∀ name, RecoveryEarned cfg.healthyThreshold (s.probesOf name)) ↔
      Along (step cfg) (RecoveryDeserved cfg) {} calls := by
  have hlaw : (∀ name, RecoveryEarned cfg.healthyThreshold (s.probesOf name)) ↔
      ∀ name, EarnedSince (fun _ => False) cfg.healthyThreshold (s.probesOf name) :=
    forall_congr' fun _ => recoveryEarned_iff_since
  -- Nothing turns the law off, so that recovering means to have been unhealthy at some time.
  have hdeserved : ∀ s call, Deserved cfg (s.checker.track call.endpoint.name)
      (s.probesOf call.endpoint.name) (HealthChecker.outcome cfg call.run)
      (Since Probe.Unhealthy (fun _ => False) (s.probesOf call.endpoint.name)) ↔
        RecoveryDeserved cfg s call := by
    intro s call
    unfold RecoveryDeserved
    rw [since_false_iff]
  rw [hlaw, earnedSince_iff h]
  exact along_iff_of_invariant (I := fun _ => True) (fun _ _ _ _ _ => trivial)
    (fun s call _ => hdeserved s call) trivial calls

/-- Bounds of the data below. -/
theorem interval_pos : (0 : ℚ) < 1 := one_pos

theorem three_pos : 1 ≤ 3 := Nat.le_of_ble_eq_true rfl

/-- A configuration that asks for so many successes, and for one failure. -/
def recoversAfter (healthyThreshold : ℕ) (h : 1 ≤ healthyThreshold) : HealthCheckConfig :=
  { intervalSeconds := 1, timeoutSeconds := 1, healthyThreshold := healthyThreshold,
    unhealthyThreshold := 1, maxHistory := 1, intervalSeconds_pos := interval_pos,
    timeoutSeconds_pos := interval_pos, healthyThreshold_pos := h,
    unhealthyThreshold_pos := Nat.one_pos, maxHistory_pos := Nat.one_pos }

/-- An endpoint that is probed. -/
def service : ServiceEndpoint Binary64 :=
  { name := "svc", host := "10.0.0.1", port := 8080, weight_valid := one_valid,
    port_pos := httpPort_pos, port_le := httpPort_le }

/-- What its probes raise: the service refuses, or fails in a way that `str` cannot print. -/
def refused : PyException := .printable .exception "ConnectionRefusedError" ""

def failedSilently : PyException :=
  .unprintable .exception "ProtocolError" (.printable .exception "UnicodeDecodeError" "")

/-- A check of it, which ends as given. -/
def probe (outcome : Option Bool) : CheckCall where
  endpoint := service
  run :=
    match outcome with
    | some true => {}
    | some false => { raised := some refused }
    | none => { raised := some failedSilently }

/-- A probe that fails, and two that succeed. -/
def failureThenSuccesses : List CheckCall := [probe (some false), probe (some true),
  probe (some true)]

/-- Where three successes are asked for, the second makes the endpoint healthy. -/
theorem healthy_after_two :
    ∃ s, run (step (recoversAfter 3 three_pos)) {} failureThenSuccesses = some s ∧
      (s.probesOf "svc").map (fun x => (x.succeeded, x.status)) =
        [(false, some .UNHEALTHY), (true, some .DEGRADED), (true, some .HEALTHY)] ∧
      ¬ RecoveryEarned (recoversAfter 3 three_pos).healthyThreshold (s.probesOf "svc") := by
  have hprobes : (run (step (recoversAfter 3 three_pos)) {} failureThenSuccesses).map
      (fun s => s.probesOf "svc") =
      some [⟨"svc", false, some .UNHEALTHY⟩, ⟨"svc", true, some .DEGRADED⟩,
        ⟨"svc", true, some .HEALTHY⟩] := by
    decide +kernel
  obtain ⟨s, hrun, hs⟩ := Option.map_eq_some_iff.mp hprobes
  refine ⟨s, hrun, by rw [hs]; rfl, fun hearned => ?_⟩
  rw [hs] at hearned
  have hends := endsWith_iff.mp (hearned [] ⟨"svc", false, some .UNHEALTHY⟩
    [⟨"svc", true, some .DEGRADED⟩] ⟨"svc", true, some .HEALTHY⟩ [] rfl rfl rfl)
  exact absurd hends (by decide)

/-- `recoveryEarned_iff` where two successes are asked for. -/
theorem recoveryEarned_two :
    ∃ s, run (step (recoversAfter 2 Nat.two_pos)) {} failureThenSuccesses = some s ∧
      ∀ name, RecoveryEarned (recoversAfter 2 Nat.two_pos).healthyThreshold (s.probesOf name) := by
  have hsome : (run (step (recoversAfter 2 Nat.two_pos)) {} failureThenSuccesses).isSome =
      true := by
    decide +kernel
  obtain ⟨s, hrun⟩ := Option.isSome_iff_exists.mp hsome
  exact ⟨s, hrun, (recoveryEarned_iff hrun).mpr (by decide +kernel)⟩

/-- The same where only the first `HEALTHY` after an unhealthy probe counts: it need not be earned
again what comes after it. -/
theorem transitionEarned_iff {cfg : HealthCheckConfig} {calls : List CheckCall} {s : Monitored}
    (h : run (step cfg) {} calls = some s) :
    (∀ name, EarnedSince (fun z => z.status = some .HEALTHY) cfg.healthyThreshold
        (s.probesOf name)) ↔
      Along (step cfg) (fun s call => Deserved cfg (s.checker.track call.endpoint.name)
        (s.probesOf call.endpoint.name) (HealthChecker.outcome cfg call.run)
        (Since Probe.Unhealthy (fun z => z.status = some .HEALTHY)
          (s.probesOf call.endpoint.name))) {} calls :=
  earnedSince_iff h

/-! ## The configurations in which every recovery is earned -/

/-- The checks of the endpoint end as they are to end: one that succeeds at once is in time. -/
theorem outcome_probe (cfg : HealthCheckConfig) (outcome : Option Bool) :
    HealthChecker.outcome cfg (probe outcome).run = outcome := by
  match outcome with
  | none => rfl
  | some false => rfl
  | some true =>
    have htimeout : ¬ cfg.timeoutSeconds * 1000 < 0 :=
      not_lt.mpr (mul_nonneg cfg.timeoutSeconds_pos.le (by norm_num))
    have hprobe : HealthChecker.probeError cfg (probe (some true)).run = .ok none := if_neg htimeout
    unfold HealthChecker.outcome
    rw [hprobe]
    rfl

/-- A check of the endpoint checks its track, and is logged. -/
theorem exists_step (cfg : HealthCheckConfig) (s : Monitored) (outcome : Option Bool) :
    ∃ t, s.step cfg (probe outcome) = some t ∧
      t.checker.track service.name = (s.checker.track service.name).checked cfg outcome ∧
      t.probesOf service.name = s.probesOf service.name ++
        [(s.checker.track service.name).logged cfg service.name outcome] := by
  obtain ⟨t, hstep⟩ : ∃ t, s.step cfg (probe outcome) = some t := by
    unfold step
    split <;> exact ⟨_, rfl⟩
  have hspec := step_spec hstep service.name
  have hname : (probe outcome).endpoint.name = service.name := rfl
  rw [hname, if_pos rfl, outcome_probe] at hspec
  exact ⟨t, hstep, hspec⟩

/-- Every recovery is earned, in every run, exactly if the threshold is one. Otherwise a failure, a
success, a probe that is not counted and another success make an endpoint healthy. -/
theorem recoveryEarned_always_iff (cfg : HealthCheckConfig) :
    (∀ calls s, run (step cfg) {} calls = some s →
        ∀ name, RecoveryEarned cfg.healthyThreshold (s.probesOf name)) ↔
      cfg.healthyThreshold = 1 := by
  have hpos := cfg.healthyThreshold_pos
  constructor
  · intro halways
    by_contra hnot
    obtain ⟨t₁, hstep₁, htrack₁, hprobes₁⟩ := exists_step cfg {} (some false)
    obtain ⟨t₂, hstep₂, htrack₂, hprobes₂⟩ := exists_step cfg t₁ (some true)
    obtain ⟨t₃, hstep₃, htrack₃, hprobes₃⟩ := exists_step cfg t₂ none
    obtain ⟨t₄, hstep₄, -, -⟩ := exists_step cfg t₃ (some true)
    have hrun : run (step cfg) {} [probe (some false), probe (some true), probe none] = some t₃ :=
      run_trans (run_singleton hstep₁) (run_trans (run_singleton hstep₂) (run_singleton hstep₃))
    have hconsistent : t₃.Consistent :=
      run_induction (fun s call t hs hst => consistent_step hs hst) consistent_new hrun
    have hlaw : ∀ j, EarnedSince (fun _ => False) cfg.healthyThreshold (t₄.probesOf j) := fun j =>
      recoveryEarned_iff_since.mp (halways _ t₄ (run_trans hrun (run_singleton hstep₄)) j)
    have hdeserved := ((earnedSince_step_iff hconsistent hstep₄).mp hlaw).2
    have hname : (probe (some true)).endpoint.name = service.name := rfl
    rw [hname, outcome_probe] at hdeserved
    -- The endpoint has been unhealthy, and is degraded.
    have hfailed : (t₁.checker.track service.name).status = .UNHEALTHY := by rw [htrack₁]; rfl
    have hzero : (t₁.checker.track service.name).successes = 0 := by rw [htrack₁]; rfl
    have hdegraded : (t₃.checker.track service.name).status = .DEGRADED := by
      have hbelow : (t₁.checker.track service.name).successes + 1 < cfg.healthyThreshold := by
        omega
      rw [htrack₃, htrack₂]
      exact (status_probed_true cfg _).trans (if_pos ⟨hfailed, hbelow⟩)
    have hsince : Since Probe.Unhealthy (fun _ => False) (t₃.probesOf service.name) := by
      have hfirst : Track.logged cfg {} service.name (some false) ∈ t₁.probesOf service.name := by
        rw [hprobes₁]
        exact List.mem_append_right _ List.mem_cons_self
      rw [since_false_iff, hprobes₃, hprobes₂]
      exact ⟨_, List.mem_append_left _ (List.mem_append_left _ hfirst), rfl⟩
    -- The last probe was not counted.
    have hstreak : streak Probe.succeeded (t₃.probesOf service.name) = 0 := by
      rw [hprobes₃]
      exact streak_concat _ _ _
    rcases hdeserved rfl (.inr hdegraded) hsince with hone | ⟨hlong, -⟩
    · exact hnot hone
    · omega
  · intro hone calls s hrun
    have hdeserved : ∀ s call, RecoveryDeserved cfg s call := fun s call _ _ _ => .inl hone
    exact (recoveryEarned_iff hrun).mpr (along_of_forall hdeserved _ calls)

end Monitored

end MeshRouter.Resilience
