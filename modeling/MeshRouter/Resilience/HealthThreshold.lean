import MeshRouter.Resilience.HealthRecovery

/-!
# Failure of an endpoint

`unhealthy_threshold` is the number of consecutive failures that it takes to make an endpoint
unhealthy. The calls of a checker are checks and clearings of its history, of any endpoints in any
order. `ThresholdLaw` is the law that a check is to keep; the first result of an endpoint after a
clearing has no status to start from.

`check` is to take any exception of the probe for a failure. It counts those that it can print, and
another leaves it without a result and without a count. So the failures that came in a row may be
more than those that are counted. `threshold_law_iff` says exactly when that does not matter, and
`noticed_of_recorded` that it does not where every probe since the last clearing is counted.
-/

namespace MeshRouter.Resilience

open Lib

/-- A call of a health checker. -/
inductive HealthCall where
  | check (endpoint : ServiceEndpoint Binary64) (run : ProbeRun)
  | clearHistory (endpointName : Option String)

/-- A probe of an endpoint, and the result of its check, unless that raised. -/
structure CheckedProbe where
  endpointName : String
  succeeded : Bool
  result : Option HealthCheckResult
deriving DecidableEq

namespace CheckedProbe

/-- The probe failed. -/
def failed (x : CheckedProbe) : Bool := !x.succeeded

/-- The probe was recorded. -/
def recorded (x : CheckedProbe) : Bool := x.result.isSome

/-- The status that the probe yielded. -/
def status (x : CheckedProbe) : Option HealthStatus := x.result.map HealthCheckResult.status

end CheckedProbe

/-- What a checker has done. -/
inductive HealthEvent where
  | checked (probe : CheckedProbe)
  | cleared (endpointName : Option String)
deriving DecidableEq

/-- A clearing is of one endpoint, or of all. -/
def Clears (endpointName : Option String) (name : String) : Prop :=
  endpointName = none ∨ endpointName = some name

instance (endpointName : Option String) (name : String) : Decidable (Clears endpointName name) :=
  inferInstanceAs (Decidable (_ ∨ _))

/-- A call is about an endpoint: it checks it, or clears its history. -/
def HealthCall.about (name : String) : HealthCall → Bool
  | .check endpoint _ => decide (endpoint.name = name)
  | .clearHistory endpointName => decide (Clears endpointName name)

namespace HealthChecker

variable (cfg : HealthCheckConfig)

/-- The check of an endpoint, with the probe. -/
def checkedProbe (checker : HealthChecker) (endpoint : ServiceEndpoint Binary64) (run : ProbeRun) :
    CheckedProbe where
  endpointName := endpoint.name
  succeeded := decide (outcome cfg run = some true)
  result :=
    match checker.check cfg endpoint run with
    | .ok (result, _) => some result
    | .error _ => none

/-- The checker after a check. -/
def afterCheck (checker : HealthChecker) (endpoint : ServiceEndpoint Binary64) (run : ProbeRun) :
    HealthChecker :=
  match checker.check cfg endpoint run with
  | .ok (_, checker) => checker
  | .error _ => checker

/-- A call, after others. -/
def call (s : HealthChecker × List HealthEvent) : HealthCall → HealthChecker × List HealthEvent
  | .check endpoint run =>
    (s.1.afterCheck cfg endpoint run, s.2 ++ [.checked (s.1.checkedProbe cfg endpoint run)])
  | .clearHistory endpointName => (s.1.clearHistory endpointName, s.2 ++ [.cleared endpointName])

/-- A new checker after some calls, and what it has done. -/
def afterCalls (calls : List HealthCall) : HealthChecker × List HealthEvent :=
  calls.foldl (call cfg) ({}, [])

variable {cfg}

/-- A check makes of the track of its endpoint what it makes of the probe. -/
theorem track_afterCheck (checker : HealthChecker) (endpoint : ServiceEndpoint Binary64)
    (run : ProbeRun) (j : String) :
    (checker.afterCheck cfg endpoint run).track j =
      if j = endpoint.name then (checker.track j).checked cfg (outcome cfg run)
      else checker.track j := by
  unfold afterCheck
  cases houtcome : outcome cfg run with
  | none =>
    obtain ⟨escaped, hcheck⟩ := checker.check_of_none endpoint houtcome
    rw [hcheck]
    exact (ite_self _).symm
  | some success =>
    obtain ⟨details, checker', -, hcheck, htrack⟩ := checker.check_of_some endpoint houtcome
    rw [hcheck]
    exact htrack j

/-- The status that a check yields, if it counts the probe. -/
theorem status_checkedProbe (checker : HealthChecker) (cfg : HealthCheckConfig)
    (endpoint : ServiceEndpoint Binary64) (run : ProbeRun) :
    (checker.checkedProbe cfg endpoint run).status =
      (outcome cfg run).map fun success =>
        ((checker.track endpoint.name).probed cfg success).status := by
  unfold checkedProbe CheckedProbe.status
  cases houtcome : outcome cfg run with
  | none =>
    obtain ⟨escaped, hcheck⟩ := checker.check_of_none endpoint houtcome
    rw [hcheck]
    rfl
  | some success =>
    obtain ⟨details, checker', -, hcheck, -⟩ := checker.check_of_some endpoint houtcome
    rw [hcheck]
    rfl

/-- A probe that is counted is recorded, and only such a one. -/
theorem recorded_checkedProbe (checker : HealthChecker) (endpoint : ServiceEndpoint Binary64)
    (run : ProbeRun) :
    (checker.checkedProbe cfg endpoint run).recorded = (outcome cfg run).isSome := by
  have hstatus := congrArg Option.isSome (checker.status_checkedProbe cfg endpoint run)
  rwa [CheckedProbe.status, Option.isSome_map, Option.isSome_map] at hstatus

/-- A check is determined by how the probe runs and by the track. -/
theorem checkedProbe_congr {checker checker' : HealthChecker} {endpoint : ServiceEndpoint Binary64}
    (h : checker.track endpoint.name = checker'.track endpoint.name) (run : ProbeRun) :
    checker.checkedProbe cfg endpoint run = checker'.checkedProbe cfg endpoint run := by
  unfold checkedProbe check
  cases probeError cfg run with
  | error escaped => rfl
  | ok details =>
    dsimp only
    rw [computeStatus_eq, computeStatus_eq, h]

/-- A clearing forgets what is known about its endpoints. -/
theorem track_clearHistory (checker : HealthChecker) (endpointName : Option String) (j : String) :
    (checker.clearHistory endpointName).track j =
      if Clears endpointName j then {} else checker.track j := by
  cases endpointName with
  | none => rw [if_pos (.inl rfl)]; rfl
  | some name =>
    have hclears : Clears (some name) j ↔ j = name := by simp [Clears, eq_comm]
    unfold clearHistory track lastStatus
    simp only [hclears, Dict.getD, Dict.get?_erase]
    split_ifs
    · rfl
    · rfl

end HealthChecker

/-! ## The probes of an endpoint -/

/-- The probes of an endpoint. -/
def probesOf (name : String) (events : List HealthEvent) : List CheckedProbe :=
  events.filterMap fun
    | .checked x => if x.endpointName = name then some x else none
    | .cleared _ => none

/-- One more event, as to the probes of an endpoint since its history was cleared. -/
def sinceStep (name : String) (since : List CheckedProbe) : HealthEvent → List CheckedProbe
  | .checked x => if x.endpointName = name then since ++ [x] else since
  | .cleared endpointName => if Clears endpointName name then [] else since

/-- The probes of an endpoint since its history was cleared. -/
def sinceCleared (name : String) (events : List HealthEvent) : List CheckedProbe :=
  events.foldl (sinceStep name) []

/-- Those of them that were recorded. -/
def recordedSince (name : String) (events : List HealthEvent) : List CheckedProbe :=
  (sinceCleared name events).filter CheckedProbe.recorded

/-- The status that an endpoint has on the books, if any. -/
def lastRecorded (recorded : List CheckedProbe) : Option HealthStatus :=
  recorded.getLast?.bind CheckedProbe.status

/-- The track of an endpoint records its probes since its history was cleared. -/
structure Records (track : Track) (recorded : List CheckedProbe) : Prop where
  status : track.status = (lastRecorded recorded).getD .UNKNOWN
  failures : track.failures = streak CheckedProbe.failed recorded
  known : recorded ≠ [] → lastRecorded recorded = some track.status ∧ track.status ≠ .UNKNOWN
  /-- If all probes failed, the first of them made the endpoint unhealthy. -/
  failing : recorded ≠ [] → (∀ x ∈ recorded, x.failed = true) → track.status = .UNHEALTHY

variable {cfg : HealthCheckConfig} {track : Track} {recorded before : List CheckedProbe}
  {x : CheckedProbe}

theorem records_nil : Records {} [] where
  status := rfl
  failures := rfl
  known := fun hne => absurd rfl hne
  failing := fun hne => absurd rfl hne

/-- A success makes no endpoint unhealthy. -/
theorem failed_of_unhealthy (hx : x.status = some (track.probed cfg x.succeeded).status)
    (hunhealthy : x.status = some .UNHEALTHY) : x.failed = true := by
  unfold CheckedProbe.failed
  cases hsucceeded : x.succeeded with
  | false => rfl
  | true =>
    have hstatus := Option.some.inj (hx.symm.trans hunhealthy)
    rw [hsucceeded, status_probed_true] at hstatus
    split_ifs at hstatus

namespace Records

/-- When a failure that is recorded makes an endpoint unhealthy. -/
theorem unhealthy_iff (h : Records track recorded)
    (hx : x.status = some (track.probed cfg x.succeeded).status) (hfailed : x.failed = true) :
    x.status = some .UNHEALTHY ↔
      recorded = [] ∨ lastRecorded recorded = some .UNHEALTHY ∨
        cfg.unhealthyThreshold ≤ streak CheckedProbe.failed recorded + 1 := by
  have hsucceeded : x.succeeded = false := by simpa [CheckedProbe.failed] using hfailed
  have hprobed : x.status = some .UNHEALTHY ↔
      track.status = .UNKNOWN ∨ track.status = .UNHEALTHY ∨
        cfg.unhealthyThreshold ≤ streak CheckedProbe.failed recorded + 1 := by
    rw [hx, hsucceeded, status_probed_false, h.failures]
    split_ifs with hcase
    · exact iff_of_true rfl hcase
    · exact iff_of_false (by decide) hcase
  rw [hprobed]
  by_cases hempty : recorded = []
  · have hunknown : track.status = .UNKNOWN := by
      rw [h.status, hempty]
      rfl
    exact iff_of_true (.inl hunknown) (.inl hempty)
  · obtain ⟨hlast, hknown⟩ := h.known hempty
    simp [hempty, hknown, hlast]

/-- One more recorded probe. -/
theorem concat (h : Records track recorded)
    (hx : x.status = some (track.probed cfg x.succeeded).status) :
    Records (track.probed cfg x.succeeded) (recorded ++ [x]) := by
  have hlast : lastRecorded (recorded ++ [x]) = some (track.probed cfg x.succeeded).status := by
    unfold lastRecorded
    rw [List.getLast?_concat]
    exact hx
  refine ⟨?_, ?_, fun _ => ⟨hlast, status_probed_ne cfg track _⟩, fun _ hall => ?_⟩
  · rw [hlast]
    rfl
  · rw [streak_concat, ← h.failures]
    unfold CheckedProbe.failed
    cases x.succeeded with
    | false => rfl
    | true => rfl
  · have hunhealthy : x.status = some .UNHEALTHY := by
      rw [h.unhealthy_iff hx (hall x (by simp))]
      by_cases hempty : recorded = []
      · exact .inl hempty
      · have hstatus := h.failing hempty fun y hy => hall y (List.mem_append_left _ hy)
        exact .inr (.inl (hstatus ▸ (h.known hempty).1))
    exact Option.some.inj (hx.symm.trans hunhealthy)

/-- If the last probes up to the threshold failed, those before a clearing included, so that a
failure is due, and all since the clearing are recorded, they make the endpoint unhealthy. -/
theorem unhealthy_of_streak (h : Records track recorded)
    (hdue : cfg.unhealthyThreshold ≤ streak CheckedProbe.failed (before ++ recorded) + 1) :
    recorded = [] ∨ lastRecorded recorded = some .UNHEALTHY ∨
      cfg.unhealthyThreshold ≤ streak CheckedProbe.failed recorded + 1 := by
  by_cases hempty : recorded = []
  · exact .inl hempty
  · by_cases hall : ∀ y ∈ recorded, y.failed = true
    · have hstatus := h.failing hempty hall
      exact .inr (.inl (hstatus ▸ (h.known hempty).1))
    · -- A success since the clearing starts the streak.
      push Not at hall
      obtain ⟨y, hy, hsucceeded⟩ := hall
      obtain ⟨first, rest, rfl⟩ := List.append_of_mem hy
      have hstart : y.failed = false := Bool.eq_false_iff.mpr hsucceeded
      rw [← List.append_assoc, streak_append_cons hstart] at hdue
      rw [streak_append_cons hstart]
      exact .inr (.inr hdue)

end Records

/-! ## Runs -/

namespace HealthChecker

/-- What a call makes of the track of an endpoint. -/
def trackCall (cfg : HealthCheckConfig) (name : String) (track : Track) (c : HealthCall) : Track :=
  if c.about name then
    match c with
    | .check _ run => track.checked cfg (outcome cfg run)
    | .clearHistory _ => {}
  else track

theorem track_call (s : HealthChecker × List HealthEvent) (c : HealthCall) (name : String) :
    (call cfg s c).1.track name = trackCall cfg name (s.1.track name) c := by
  cases c with
  | check endpoint run =>
    refine (track_afterCheck s.1 endpoint run name).trans ?_
    simp only [trackCall, HealthCall.about, decide_eq_true_eq, eq_comm (a := name)]
  | clearHistory endpointName =>
    refine (track_clearHistory s.1 endpointName name).trans ?_
    simp only [trackCall, HealthCall.about, decide_eq_true_eq]

theorem track_afterCalls (cfg : HealthCheckConfig) (calls : List HealthCall) (name : String) :
    (afterCalls cfg calls).1.track name = calls.foldl (trackCall cfg name) {} := by
  unfold afterCalls
  induction calls using List.reverseRecOn with
  | nil => rfl
  | append_singleton calls c ih => rw [List.foldl_concat, List.foldl_concat, track_call, ih]

/-- What the calls about other endpoints do not change. -/
theorem track_afterCalls_filter (cfg : HealthCheckConfig) (calls : List HealthCall)
    (name : String) :
    (afterCalls cfg (calls.filter (HealthCall.about name))).1.track name =
      (afterCalls cfg calls).1.track name := by
  rw [track_afterCalls, track_afterCalls, List.foldl_filter]
  congr
  funext track c
  unfold trackCall
  split_ifs
  · rfl
  · rfl

/-- A probe that is not recorded has failed, and one that is yields the status that it makes. -/
theorem checkedProbe_spec (checker : HealthChecker) (cfg : HealthCheckConfig)
    (endpoint : ServiceEndpoint Binary64) (run : ProbeRun) :
    let x := checker.checkedProbe cfg endpoint run
    x.recorded = false ∧ outcome cfg run = none ∧ x.failed = true ∧ x.status = none ∨
      x.recorded = true ∧ outcome cfg run = some x.succeeded ∧
        x.status = some ((checker.track endpoint.name).probed cfg x.succeeded).status := by
  intro x
  have hrecorded : x.recorded = (outcome cfg run).isSome :=
    checker.recorded_checkedProbe endpoint run
  have hstatus := checker.status_checkedProbe cfg endpoint run
  have hsucceeded : x.succeeded = decide (outcome cfg run = some true) := rfl
  cases houtcome : outcome cfg run with
  | none =>
    rw [houtcome] at hrecorded hstatus hsucceeded
    exact .inl ⟨hrecorded, rfl, congrArg Bool.not hsucceeded, hstatus⟩
  | some success =>
    rw [houtcome] at hrecorded hstatus hsucceeded
    have hsuccess : x.succeeded = success := by simpa using hsucceeded
    rw [hsuccess]
    exact .inr ⟨hrecorded, rfl, hstatus⟩

/-- The books record the probes of every endpoint since its history was cleared. -/
theorem records_afterCalls (cfg : HealthCheckConfig) (calls : List HealthCall) (name : String) :
    Records ((afterCalls cfg calls).1.track name)
      (recordedSince name (afterCalls cfg calls).2) := by
  induction calls using List.reverseRecOn with
  | nil => exact records_nil
  | append_singleton calls c ih =>
    have hstep : afterCalls cfg (calls ++ [c]) = call cfg (afterCalls cfg calls) c :=
      List.foldl_concat _ _ _ _
    rw [hstep]
    generalize afterCalls cfg calls = s at ih
    unfold recordedSince at ih ⊢
    cases c with
    | check endpoint run =>
      have hsince : sinceCleared name (call cfg s (.check endpoint run)).2 =
          if endpoint.name = name then
            sinceCleared name s.2 ++ [s.1.checkedProbe cfg endpoint run]
          else sinceCleared name s.2 := List.foldl_concat _ _ _ _
      rw [hsince]
      refine (track_afterCheck s.1 endpoint run name).symm ▸ ?_
      by_cases hname : name = endpoint.name
      · subst hname
        rw [if_pos rfl, if_pos rfl, List.filter_append]
        rcases s.1.checkedProbe_spec cfg endpoint run with
          ⟨hrecorded, houtcome, -, -⟩ | ⟨hrecorded, houtcome, hx⟩
        · rw [houtcome, List.filter_cons_of_neg (by simp [hrecorded]), List.filter_nil,
            List.append_nil]
          exact ih
        · rw [houtcome, List.filter_cons_of_pos hrecorded, List.filter_nil]
          exact ih.concat hx
      · rw [if_neg hname, if_neg (Ne.symm hname)]
        exact ih
    | clearHistory endpointName =>
      have hsince : sinceCleared name (call cfg s (.clearHistory endpointName)).2 =
          if Clears endpointName name then [] else sinceCleared name s.2 :=
        List.foldl_concat _ _ _ _
      rw [hsince]
      refine (track_clearHistory s.1 endpointName name).symm ▸ ?_
      split_ifs
      · exact records_nil
      · exact ih

/-- Only failures are not recorded. -/
theorem failed_of_not_recorded (cfg : HealthCheckConfig) (calls : List HealthCall)
    (name : String) :
    ∀ x ∈ sinceCleared name (afterCalls cfg calls).2, x.recorded = false → x.failed = true := by
  induction calls using List.reverseRecOn with
  | nil => exact fun x hx => nomatch hx
  | append_singleton calls c ih =>
    have hstep : afterCalls cfg (calls ++ [c]) = call cfg (afterCalls cfg calls) c :=
      List.foldl_concat _ _ _ _
    rw [hstep]
    generalize afterCalls cfg calls = s at ih
    cases c with
    | check endpoint run =>
      have hsince : sinceCleared name (call cfg s (.check endpoint run)).2 =
          if endpoint.name = name then
            sinceCleared name s.2 ++ [s.1.checkedProbe cfg endpoint run]
          else sinceCleared name s.2 := List.foldl_concat _ _ _ _
      rw [hsince]
      split_ifs
      · intro x hx hnot
        rcases List.mem_append.mp hx with hx | hx
        · exact ih x hx hnot
        · obtain rfl := List.mem_singleton.mp hx
          rcases s.1.checkedProbe_spec cfg endpoint run with
            ⟨-, -, hfailed, -⟩ | ⟨hrecorded, -, -⟩
          · exact hfailed
          · exact absurd (hnot.symm.trans hrecorded) (by decide)
      · exact ih
    | clearHistory endpointName =>
      have hsince : sinceCleared name (call cfg s (.clearHistory endpointName)).2 =
          if Clears endpointName name then [] else sinceCleared name s.2 :=
        List.foldl_concat _ _ _ _
      rw [hsince]
      split_ifs
      · exact fun x hx => nomatch hx
      · exact ih

/-- The probes since a clearing are the last probes. -/
theorem exists_probesOf_eq (name : String) (events : List HealthEvent) :
    ∃ before, probesOf name events = before ++ sinceCleared name events := by
  induction events using List.reverseRecOn with
  | nil => exact ⟨[], rfl⟩
  | append_singleton events e ih =>
    obtain ⟨before, hbefore⟩ := ih
    have hsince : sinceCleared name (events ++ [e]) = sinceStep name (sinceCleared name events) e :=
      List.foldl_concat _ _ _ _
    rw [hsince]
    unfold probesOf at hbefore ⊢
    rw [List.filterMap_append, hbefore]
    cases e with
    | checked x =>
      unfold sinceStep
      by_cases hname : x.endpointName = name
      · exact ⟨before, by simp [hname]⟩
      · exact ⟨before, by simp [hname]⟩
    | cleared endpointName =>
      unfold sinceStep
      by_cases hclears : Clears endpointName name
      · exact ⟨before ++ sinceCleared name events, by simp [hclears]⟩
      · exact ⟨before, by simp [hclears]⟩

/-- The law that a check of an endpoint is to keep, after other calls. Unless its result is the
first since the history of the endpoint was cleared, it is unhealthy only if the probe failed, and
the result before was unhealthy or the last probes up to the threshold all failed. It is unhealthy
if the last probes of the endpoint up to the threshold all failed, whether or not its history was
cleared in between. And it is what it would be without the calls about other endpoints. -/
structure ThresholdLaw (cfg : HealthCheckConfig) (calls : List HealthCall)
    (endpoint : ServiceEndpoint Binary64) (run : ProbeRun) : Prop where
  unhealthy_only_if :
    recordedSince endpoint.name (afterCalls cfg calls).2 ≠ [] →
    ((afterCalls cfg calls).1.checkedProbe cfg endpoint run).status = some .UNHEALTHY →
      ((afterCalls cfg calls).1.checkedProbe cfg endpoint run).failed = true ∧
        (lastRecorded (recordedSince endpoint.name (afterCalls cfg calls).2) = some .UNHEALTHY ∨
          EndsWith CheckedProbe.failed cfg.unhealthyThreshold
            (sinceCleared endpoint.name (afterCalls cfg calls).2 ++
              [(afterCalls cfg calls).1.checkedProbe cfg endpoint run]))
  unhealthy_if :
    EndsWith CheckedProbe.failed cfg.unhealthyThreshold
      (probesOf endpoint.name (afterCalls cfg calls).2 ++
        [(afterCalls cfg calls).1.checkedProbe cfg endpoint run]) →
      ((afterCalls cfg calls).1.checkedProbe cfg endpoint run).status = some .UNHEALTHY
  isolated :
    (afterCalls cfg calls).1.checkedProbe cfg endpoint run =
      (afterCalls cfg (calls.filter (HealthCall.about endpoint.name))).1.checkedProbe cfg endpoint
        run

/-- If a probe that does not succeed is at least the failure in a row that the threshold asks for,
then it is counted, and it makes the endpoint unhealthy: nothing is recorded since the last
clearing, the endpoint is unhealthy already, or the failures that are recorded suffice. -/
def Noticed (cfg : HealthCheckConfig) (calls : List HealthCall)
    (endpoint : ServiceEndpoint Binary64) (run : ProbeRun) : Prop :=
  outcome cfg run ≠ some true →
    cfg.unhealthyThreshold ≤
      streak CheckedProbe.failed (probesOf endpoint.name (afterCalls cfg calls).2) + 1 →
    outcome cfg run = some false ∧
      (recordedSince endpoint.name (afterCalls cfg calls).2 = [] ∨
        lastRecorded (recordedSince endpoint.name (afterCalls cfg calls).2) = some .UNHEALTHY ∨
        cfg.unhealthyThreshold ≤
          streak CheckedProbe.failed (recordedSince endpoint.name (afterCalls cfg calls).2) + 1)

/-- A probe ends a row of so many failures if it has not succeeded, and completes it. -/
theorem endsWith_checkedProbe_iff (probes : List CheckedProbe) (checker : HealthChecker)
    (endpoint : ServiceEndpoint Binary64) (run : ProbeRun) :
    EndsWith CheckedProbe.failed cfg.unhealthyThreshold
        (probes ++ [checker.checkedProbe cfg endpoint run]) ↔
      outcome cfg run ≠ some true ∧
        cfg.unhealthyThreshold ≤ streak CheckedProbe.failed probes + 1 := by
  have hpos := cfg.unhealthyThreshold_pos
  have hfailed : (checker.checkedProbe cfg endpoint run).failed = true ↔
      outcome cfg run ≠ some true := by
    simp [checkedProbe, CheckedProbe.failed]
  rw [endsWith_iff, streak_concat]
  split_ifs with hcase
  · exact (and_iff_right (hfailed.mp hcase)).symm
  · exact iff_of_false (by omega) fun h => hcase (hfailed.mpr h.1)

/-- After any calls, the next check keeps the law exactly if a failure that is due is noticed. -/
theorem thresholdLaw_iff (cfg : HealthCheckConfig) (calls : List HealthCall)
    (endpoint : ServiceEndpoint Binary64) (run : ProbeRun) :
    ThresholdLaw cfg calls endpoint run ↔ Noticed cfg calls endpoint run := by
  have hrecords := records_afterCalls cfg calls endpoint.name
  have hspec := (afterCalls cfg calls).1.checkedProbe_spec cfg endpoint run
  constructor
  · intro hlaw hfailed hdue
    have hunhealthy := hlaw.unhealthy_if ((endsWith_checkedProbe_iff _ _ _ _).mpr ⟨hfailed, hdue⟩)
    rcases hspec with ⟨-, -, -, hnone⟩ | ⟨-, houtcome, hx⟩
    · exact absurd (hnone.symm.trans hunhealthy) (by decide)
    · have hnot := failed_of_unhealthy hx hunhealthy
      refine ⟨?_, (hrecords.unhealthy_iff hx hnot).mp hunhealthy⟩
      rw [houtcome]
      simpa [CheckedProbe.failed] using hnot
  · intro hnoticed
    refine ⟨fun hne hunhealthy => ?_, fun hends => ?_, ?_⟩
    · rcases hspec with ⟨-, -, -, hnone⟩ | ⟨-, houtcome, hx⟩
      · exact absurd (hnone.symm.trans hunhealthy) (by decide)
      · have hfailed := failed_of_unhealthy hx hunhealthy
        refine ⟨hfailed, ?_⟩
        refine ((hrecords.unhealthy_iff hx hfailed).mp hunhealthy).resolve_left hne |>.imp_right ?_
        intro hreached
        have hle := streak_filter_le (failed_of_not_recorded cfg calls endpoint.name)
        rw [endsWith_iff, streak_concat, if_pos hfailed]
        exact hreached.trans (Nat.succ_le_succ hle)
    · obtain ⟨hfailed, hdue⟩ := (endsWith_checkedProbe_iff _ _ _ _).mp hends
      obtain ⟨houtcome, hcases⟩ := hnoticed hfailed hdue
      rcases hspec with ⟨-, hnone, -, -⟩ | ⟨-, hsome, hx⟩
      · exact absurd (hnone.symm.trans houtcome) (by decide)
      · have hnot := Option.some.inj (hsome.symm.trans houtcome)
        exact (hrecords.unhealthy_iff hx (congrArg Bool.not hnot)).mpr hcases
    · exact checkedProbe_congr (track_afterCalls_filter cfg calls endpoint.name).symm run

/-- Failures are noticed where all probes since the last clearing are recorded, and this one is. -/
theorem noticed_of_recorded (cfg : HealthCheckConfig) (calls : List HealthCall)
    (endpoint : ServiceEndpoint Binary64) (run : ProbeRun)
    (hall : ∀ x ∈ sinceCleared endpoint.name (afterCalls cfg calls).2, x.recorded = true)
    (hrun : outcome cfg run ≠ none) : Noticed cfg calls endpoint run := by
  intro hfailed hdue
  have hrecorded : recordedSince endpoint.name (afterCalls cfg calls).2 =
      sinceCleared endpoint.name (afterCalls cfg calls).2 := List.filter_eq_self.mpr hall
  have hrecords := records_afterCalls cfg calls endpoint.name
  refine ⟨?_, ?_⟩
  · cases houtcome : outcome cfg run with
    | none => exact absurd houtcome hrun
    | some success =>
      cases success with
      | false => rfl
      | true => exact absurd houtcome hfailed
  · obtain ⟨before, hbefore⟩ := exists_probesOf_eq endpoint.name (afterCalls cfg calls).2
    rw [hbefore, ← hrecorded] at hdue
    exact hrecords.unhealthy_of_streak hdue

/-- For every configuration and all calls, of any endpoints in any order: every check keeps the law,
exactly if every check notices the failure that is due. -/
theorem threshold_law_iff (cfg : HealthCheckConfig) (calls : List HealthCall) :
    (∀ before endpoint run after, calls = before ++ .check endpoint run :: after →
        ThresholdLaw cfg before endpoint run) ↔
      ∀ before endpoint run after, calls = before ++ .check endpoint run :: after →
        Noticed cfg before endpoint run := by
  refine forall_congr' fun before => forall_congr' fun endpoint => forall_congr' fun run => ?_
  refine forall_congr' fun after => imp_congr_right fun _ => ?_
  exact thresholdLaw_iff cfg before endpoint run

/-- A configuration that asks for two failures. -/
def failsAfterTwo : HealthCheckConfig :=
  { Monitored.recoversAfter 1 Nat.one_pos with
    unhealthyThreshold := 2, unhealthyThreshold_pos := Nat.two_pos }

/-- A success, and a failure that is not recorded. -/
def failedUnnoticed : List HealthCall :=
  [.check Monitored.service (Monitored.probe (some true)).run,
    .check Monitored.service (Monitored.probe none).run]

/-- The failure after it is the second in a row, and the endpoint is degraded. -/
theorem second_failure_degraded :
    ((afterCalls failsAfterTwo failedUnnoticed).1.checkedProbe failsAfterTwo Monitored.service
        (Monitored.probe (some false)).run).status = some .DEGRADED ∧
      ¬ ThresholdLaw failsAfterTwo failedUnnoticed Monitored.service
        (Monitored.probe (some false)).run := by
  have hdegraded : ((afterCalls failsAfterTwo failedUnnoticed).1.checkedProbe failsAfterTwo
      Monitored.service (Monitored.probe (some false)).run).status = some .DEGRADED := by
    decide +kernel
  refine ⟨hdegraded, fun hlaw => ?_⟩
  have hstreak : streak CheckedProbe.failed
      (probesOf Monitored.service.name (afterCalls failsAfterTwo failedUnnoticed).2) = 1 := by
    decide +kernel
  have hends := hlaw.unhealthy_if ((endsWith_checkedProbe_iff _ _ _ _).mpr
    ⟨by decide +kernel, by rw [hstreak]; exact le_refl 2⟩)
  rw [hdegraded] at hends
  cases hends

end HealthChecker

end MeshRouter.Resilience
