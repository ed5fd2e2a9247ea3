import MeshRouter.Builtins
import MeshRouter.Lib.Fallible
import MeshRouter.Lib.History
import MeshRouter.Lib.Runs

/-!
# The circuit breaker of a mesh

`CircuitBreakerState` of `k8s/operator/controllers/mesh_controller.py`: the state machine that the
operator keeps for each mesh, and runs of its calls from a fresh state, with the clock set to any
time in between.

A success that is recorded while the breaker is closed does not start the failure count again, so
the breaker opens on the failures since it closed, in a row or not. `opens_iff` says in which runs
this makes no difference.
-/

namespace MeshRouter.Operator

open Lib

/-- The circuit breaker part of the spec of a mesh. -/
structure CircuitBreakerSpec where
  enabled : Bool := true
  failureThreshold : ℤ := 5
  recoveryTimeout : String := "30s"
  successThreshold : ℤ := 2
deriving DecidableEq

/-- "closed", "open" and "half-open". -/
inductive CircuitState where
  | closed
  | opened
  | halfOpen
deriving DecidableEq

/-- In-process circuit-breaker state machine for a single mesh. -/
structure CircuitBreakerState where
  config : CircuitBreakerSpec
  state : CircuitState := .closed
  failureCount : ℕ := 0
  successCount : ℕ := 0
  openedAt : Option ℚ := none
deriving DecidableEq

namespace CircuitBreakerState

/-- `_parse_timeout_seconds`: `int` of what stands before a final "s" or "m". -/
def parseTimeoutSeconds (conv : TextConversions) (cb : CircuitBreakerState) : Except PyError ℤ :=
  let raw := cb.config.recoveryTimeout.toList
  match raw.getLast? with
  | some 's' => (Value.str (String.ofList raw.dropLast)).toInt conv
  | some 'm' => ((Value.str (String.ofList raw.dropLast)).toInt conv).map (· * 60)
  | _ => .ok 30

/-- `record_failure`. -/
def recordFailure (now : ℚ) (cb : CircuitBreakerState) : CircuitBreakerState :=
  match cb.state with
  | .opened => cb
  | .closed | .halfOpen =>
    let cb := { cb with failureCount := cb.failureCount + 1 }
    if cb.config.failureThreshold ≤ cb.failureCount then
      { cb with state := .opened, openedAt := some now }
    else
      cb

/-- `record_success`, which only counts in the half open state. -/
def recordSuccess (cb : CircuitBreakerState) : CircuitBreakerState :=
  match cb.state with
  | .halfOpen =>
    let cb := { cb with successCount := cb.successCount + 1 }
    if cb.config.successThreshold ≤ cb.successCount then
      { cb with state := .closed, failureCount := 0, successCount := 0 }
    else
      cb
  | .closed | .opened => cb

/-- `maybe_probe`: whether a probe should be attempted, which makes the breaker half open. It raises
if the timeout cannot be read. -/
def maybeProbe (conv : TextConversions) (now : ℚ) (cb : CircuitBreakerState) :
    Except PyError (Bool × CircuitBreakerState) :=
  match cb.state, cb.openedAt with
  | .opened, some openedAt => do
    let timeout ← cb.parseTimeoutSeconds conv
    if timeout ≤ now - openedAt then
      return (true, { cb with state := .halfOpen, successCount := 0 })
    else
      return (false, cb)
  | _, _ => return (false, cb)

end CircuitBreakerState

/-- What is recorded. -/
inductive Outcome where
  | failure
  | success
deriving DecidableEq

/-- A failure was recorded. -/
def Outcome.isFailure : Outcome → Bool
  | .failure => true
  | .success => false

/-- A call on the breaker, or a change of the clock. -/
inductive BreakerCall where
  | recordFailure
  | recordSuccess
  | maybeProbe
  | setClock (now : ℚ)
deriving DecidableEq

/-- A breaker, the clock, and what was recorded since the breaker entered the closed state. -/
structure BreakerUse where
  breaker : CircuitBreakerState
  now : ℚ
  outcomes : List Outcome := []
deriving DecidableEq

namespace BreakerUse

variable (conv : TextConversions)

/-- A fresh breaker. -/
def init (config : CircuitBreakerSpec) (now : ℚ) : BreakerUse :=
  { breaker := { config := config }, now := now }

/-- The state after a call that recorded an outcome. Those that are recorded elsewhere than in the
closed state are forgotten. -/
def recorded (s : BreakerUse) (outcome : Outcome) (breaker : CircuitBreakerState) : BreakerUse :=
  { s with
    breaker := breaker
    outcomes := if s.breaker.state = .closed then s.outcomes ++ [outcome] else [] }

/-- The state after a call. A call of `maybe_probe` that raises has changed nothing. -/
def step (s : BreakerUse) : BreakerCall → Option BreakerUse
  | .recordFailure => some (s.recorded .failure (s.breaker.recordFailure s.now))
  | .recordSuccess => some (s.recorded .success s.breaker.recordSuccess)
  | .maybeProbe =>
    match s.breaker.maybeProbe conv s.now with
    | .ok (_, breaker) => some { s with breaker := breaker }
    | .error _ => some s
  | .setClock now => some { s with now := now }

/-- The call moves the breaker from closed to open exactly if it records a failure that, with those
before it since the breaker entered the closed state, makes `failureThreshold` failures in a row. -/
def OpensRightly (s : BreakerUse) (a : BreakerCall) : Prop :=
  ∀ t, s.step conv a = some t → s.breaker.state = .closed →
    (t.breaker.state = .opened ↔ a = .recordFailure ∧
      EndsWith Outcome.isFailure s.breaker.config.failureThreshold.toNat
        (s.outcomes ++ [.failure]))

/-- If the call records a failure, and it is the one that makes `failureThreshold` failures since
the breaker entered the closed state, then no success was recorded after the first of them. -/
def NoSuccessBetween (s : BreakerUse) (a : BreakerCall) : Prop :=
  a = .recordFailure → s.breaker.state = .closed →
    s.breaker.config.failureThreshold ≤ s.outcomes.countP Outcome.isFailure + 1 →
    .success ∉ s.outcomes.dropWhile (· = .success)

/-- The failure count of a closed breaker is the number of failures since it closed, and is below
the threshold. -/
def Counted (s : BreakerUse) : Prop :=
  s.breaker.state = .closed →
    s.breaker.failureCount = s.outcomes.countP Outcome.isFailure ∧
      ((s.breaker.failureCount : ℤ) < s.breaker.config.failureThreshold ∨
        s.breaker.failureCount = 0)

variable {conv} {s t : BreakerUse}

/-- What `record_failure` does in the closed state. -/
theorem recordFailure_of_closed {cb : CircuitBreakerState} (hclosed : cb.state = .closed)
    (now : ℚ) :
    cb.config.failureThreshold ≤ cb.failureCount + 1 ∧
        (cb.recordFailure now).state = .opened ∨
      (cb.failureCount : ℤ) + 1 < cb.config.failureThreshold ∧
        cb.recordFailure now = { cb with failureCount := cb.failureCount + 1 } := by
  unfold CircuitBreakerState.recordFailure
  rw [hclosed]
  dsimp only
  split_ifs with hreached
  · exact .inl ⟨by exact_mod_cast hreached, rfl⟩
  · exact .inr ⟨by push_cast at hreached; omega, rfl⟩

/-- `record_success` leaves a closed breaker as it is. -/
theorem recordSuccess_of_closed {cb : CircuitBreakerState} (hclosed : cb.state = .closed) :
    cb.recordSuccess = cb := by
  unfold CircuitBreakerState.recordSuccess
  rw [hclosed]

/-- `maybe_probe` leaves a closed breaker as it is. -/
theorem maybeProbe_of_closed {cb : CircuitBreakerState} (hclosed : cb.state = .closed)
    (now : ℚ) : cb.maybeProbe conv now = .ok (false, cb) := by
  unfold CircuitBreakerState.maybeProbe
  rw [hclosed]
  rfl

/-- In the closed state the failures that count are in a row exactly if no success came in between.
-/
theorem streak_outcomes {outcomes : List Outcome} :
    streak Outcome.isFailure outcomes = outcomes.countP Outcome.isFailure ↔
      .success ∉ outcomes.dropWhile (· = .success) := by
  have hkind : (fun o : Outcome => !o.isFailure) = fun o => decide (o = .success) := by
    funext o
    cases o <;> rfl
  rw [streak_eq_countP_iff, hkind]
  constructor
  · intro hall hmem
    cases hall _ hmem
  · intro hnone o ho
    cases o with
    | failure => rfl
    | success => exact absurd ho hnone

/-- A failure does not close the breaker. -/
theorem closed_of_recordFailure {cb : CircuitBreakerState} {now : ℚ}
    (h : (cb.recordFailure now).state = .closed) : cb.state = .closed := by
  cases hstate : cb.state with
  | closed => rfl
  | opened =>
    unfold CircuitBreakerState.recordFailure at h
    rw [hstate] at h
    exact absurd h (by rw [hstate]; decide)
  | halfOpen =>
    unfold CircuitBreakerState.recordFailure at h
    rw [hstate] at h
    dsimp only at h
    split_ifs at h

/-- A success leaves a closed breaker as it is, and closes another one with the count at zero. -/
theorem recordSuccess_cases (cb : CircuitBreakerState) :
    cb.state = .closed ∧ cb.recordSuccess = cb ∨
      cb.state ≠ .closed ∧
        (cb.recordSuccess.state = .closed → cb.recordSuccess.failureCount = 0) := by
  unfold CircuitBreakerState.recordSuccess
  cases hstate : cb.state with
  | closed => exact .inl ⟨rfl, rfl⟩
  | opened => exact .inr ⟨by decide, fun h => absurd (hstate.symm.trans h) (by decide)⟩
  | halfOpen =>
    refine .inr ⟨by decide, ?_⟩
    dsimp only
    split_ifs
    · exact fun _ => rfl
    · exact fun h => by cases h

/-- A probe leaves a breaker as it is, or makes it half open. -/
theorem maybeProbe_cases {cb cb' : CircuitBreakerState} {now : ℚ} {probes : Bool}
    (h : cb.maybeProbe conv now = .ok (probes, cb')) : cb' = cb ∨ cb'.state = .halfOpen := by
  unfold CircuitBreakerState.maybeProbe at h
  split at h
  · obtain ⟨timeout, -, h⟩ := bind_eq_ok.mp h
    split_ifs at h
    · obtain ⟨-, rfl⟩ := Prod.mk.inj (Except.ok.inj h)
      exact .inr rfl
    · obtain ⟨-, rfl⟩ := Prod.mk.inj (Except.ok.inj h)
      exact .inl rfl
  · obtain ⟨-, rfl⟩ := Prod.mk.inj (Except.ok.inj h)
    exact .inl rfl

/-- A call keeps the count. -/
theorem Counted.step (h : s.Counted) {a : BreakerCall} (hst : s.step conv a = some t) :
    t.Counted := by
  cases a with
  | recordFailure =>
    obtain rfl := Option.some.inj hst
    intro hclosed
    have hwas : s.breaker.state = .closed := closed_of_recordFailure hclosed
    obtain ⟨hcount, -⟩ := h hwas
    rcases recordFailure_of_closed hwas s.now with ⟨-, hopened⟩ | ⟨hbelow, heq⟩
    · cases hopened.symm.trans hclosed
    · unfold recorded
      rw [if_pos hwas, heq]
      dsimp only
      rw [List.countP_append, ← hcount]
      refine ⟨rfl, .inl ?_⟩
      push_cast
      exact hbelow
  | recordSuccess =>
    obtain rfl := Option.some.inj hst
    intro hclosed
    unfold recorded at hclosed ⊢
    rcases recordSuccess_cases s.breaker with ⟨hwas, heq⟩ | ⟨hwas, hzero⟩
    · rw [if_pos hwas, heq]
      dsimp only
      rw [List.countP_append]
      exact h hwas
    · rw [if_neg hwas]
      have hcount := hzero hclosed
      exact ⟨hcount, .inr hcount⟩
  | maybeProbe =>
    unfold BreakerUse.step at hst
    dsimp only at hst
    rcases hprobe : s.breaker.maybeProbe conv s.now with e | ⟨probes, breaker⟩
    · rw [hprobe] at hst
      obtain rfl := Option.some.inj hst
      exact h
    · rw [hprobe] at hst
      obtain rfl := Option.some.inj hst
      rcases maybeProbe_cases hprobe with rfl | hhalf
      · exact h
      · exact fun hclosed => absurd (hhalf.symm.trans hclosed) (by decide)
  | setClock now =>
    obtain rfl := Option.some.inj hst
    exact h

/-- Only a failure changes a closed breaker. -/
theorem breaker_eq_of_closed (hclosed : s.breaker.state = .closed) {a : BreakerCall}
    (hne : a ≠ .recordFailure) (hst : s.step conv a = some t) : t.breaker = s.breaker := by
  cases a with
  | recordFailure => exact absurd rfl hne
  | recordSuccess =>
    obtain rfl := Option.some.inj hst
    exact recordSuccess_of_closed hclosed
  | maybeProbe =>
    unfold BreakerUse.step at hst
    dsimp only at hst
    rw [maybeProbe_of_closed hclosed] at hst
    obtain rfl := Option.some.inj hst
    rfl
  | setClock now =>
    obtain rfl := Option.some.inj hst
    rfl

/-- A failure of the closed breaker opens it if the count reaches the threshold. -/
theorem recordFailure_opens_iff (hclosed : s.breaker.state = .closed) (now : ℚ) :
    (s.breaker.recordFailure now).state = .opened ↔
      s.breaker.config.failureThreshold ≤ s.breaker.failureCount + 1 := by
  rcases recordFailure_of_closed hclosed now with ⟨hreached, hopened⟩ | ⟨hshort, heq⟩
  · exact iff_of_true hopened hreached
  · refine iff_of_false (fun hopened => ?_) (not_le.mpr hshort)
    rw [heq] at hopened
    exact absurd (hclosed.symm.trans hopened) (by decide)

/-- A call opens the breaker rightly exactly if it does not complete the failures with a success in
between. -/
theorem Counted.opensRightly_iff (h : s.Counted) (a : BreakerCall) :
    s.OpensRightly conv a ↔ s.NoSuccessBetween a := by
  by_cases hclosed : s.breaker.state = .closed
  swap
  · exact iff_of_true (fun t _ hwas => absurd hwas hclosed) fun _ hwas => absurd hwas hclosed
  by_cases hfailure : a = .recordFailure
  swap
  · refine iff_of_true (fun t hst _ => iff_of_false (fun hopened => ?_) fun hright => ?_)
      fun hrecord => absurd hrecord hfailure
    · rw [breaker_eq_of_closed hclosed hfailure hst] at hopened
      exact absurd (hclosed.symm.trans hopened) (by decide)
    · exact hfailure hright.1
  subst hfailure
  obtain ⟨hcount, hbelow⟩ := h hclosed
  have hle := streak_le_countP Outcome.isFailure s.outcomes
  -- The breaker opens by the count, and should open by the streak.
  have hopens : ((s.recorded .failure (s.breaker.recordFailure s.now)).breaker.state = .opened ↔
      s.breaker.config.failureThreshold ≤ s.outcomes.countP Outcome.isFailure + 1) := by
    rw [← hcount]
    exact recordFailure_opens_iff hclosed s.now
  have hrow : EndsWith Outcome.isFailure s.breaker.config.failureThreshold.toNat
      (s.outcomes ++ [.failure]) ↔
      s.breaker.config.failureThreshold ≤ streak Outcome.isFailure s.outcomes + 1 := by
    rw [endsWith_iff, streak_concat, if_pos (show Outcome.failure.isFailure = true from rfl),
      Int.toNat_le]
    push_cast
    rfl
  have hright : s.OpensRightly conv .recordFailure ↔
      (s.breaker.config.failureThreshold ≤ s.outcomes.countP Outcome.isFailure + 1 ↔
        s.breaker.config.failureThreshold ≤ streak Outcome.isFailure s.outcomes + 1) := by
    unfold OpensRightly
    rw [hrow]
    constructor
    · intro hall
      exact hopens.symm.trans ((hall _ rfl hclosed).trans (and_iff_right rfl))
    · intro hiff t hst _
      obtain rfl := Option.some.inj hst
      exact hopens.trans (hiff.trans (and_iff_right rfl).symm)
  rw [hright]
  unfold NoSuccessBetween
  rw [← streak_outcomes]
  constructor
  · intro hiff _ _ hreached
    have hstreak := hiff.mp hreached
    omega
  · intro hall
    refine ⟨fun hreached => ?_, fun hreached => ?_⟩
    · rw [hall rfl hclosed hreached]
      exact hreached
    · omega

end BreakerUse

/-- In a run of any calls on a fresh breaker of any spec: the breaker opens exactly on
`failureThreshold` failures in a row since it closed, if and only if no recorded failure completes
`failureThreshold` failures since the breaker closed with a success in between. -/
theorem opens_iff (conv : TextConversions) (config : CircuitBreakerSpec) (now : ℚ)
    (as : List BreakerCall) :
    Along (BreakerUse.step conv) (BreakerUse.OpensRightly conv) (.init config now) as ↔
      Along (BreakerUse.step conv) BreakerUse.NoSuccessBetween (.init config now) as := by
  have hinit : (BreakerUse.init config now).Counted := fun _ => ⟨rfl, .inr rfl⟩
  exact along_iff_of_invariant (I := BreakerUse.Counted) (fun _ _ _ hI hst => hI.step hst)
    (fun _ a hI => hI.opensRightly_iff a) hinit as

/-- No text is read as a number. -/
def unreadable : TextConversions where
  readInt _ := none
  readFloat _ := none
  render _ := .error .valueError

/-- A failure, a success and a failure. -/
def interruptedFailures : List BreakerCall := [.recordFailure, .recordSuccess, .recordFailure]

/-- With a threshold of two, the breaker opens on two failures that are not in a row. -/
theorem interruptedFailures_open :
    ¬ ∀ (conv : TextConversions) (config : CircuitBreakerSpec) (now : ℚ) (as : List BreakerCall),
      Along (BreakerUse.step conv) (BreakerUse.OpensRightly conv) (.init config now) as := by
  intro hall
  have hrun := hall unreadable { failureThreshold := 2 } 0 interruptedFailures
  -- The last of the three calls.
  obtain ⟨-, hrow⟩ := ((((hrun.2 _ rfl).2 _ rfl).1 _ rfl rfl).mp (by decide +kernel))
  exact absurd (endsWith_iff.mp hrow) (by decide +kernel)

end MeshRouter.Operator
