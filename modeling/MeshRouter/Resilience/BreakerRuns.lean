import MeshRouter.Lib.Runs
import MeshRouter.Resilience.CircuitBreaker

/-!
# Runs of a circuit breaker

Any number of threads call one breaker. A call of `execute` takes the lock twice, once to be
admitted and once to record how its function ended, and between the two the other threads run. The
steps here are these locked blocks, the other public operations, and advances of the monotonic
clock, so a list of `BreakerAction`s is an interleaving of any number of calls.

The state carries a history beside the breaker: `log` holds every event so far, newest first. The
history is written by the steps and read by no operation of the breaker. The statements about runs
are statements about the log: which calls a half-open window admitted (`admittedCalls (window
log)`), how they ended (`completedCalls`), and when the breaker last opened (`lastOpened`).
-/

namespace MeshRouter.Resilience

open Lib

/-- What can happen to a breaker. -/
inductive BreakerEvent where
  /-- The breaker changed to `state` at `time`. -/
  | entered (state : CircuitState) (time : ℚ)
  /-- The call was admitted. -/
  | admitted (call : ℕ)
  /-- A call was turned away. -/
  | rejected
  /-- The function of the call ended. -/
  | completed (call : ℕ) (outcome : CallOutcome)
deriving DecidableEq

/-- The atomic steps: the two locked blocks of `execute`, the other operations, and the clock. -/
inductive BreakerAction where
  | execute
  | complete (call : ℕ) (outcome : CallOutcome)
  | recordSuccess
  | recordFailure
  | reset
  | readState
  | advance (seconds : ℚ)
deriving DecidableEq

/-- The actions of `execute` calls, of readers of the state, and of the clock. -/
def BreakerAction.IsExecution : BreakerAction → Prop
  | .execute | .complete _ _ | .readState | .advance _ => True
  | .recordSuccess | .recordFailure | .reset => False

instance (a : BreakerAction) : Decidable a.IsExecution := by
  cases a <;> unfold BreakerAction.IsExecution <;> infer_instance

/-- A breaker in use: the clock, the calls that are admitted and not yet completed, the number of
calls admitted so far, and the history. -/
structure BreakerSystem where
  breaker : CircuitBreaker := {}
  now : ℚ := 0
  calls : ℕ := 0
  outstanding : List ℕ := []
  log : List BreakerEvent := []
deriving DecidableEq

/-- The event of a change of state, if the state changed. -/
def transitionEvents (before after : CircuitState) (now : ℚ) : List BreakerEvent :=
  if before = after then [] else [.entered after now]

namespace BreakerSystem

/-- A new breaker, before its first call. -/
def init (name : String) (now : ℚ) : BreakerSystem := { breaker := { name := name }, now := now }

/-- The breaker becomes `cb`, with the event of its change of state. -/
def move (s : BreakerSystem) (cb : CircuitBreaker) : BreakerSystem :=
  { s with breaker := cb, log := transitionEvents s.breaker.state cb.state s.now ++ s.log }

/-- The function of an outstanding call has ended. -/
def ended (s : BreakerSystem) (call : ℕ) (outcome : CallOutcome) : BreakerSystem :=
  { s with outstanding := s.outstanding.erase call, log := .completed call outcome :: s.log }

variable (cfg : CircuitBreakerConfig)

/-- One step of a breaker in use. A completion needs an outstanding call, and the clock does not
run backwards. -/
def step (s : BreakerSystem) : BreakerAction → Option BreakerSystem
  | .execute =>
    match s.breaker.admitCall cfg s.now with
    | (cb, .ok ()) =>
      -- The look at the clock comes before the admission, and so does its event.
      let s' := s.move cb
      some { s' with calls := s.calls + 1, outstanding := s.calls :: s.outstanding,
                     log := .admitted s.calls :: s'.log }
    | (cb, .error _) =>
      let s' := s.move cb
      some { s' with log := .rejected :: s'.log }
  | .complete call outcome =>
    if call ∈ s.outstanding then
      some ((s.ended call outcome).move (s.breaker.settle cfg s.now outcome))
    else
      none
  | .recordSuccess => some (s.move (s.breaker.recordSuccess cfg s.now))
  | .recordFailure => some (s.move (s.breaker.recordFailure cfg s.now))
  | .reset => some (s.move (s.breaker.reset s.now))
  | .readState => some (s.move (s.breaker.readState cfg s.now).1)
  | .advance seconds => if 0 ≤ seconds then some { s with now := s.now + seconds } else none

end BreakerSystem

/-! ## Reading the history -/

/-- The event is an entry into `HALF_OPEN`. -/
def BreakerEvent.opensWindow : BreakerEvent → Bool
  | .entered .HALF_OPEN _ => true
  | _ => false

/-- The events since the last entry into `HALF_OPEN`. -/
def window (log : List BreakerEvent) : List BreakerEvent :=
  log.takeWhile fun e => !e.opensWindow

/-- The calls that the events admit. -/
def admittedCalls (log : List BreakerEvent) : List ℕ :=
  log.filterMap fun
    | .admitted call => some call
    | _ => none

/-- The calls whose function ended with the outcome. -/
def completedCalls (outcome : CallOutcome) (log : List BreakerEvent) : List ℕ :=
  log.filterMap fun
    | .completed call outcome' => if outcome' = outcome then some call else none
    | _ => none

/-- The calls of the current window that ended in it with the outcome. -/
def ownCompletions (outcome : CallOutcome) (log : List BreakerEvent) : List ℕ :=
  (completedCalls outcome (window log)).filter (· ∈ admittedCalls (window log))

/-- The state that the history says the breaker is in. -/
def loggedState : List BreakerEvent → CircuitState
  | [] => .CLOSED
  | .entered state _ :: _ => state
  | _ :: log => loggedState log

/-- The number of calls admitted in `HALF_OPEN` since the last entry into it. -/
def windowAdmissions : List BreakerEvent → ℕ
  | [] => 0
  | .entered .HALF_OPEN _ :: _ => 0
  | .admitted _ :: log => windowAdmissions log + if loggedState log = .HALF_OPEN then 1 else 0
  | _ :: log => windowAdmissions log

/-- The time at which the breaker last opened. -/
def lastOpened : List BreakerEvent → Option ℚ
  | [] => none
  | .entered .OPEN time :: _ => some time
  | _ :: log => lastOpened log

section Reading

variable (log : List BreakerEvent)

@[simp]
theorem loggedState_entered (state : CircuitState) (time : ℚ) :
    loggedState (.entered state time :: log) = state := rfl

@[simp]
theorem windowAdmissions_entered (state : CircuitState) (time : ℚ) :
    windowAdmissions (.entered state time :: log) =
      if state = .HALF_OPEN then 0 else windowAdmissions log := by
  cases state <;> rfl

@[simp]
theorem lastOpened_entered (state : CircuitState) (time : ℚ) :
    lastOpened (.entered state time :: log) =
      if state = .OPEN then some time else lastOpened log := by
  cases state <;> rfl

@[simp]
theorem window_entered_half_open (time : ℚ) : window (.entered .HALF_OPEN time :: log) = [] := rfl

/-- An event that is not an entry into `HALF_OPEN` belongs to the current window. -/
theorem window_cons {e : BreakerEvent} (h : e.opensWindow = false) :
    window (e :: log) = e :: window log := by
  unfold window
  rw [List.takeWhile_cons_of_pos (by simp [h])]

@[simp]
theorem admittedCalls_admitted (call : ℕ) :
    admittedCalls (.admitted call :: log) = call :: admittedCalls log := rfl

@[simp]
theorem admittedCalls_entered (state : CircuitState) (time : ℚ) :
    admittedCalls (.entered state time :: log) = admittedCalls log := rfl

@[simp]
theorem admittedCalls_rejected : admittedCalls (.rejected :: log) = admittedCalls log := rfl

@[simp]
theorem admittedCalls_completed (call : ℕ) (outcome : CallOutcome) :
    admittedCalls (.completed call outcome :: log) = admittedCalls log := rfl

variable (outcome : CallOutcome)

@[simp]
theorem completedCalls_admitted (call : ℕ) :
    completedCalls outcome (.admitted call :: log) = completedCalls outcome log := rfl

@[simp]
theorem completedCalls_entered (state : CircuitState) (time : ℚ) :
    completedCalls outcome (.entered state time :: log) = completedCalls outcome log := rfl

@[simp]
theorem completedCalls_rejected :
    completedCalls outcome (.rejected :: log) = completedCalls outcome log := rfl

@[simp]
theorem completedCalls_completed (call : ℕ) (outcome' : CallOutcome) :
    completedCalls outcome (.completed call outcome' :: log) =
      if outcome' = outcome then call :: completedCalls outcome log
      else completedCalls outcome log := by
  unfold completedCalls
  by_cases h : outcome' = outcome
  · simp [h]
  · simp [h]

/-- A call admitted in the window was admitted in the run. -/
theorem admittedCalls_window_sublist :
    (admittedCalls (window log)).Sublist (admittedCalls log) :=
  (List.takeWhile_prefix _).sublist.filterMap _

end Reading

/-! ## The steps, one case each -/

namespace BreakerSystem

variable {cfg : CircuitBreakerConfig}

/-- The breaker looks at the clock, and becomes half open if its recovery is due. -/
def poll (cfg : CircuitBreakerConfig) (s : BreakerSystem) : BreakerSystem :=
  s.move (s.breaker.maybeTransitionToHalfOpen cfg s.now)

/-- A change of the breaker that keeps its state has no event. -/
theorem move_of_state_eq {s : BreakerSystem} {cb : CircuitBreaker}
    (h : cb.state = s.breaker.state) : s.move cb = { s with breaker := cb } := by
  unfold move transitionEvents
  rw [if_pos h.symm, List.nil_append]

/-- A change of the breaker's state is logged. -/
theorem move_of_state_ne {s : BreakerSystem} {cb : CircuitBreaker}
    (h : cb.state ≠ s.breaker.state) :
    s.move cb = { s with breaker := cb, log := .entered cb.state s.now :: s.log } := by
  unfold move transitionEvents
  rw [if_neg h.symm, List.singleton_append]

/-- A poll leaves the system alone, or moves an open breaker whose timeout has elapsed to
`HALF_OPEN`. -/
theorem poll_cases (cfg : CircuitBreakerConfig) (s : BreakerSystem) :
    s.poll cfg = s ∨
    (s.breaker.RecoveryDue cfg s.now ∧
      s.poll cfg = { s with breaker := s.breaker.transitionTo s.now .HALF_OPEN,
                            log := .entered .HALF_OPEN s.now :: s.log }) := by
  unfold poll
  rcases CircuitBreaker.maybeTransitionToHalfOpen_cases cfg s.now s.breaker with
    ⟨hdue, he⟩ | ⟨-, he⟩
  · right
    -- An open breaker that becomes half open changes its state, which is logged.
    rw [he, move_of_state_ne (by simp [hdue.1])]
    exact ⟨hdue, by simp⟩
  · left
    rw [he, move_of_state_eq rfl]

/-- The admission block of `execute` polls the clock, and then admits in `CLOSED`, admits a probe
in `HALF_OPEN`, or rejects. -/
theorem step_execute {s t : BreakerSystem} (h : step cfg s .execute = some t) :
    ∃ p, s.poll cfg = p ∧
      ((p.breaker.state = .CLOSED ∧
          t = { p with breaker := { p.breaker with totalCalls := p.breaker.totalCalls + 1 },
                       calls := p.calls + 1, outstanding := p.calls :: p.outstanding,
                       log := .admitted p.calls :: p.log }) ∨
        (p.breaker.state = .HALF_OPEN ∧ p.breaker.halfOpenCallCount < cfg.halfOpenMaxCalls ∧
          t = { p with breaker := { p.breaker with
                         halfOpenCallCount := p.breaker.halfOpenCallCount + 1,
                         totalCalls := p.breaker.totalCalls + 1 },
                       calls := p.calls + 1, outstanding := p.calls :: p.outstanding,
                       log := .admitted p.calls :: p.log }) ∨
        t = { p with breaker := p.breaker.reject.1, log := .rejected :: p.log }) := by
  generalize hcb' : s.breaker.maybeTransitionToHalfOpen cfg s.now = cb'
  have hpoll : s.poll cfg = s.move cb' := by rw [← hcb']; rfl
  refine ⟨s.move cb', hpoll, ?_⟩
  unfold step at h
  dsimp only at h
  -- A change of the counters leaves the state, and so the events, as the poll made them.
  rcases CircuitBreaker.admit_cases s.breaker hcb' with ⟨hs, he⟩ | ⟨hs, hroom, he⟩ | ⟨-, he⟩
  · rw [he] at h
    exact Or.inl ⟨hs, (Option.some.inj h).symm⟩
  · rw [he] at h
    exact Or.inr (Or.inl ⟨hs, hroom, (Option.some.inj h).symm⟩)
  · rw [he] at h
    exact Or.inr (Or.inr (Option.some.inj h).symm)

/-- A completion is of an outstanding call. -/
theorem step_complete {s t : BreakerSystem} {call : ℕ} {outcome : CallOutcome}
    (h : step cfg s (.complete call outcome) = some t) :
    call ∈ s.outstanding ∧
      t = (s.ended call outcome).move (s.breaker.settle cfg s.now outcome) := by
  unfold step at h
  dsimp only at h
  split_ifs at h with hmem
  exact ⟨hmem, (Option.some.inj h).symm⟩

/-- A clock step changes the clock only. -/
theorem step_advance {s t : BreakerSystem} {seconds : ℚ}
    (h : step cfg s (.advance seconds) = some t) :
    0 ≤ seconds ∧ t = { s with now := s.now + seconds } := by
  unfold step at h
  dsimp only at h
  split_ifs at h with hs
  exact ⟨hs, (Option.some.inj h).symm⟩

end BreakerSystem

end MeshRouter.Resilience
