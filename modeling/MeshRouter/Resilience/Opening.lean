import MeshRouter.Lib.History
import MeshRouter.Resilience.Admission

/-!
# When a circuit breaker opens

`failure_threshold` counts the failures in a row that a closed breaker processes. The completions
that count are those since the breaker became closed, by its construction, by a `reset`, or by the
last success of a recovery. They are of any calls, also of calls that were admitted before. A closed
breaker opens at exactly the first completion that makes the last completions up to the threshold
failures (`opens_at_threshold`).
-/

namespace MeshRouter.Resilience

open Lib

/-- What a breaker records of a call. -/
inductive Completion where
  | success
  | failure
deriving DecidableEq

def Completion.isFailure : Completion → Bool
  | .success => false
  | .failure => true

namespace BreakerAction

/-- The completion that a step has the breaker record. An interrupted call records none. -/
def completion : BreakerAction → Option Completion
  | .complete _ .returned | .recordSuccess => some .success
  | .complete _ .raised | .recordFailure => some .failure
  | .complete _ .interrupted | .execute | .reset | .readState | .advance _ => none

/-- What a step does to the breaker. -/
def operate (cfg : CircuitBreakerConfig) (now : ℚ) (a : BreakerAction) (cb : CircuitBreaker) :
    CircuitBreaker :=
  match a with
  | .execute => (cb.admitCall cfg now).1
  | .complete _ outcome => cb.settle cfg now outcome
  | .recordSuccess => cb.recordSuccess cfg now
  | .recordFailure => cb.recordFailure cfg now
  | .reset => cb.reset now
  | .readState => (cb.readState cfg now).1
  | .advance _ => cb

/-- The number of failures in a row after a step of a breaker that stays closed. -/
def countAfter (a : BreakerAction) (count : ℕ) : ℕ :=
  if a = .reset then 0
  else
    match a.completion with
    | none => count
    | some .success => 0
    | some .failure => count + 1

end BreakerAction

/-- The completions since a breaker became closed, after one more step. -/
def windowAfter (before : CircuitState) (a : BreakerAction) (window : List Completion) :
    List Completion :=
  if before = .CLOSED ∧ a ≠ .reset then window ++ a.completion.toList else []

/-- The completions since a breaker became closed, at the end of a run. -/
def closedWindow (cfg : CircuitBreakerConfig) :
    BreakerSystem → List Completion → List BreakerAction → List Completion
  | _, window, [] => window
  | s, window, a :: actions =>
    match s.step cfg a with
    | some t => closedWindow cfg t (windowAfter s.breaker.state a window) actions
    | none => window

variable {cfg : CircuitBreakerConfig} {now : ℚ} {cb : CircuitBreaker} {a : BreakerAction}
  {window : List Completion}

/-! ## One step -/

/-- A step of the system is one of its breaker. -/
theorem breaker_of_step {s t : BreakerSystem} (h : s.step cfg a = some t) :
    t.breaker = a.operate cfg s.now s.breaker := by
  cases a with
  | execute =>
    unfold BreakerSystem.step at h
    dsimp only at h
    unfold BreakerAction.operate
    dsimp only
    rcases hadmits : s.breaker.admitCall cfg s.now with ⟨cb, _ | _⟩
    · rw [hadmits] at h
      exact (congrArg BreakerSystem.breaker (Option.some.inj h)).symm
    · rw [hadmits] at h
      exact (congrArg BreakerSystem.breaker (Option.some.inj h)).symm
  | complete call outcome =>
    rw [(BreakerSystem.step_complete h).2]
    rfl
  | advance seconds =>
    rw [(BreakerSystem.step_advance h).2]
    rfl
  | recordSuccess | recordFailure | reset | readState =>
    exact (congrArg BreakerSystem.breaker (Option.some.inj h)).symm

/-- A closed breaker does not look at the clock. -/
theorem maybeTransitionToHalfOpen_of_closed (hclosed : cb.state = .CLOSED) :
    cb.maybeTransitionToHalfOpen cfg now = cb := by
  rcases cb.maybeTransitionToHalfOpen_cases cfg now with ⟨hdue, -⟩ | ⟨-, he⟩
  · exact absurd (hclosed.symm.trans hdue.1) (by decide)
  · exact he

theorem operate_of_failure (h : a.completion = some .failure) :
    a.operate cfg now cb = cb.recordFailure cfg now := by
  cases a with
  | complete call outcome =>
    cases outcome with
    | raised => rfl
    | returned | interrupted => cases h
  | recordFailure => rfl
  | execute | recordSuccess | reset | readState | advance => cases h

theorem operate_of_success (h : a.completion = some .success) :
    a.operate cfg now cb = cb.recordSuccess cfg now := by
  cases a with
  | complete call outcome =>
    cases outcome with
    | returned => rfl
    | raised | interrupted => cases h
  | recordSuccess => rfl
  | execute | recordFailure | reset | readState | advance => cases h

/-- What is no completion leaves a closed breaker closed, and only a reset changes its count. -/
theorem operate_of_none (cfg : CircuitBreakerConfig) (now : ℚ) (hclosed : cb.state = .CLOSED)
    (h : a.completion = none) :
    (a.operate cfg now cb).state = .CLOSED ∧
      (a.operate cfg now cb).failureCount = if a = .reset then 0 else cb.failureCount := by
  have hpoll : cb.maybeTransitionToHalfOpen cfg now = cb :=
    maybeTransitionToHalfOpen_of_closed hclosed
  cases a with
  | execute =>
    have hadmits : BreakerAction.execute.operate cfg now cb =
        { cb with totalCalls := cb.totalCalls + 1 } := by
      rcases CircuitBreaker.admit_cases cb hpoll with ⟨-, he⟩ | ⟨hs, -, -⟩ | ⟨hs | ⟨hs, -⟩, -⟩
      · exact congrArg Prod.fst he
      all_goals exact absurd (hclosed.symm.trans hs) (by decide)
    rw [hadmits]
    exact ⟨hclosed, rfl⟩
  | complete call outcome =>
    cases outcome with
    | interrupted => exact ⟨hclosed, rfl⟩
    | returned | raised => cases h
  | reset => exact ⟨rfl, rfl⟩
  | readState =>
    have hread : BreakerAction.readState.operate cfg now cb = cb := hpoll
    rw [hread]
    exact ⟨hclosed, rfl⟩
  | advance seconds => exact ⟨hclosed, rfl⟩
  | recordSuccess | recordFailure => cases h

/-- A look at the clock closes no breaker. -/
theorem maybeTransitionToHalfOpen_ne_closed (cfg : CircuitBreakerConfig) (now : ℚ)
    (h : cb.state ≠ .CLOSED) : (cb.maybeTransitionToHalfOpen cfg now).state ≠ .CLOSED := by
  rcases cb.maybeTransitionToHalfOpen_cases cfg now with ⟨-, he⟩ | ⟨-, he⟩
  · rw [he]
    exact fun hclosed => by cases hclosed
  · rwa [he]

/-- A breaker that becomes closed has counted no failures. -/
theorem failureCount_of_entry (hbefore : cb.state ≠ .CLOSED)
    (hafter : (a.operate cfg now cb).state = .CLOSED) :
    (a.operate cfg now cb).failureCount = 0 := by
  have hpoll := maybeTransitionToHalfOpen_ne_closed cfg now hbefore
  rcases hcompletion : a.completion with _ | _ | _
  · cases a with
    | execute =>
      have hstate : (BreakerAction.execute.operate cfg now cb).state =
          (cb.maybeTransitionToHalfOpen cfg now).state := by
        rcases CircuitBreaker.admit_cases cb rfl with ⟨-, he⟩ | ⟨-, -, he⟩ | ⟨-, he⟩
        · exact congrArg (fun admitted => admitted.1.state) he
        · exact congrArg (fun admitted => admitted.1.state) he
        · exact congrArg (fun admitted => admitted.1.state) he
      exact absurd (hstate.symm.trans hafter) hpoll
    | complete call outcome =>
      cases outcome with
      | interrupted => exact absurd hafter hbefore
      | returned | raised => cases hcompletion
    | reset => rfl
    | readState => exact absurd hafter hpoll
    | advance seconds => exact absurd hafter hbefore
    | recordSuccess | recordFailure => cases hcompletion
  · -- Only the last success of a recovery closes a breaker.
    rw [operate_of_success hcompletion] at hafter ⊢
    rcases cb.recordSuccess_cases cfg now with ⟨hs, -⟩ | ⟨hs, he⟩ | ⟨hs, -, he⟩ | ⟨-, -, he⟩
    · exact absurd hs hbefore
    · rw [he, hs] at hafter
      cases hafter
    · rw [he, hs] at hafter
      cases hafter
    · rw [he]
  · rw [operate_of_failure hcompletion] at hafter
    rcases cb.recordFailure_cases cfg now with ⟨hs, -⟩ | ⟨hs, he⟩ | ⟨-, he⟩
    · exact absurd hs hbefore
    · rw [he, hs] at hafter
      cases hafter
    · rw [he] at hafter
      cases hafter

/-! ## Runs -/

/-- A closed breaker has counted the failures at the end of its window, and they have never reached
the threshold. -/
def Counts (cfg : CircuitBreakerConfig) (cb : CircuitBreaker) (window : List Completion) : Prop :=
  cb.state = .CLOSED → cb.failureCount = streak Completion.isFailure window ∧
    ∀ earlier, earlier <+: window →
      ¬ EndsWith Completion.isFailure cfg.failureThreshold earlier

/-- No completions have not reached the threshold. -/
theorem not_endsWith_of_prefix_nil {earlier : List Completion} (h : earlier <+: []) :
    ¬ EndsWith Completion.isFailure cfg.failureThreshold earlier := by
  have hpos := cfg.failureThreshold_pos
  rw [List.prefix_nil.mp h, endsWith_iff, streak_nil]
  omega

/-- One more completion ends a streak up to the threshold if it is a failure after one less. -/
theorem endsWith_concat_iff (c : Completion) :
    EndsWith Completion.isFailure cfg.failureThreshold (window ++ [c]) ↔
      c = .failure ∧ cfg.failureThreshold ≤ streak Completion.isFailure window + 1 := by
  have hpos := cfg.failureThreshold_pos
  rw [endsWith_iff, streak_concat]
  cases c with
  | success => simp [Completion.isFailure]; omega
  | failure => simp [Completion.isFailure]

/-- When a step opens a closed breaker, and what it leaves otherwise. -/
theorem operate_of_closed (hclosed : cb.state = .CLOSED)
    (hcounts : Counts cfg cb window) (a : BreakerAction) :
    ((a.operate cfg now cb).state = .OPEN ∧ ∃ c, a.completion = some c ∧
      EndsWith Completion.isFailure cfg.failureThreshold (window ++ [c])) ∨
    ((a.operate cfg now cb).state = .CLOSED ∧
      (a.operate cfg now cb).failureCount =
        streak Completion.isFailure (windowAfter .CLOSED a window) ∧
      ∀ c, a.completion = some c →
        ¬ EndsWith Completion.isFailure cfg.failureThreshold (window ++ [c])) := by
  obtain ⟨hcount, -⟩ := hcounts hclosed
  cases hcompletion : a.completion with
  | none =>
    obtain ⟨hstays, hsame⟩ := operate_of_none cfg now hclosed hcompletion
    refine .inr ⟨hstays, ?_, fun c hc => by cases hc⟩
    rw [hsame, windowAfter, hcompletion]
    split_ifs with hreset hcase hcase
    · exact absurd hreset hcase.2
    · rfl
    · rw [hcount, Option.toList_none, List.append_nil]
    · exact absurd ⟨rfl, hreset⟩ hcase
  | some c =>
    have hwindow : windowAfter .CLOSED a window = window ++ [c] := by
      rw [windowAfter, hcompletion, if_pos ⟨rfl, by rintro rfl; cases hcompletion⟩]
      rfl
    have hstreak := streak_concat Completion.isFailure window c
    rw [← hcount] at hstreak
    rw [hwindow, hstreak]
    simp only [Option.some_inj, exists_eq_left', forall_eq', endsWith_concat_iff, ← hcount]
    cases c with
    | success =>
      rw [operate_of_success hcompletion]
      rcases cb.recordSuccess_cases cfg now with ⟨-, he⟩ | ⟨hs, -⟩ | ⟨hs, -⟩ | ⟨hs, -⟩
      · rw [he]
        exact .inr ⟨hclosed, rfl, fun h => by cases h.1⟩
      all_goals exact absurd (hclosed.symm.trans hs) (by decide)
    | failure =>
      rw [operate_of_failure hcompletion]
      rcases cb.recordFailure_cases cfg now with ⟨-, hlt, he⟩ | ⟨hs, -⟩ | ⟨hcase, he⟩
      · rw [he]
        exact .inr ⟨hclosed, rfl, fun h => not_le.mpr hlt h.2⟩
      · exact absurd (hclosed.symm.trans hs) (by decide)
      · rw [he]
        refine .inl ⟨rfl, rfl, (hcase.resolve_left fun h => ?_).2⟩
        exact absurd (hclosed.symm.trans h) (by decide)

/-- A step keeps the count. -/
theorem Counts.operate (hcounts : Counts cfg cb window) (a : BreakerAction) :
    Counts cfg (a.operate cfg now cb) (windowAfter cb.state a window) := by
  intro hafter
  by_cases hclosed : cb.state = .CLOSED
  · rcases operate_of_closed hclosed hcounts a with ⟨hopen, -⟩ | ⟨-, hcount, hnot⟩
    · exact absurd (hafter.symm.trans hopen) (by decide)
    · rw [hclosed]
      refine ⟨hcount, fun earlier hprefix => ?_⟩
      unfold windowAfter at hprefix
      split_ifs at hprefix
      · cases hcompletion : a.completion with
        | none =>
          rw [hcompletion, Option.toList_none, List.append_nil] at hprefix
          exact (hcounts hclosed).2 earlier hprefix
        | some c =>
          rw [hcompletion, Option.toList_some, List.prefix_concat_iff] at hprefix
          rcases hprefix with rfl | hprefix
          · exact hnot c hcompletion
          · exact (hcounts hclosed).2 earlier hprefix
      · exact not_endsWith_of_prefix_nil hprefix
  · have hwindow : windowAfter cb.state a window = [] := if_neg fun h => hclosed h.1
    rw [hwindow]
    exact ⟨failureCount_of_entry hclosed hafter, fun _ => not_endsWith_of_prefix_nil⟩

/-- The count is right after every run. -/
theorem counts_closedWindow {s t : BreakerSystem} {actions : List BreakerAction}
    (hs : Counts cfg s.breaker window) (h : run (BreakerSystem.step cfg) s actions = some t) :
    Counts cfg t.breaker (closedWindow cfg s window actions) := by
  induction actions generalizing s window with
  | nil =>
    obtain rfl := Option.some.inj h
    exact hs
  | cons a actions ih =>
    obtain ⟨u, hsu, hut⟩ := run_cons.mp h
    have hu : Counts cfg u.breaker (windowAfter s.breaker.state a window) :=
      breaker_of_step hsu ▸ hs.operate a
    rw [closedWindow, hsu]
    exact ih hu hut

theorem counts_init (cfg : CircuitBreakerConfig) (name : String) (now : ℚ) :
    Counts cfg (BreakerSystem.init name now).breaker [] :=
  fun _ => ⟨rfl, fun _ => not_endsWith_of_prefix_nil⟩

/-- A circuit breaker opens exactly on consecutive failures. In every state that it can reach and in
which it is closed, the completions since it became closed have never ended with as many failures as
the threshold, and a step opens it exactly if it processes a completion with which they do; every
other step leaves it closed. -/
theorem opens_at_threshold (cfg : CircuitBreakerConfig) (name : String) (now : ℚ)
    (actions : List BreakerAction) (s : BreakerSystem)
    (hrun : run (BreakerSystem.step cfg) (.init name now) actions = some s)
    (hclosed : s.breaker.state = .CLOSED) :
    (∀ earlier, earlier <+: closedWindow cfg (.init name now) [] actions →
      ¬ EndsWith Completion.isFailure cfg.failureThreshold earlier) ∧
    ∀ a t, s.step cfg a = some t →
      (t.breaker.state = .OPEN ↔ ∃ c, a.completion = some c ∧
        EndsWith Completion.isFailure cfg.failureThreshold
          (closedWindow cfg (.init name now) [] actions ++ [c])) ∧
      (t.breaker.state ≠ .OPEN → t.breaker.state = .CLOSED) := by
  have hcounts := counts_closedWindow (counts_init cfg name now) hrun
  refine ⟨(hcounts hclosed).2, fun a t hstep => ?_⟩
  rw [breaker_of_step hstep]
  rcases operate_of_closed hclosed hcounts a with ⟨hopen, hreached⟩ | ⟨hstays, -, hnot⟩
  · exact ⟨iff_of_true hopen hreached, fun hne => absurd hopen hne⟩
  · refine ⟨iff_of_false ?_ ?_, fun _ => hstays⟩
    · exact fun hopen => absurd (hstays.symm.trans hopen) (by decide)
    · rintro ⟨c, hc, hends⟩
      exact hnot c hc hends

/-- The threshold of `twoFailures` is in range. -/
theorem twoFailures_pos : 1 ≤ 2 := Nat.le_succ 1

/-- Two failures in a row open the circuit. -/
def twoFailures : CircuitBreakerConfig :=
  { singleProbe with failureThreshold := 2, failureThreshold_pos := twoFailures_pos }

/-- `opens_at_threshold` after two failures with a success between them, of which the first is of a
call that is reset away. -/
theorem opens_at_threshold_twoFailures :
    ∃ s, run (BreakerSystem.step twoFailures) (.init "payments" 0)
        [.recordFailure, .reset, .execute, .recordSuccess, .complete 0 .raised] = some s ∧
      ∀ a t, s.step twoFailures a = some t →
        (t.breaker.state = .OPEN ↔ ∃ c, a.completion = some c ∧
          EndsWith Completion.isFailure 2 ([.success, .failure] ++ [c])) := by
  obtain ⟨s, hs⟩ := Option.isSome_iff_exists.mp
    (show (run (BreakerSystem.step twoFailures) (.init "payments" 0)
      [.recordFailure, .reset, .execute, .recordSuccess, .complete 0 .raised]).isSome by
        decide +kernel)
  have hstate : (run (BreakerSystem.step twoFailures) (.init "payments" 0)
      [.recordFailure, .reset, .execute, .recordSuccess, .complete 0 .raised]).map
        (fun s => s.breaker.state) = some .CLOSED := by decide +kernel
  have hwindow : closedWindow twoFailures (.init "payments" 0) []
      [.recordFailure, .reset, .execute, .recordSuccess, .complete 0 .raised] =
        [.success, .failure] := by decide +kernel
  rw [hs] at hstate
  obtain ⟨-, hopens⟩ := opens_at_threshold twoFailures _ _ _ s hs (Option.some.inj hstate)
  refine ⟨s, hs, fun a t hstep => ?_⟩
  rw [← hwindow]
  exact (hopens a t hstep).1

end MeshRouter.Resilience
