import MeshRouter.Resilience.Admission

/-!
# The probes of a half-open window

In runs of `execute` calls, with no manual `record_success`, `record_failure`, or `reset`, the two
counters of `HALF_OPEN` count events of the current window (`Probing`): `halfOpenCallCount` the
calls that it admitted, and `successCount` the successes that were recorded in it, of whatever
calls. No failure is recorded in a window that is still open, and a call that the window admitted is
outstanding or has ended in it.

The recovery of the breaker (`Recovery.lean`) and the return of its slots (`Slots.lean`) are both
read off these counts.
-/

namespace MeshRouter.Resilience

open Lib

variable {cfg : CircuitBreakerConfig}

/-- What the counters of a half-open breaker count. -/
structure Probing (s : BreakerSystem) : Prop where
  outstanding_lt : ∀ c ∈ s.outstanding, c < s.calls
  completed_lt : ∀ outcome, ∀ c ∈ completedCalls outcome s.log, c < s.calls
  admitted_lt : ∀ c ∈ admittedCalls s.log, c < s.calls
  admitted_nodup : (admittedCalls s.log).Nodup
  callCount : s.breaker.state = .HALF_OPEN →
    (admittedCalls (window s.log)).length = s.breaker.halfOpenCallCount
  successCount : s.breaker.state = .HALF_OPEN →
    (completedCalls .returned (window s.log)).length = s.breaker.successCount
  noFailure : s.breaker.state = .HALF_OPEN → completedCalls .raised (window s.log) = []
  accounted : s.breaker.state = .HALF_OPEN → ∀ c ∈ admittedCalls (window s.log),
    c ∈ s.outstanding ∨ ∃ outcome, c ∈ completedCalls outcome (window s.log)

/-- The end of a call leaves a breaker `HALF_OPEN` only if it was, the call was not a failure, and
its success did not reach the threshold. -/
theorem settle_halfOpen {cb : CircuitBreaker} {now : ℚ} {outcome : CallOutcome}
    (h : (cb.settle cfg now outcome).state = .HALF_OPEN) :
    cb.state = .HALF_OPEN ∧
      (cb.settle cfg now outcome).halfOpenCallCount = cb.halfOpenCallCount ∧
      (outcome = .returned ∧ (cb.settle cfg now outcome).successCount = cb.successCount + 1 ∨
        outcome = .interrupted ∧ cb.settle cfg now outcome = cb) := by
  cases outcome with
  | returned =>
    change (cb.recordSuccess cfg now).state = .HALF_OPEN at h
    change cb.state = .HALF_OPEN ∧ (cb.recordSuccess cfg now).halfOpenCallCount = _ ∧
      (_ ∧ (cb.recordSuccess cfg now).successCount = _ ∨ _)
    rcases CircuitBreaker.recordSuccess_cases cfg now cb with
      ⟨hs, he⟩ | ⟨hs, he⟩ | ⟨hs, -, he⟩ | ⟨-, -, he⟩
    · -- Closed and open breakers stay so, and the success that reaches the threshold closes.
      rw [he, hs] at h; cases h
    · rw [he, hs] at h; cases h
    · rw [he]
      exact ⟨hs, rfl, Or.inl ⟨rfl, rfl⟩⟩
    · rw [he] at h; cases h
  | raised =>
    change (cb.recordFailure cfg now).state = .HALF_OPEN at h
    rcases CircuitBreaker.recordFailure_cases cfg now cb with
      ⟨hs, -, he⟩ | ⟨hs, he⟩ | ⟨-, he⟩
    · rw [he, hs] at h; cases h
    · rw [he, hs] at h; cases h
    · rw [he] at h; cases h
  | interrupted => exact ⟨h, rfl, Or.inr ⟨rfl, rfl⟩⟩

namespace Probing

/-- A new breaker has no probes. -/
theorem init (name : String) (now : ℚ) : Probing (.init name now) := by
  constructor <;> simp [BreakerSystem.init, admittedCalls, completedCalls]

/-- A look at the clock keeps the counts: a window that it opens is empty. -/
theorem poll {s : BreakerSystem} (h : Probing s) : Probing (s.poll cfg) := by
  rcases BreakerSystem.poll_cases cfg s with he | ⟨-, he⟩
  · rw [he]
    exact h
  · rw [he]
    constructor
    · exact h.outstanding_lt
    · simpa using h.completed_lt
    · simpa using h.admitted_lt
    · simpa using h.admitted_nodup
    · exact fun _ => rfl
    · exact fun _ => rfl
    · exact fun _ => rfl
    · intro _ c hc
      cases hc

/-- Admission keeps the counts: the new call is fresh, and in `HALF_OPEN` it is counted. -/
theorem admitted {p t : BreakerSystem} (h : Probing p)
    (hlog : t.log = .admitted p.calls :: p.log) (hcalls : t.calls = p.calls + 1)
    (hout : t.outstanding = p.calls :: p.outstanding)
    (hstate : t.breaker.state = p.breaker.state)
    (hsucc : t.breaker.successCount = p.breaker.successCount)
    (hcount : p.breaker.state = .HALF_OPEN →
      t.breaker.halfOpenCallCount = p.breaker.halfOpenCallCount + 1) : Probing t := by
  have hwin : window t.log = .admitted p.calls :: window p.log := by
    rw [hlog, window_cons _ rfl]
  -- Calls are numbered in the order of their admission.
  have hfresh : p.calls ∉ admittedCalls p.log := fun hm => (h.admitted_lt _ hm).false
  constructor
  · intro c hc
    rw [hout, List.mem_cons] at hc
    rw [hcalls]
    rcases hc with rfl | hc
    · exact Nat.lt_succ_self _
    · exact Nat.lt_succ_of_lt (h.outstanding_lt c hc)
  · intro outcome c hc
    rw [hlog, completedCalls_admitted] at hc
    rw [hcalls]
    exact Nat.lt_succ_of_lt (h.completed_lt outcome c hc)
  · intro c hc
    rw [hlog, admittedCalls_admitted, List.mem_cons] at hc
    rw [hcalls]
    rcases hc with rfl | hc
    · exact Nat.lt_succ_self _
    · exact Nat.lt_succ_of_lt (h.admitted_lt c hc)
  · rw [hlog, admittedCalls_admitted, List.nodup_cons]
    exact ⟨hfresh, h.admitted_nodup⟩
  · intro hs
    rw [hstate] at hs
    rw [hwin, admittedCalls_admitted, List.length_cons, h.callCount hs, hcount hs]
  · intro hs
    rw [hstate] at hs
    rw [hwin, completedCalls_admitted, h.successCount hs, hsucc]
  · intro hs
    rw [hstate] at hs
    rw [hwin, completedCalls_admitted, h.noFailure hs]
  · intro hs c hc
    rw [hstate] at hs
    rw [hwin, admittedCalls_admitted, List.mem_cons] at hc
    rw [hout]
    rcases hc with rfl | hc
    · exact Or.inl List.mem_cons_self
    · rcases h.accounted hs c hc with ho | ⟨outcome, ho⟩
      · exact Or.inl (List.mem_cons_of_mem _ ho)
      · exact Or.inr ⟨outcome, by rwa [hwin, completedCalls_admitted]⟩

/-- The end of an outstanding call keeps the counts. -/
theorem completed {s : BreakerSystem} (h : Probing s) {call : ℕ} (hcall : call ∈ s.outstanding)
    (outcome : CallOutcome) :
    Probing ((s.ended call outcome).move (s.breaker.settle cfg s.now outcome)) := by
  -- First what is claimed of the whole history, which an entry into a state does not touch.
  have hlog : ((s.ended call outcome).move (s.breaker.settle cfg s.now outcome)).log =
      transitionEvents s.breaker.state (s.breaker.settle cfg s.now outcome).state s.now ++
        .completed call outcome :: s.log := rfl
  have hadm : admittedCalls ((s.ended call outcome).move
      (s.breaker.settle cfg s.now outcome)).log = admittedCalls s.log := by
    rw [hlog, transitionEvents]
    split_ifs
    · rfl
    · rfl
  have hcompleted : ∀ outcome', completedCalls outcome' ((s.ended call outcome).move
      (s.breaker.settle cfg s.now outcome)).log =
        completedCalls outcome' (.completed call outcome :: s.log) := by
    intro outcome'
    rw [hlog, transitionEvents]
    split_ifs
    · rfl
    · rfl
  refine ⟨?_, ?_, ?_, ?_, ?_, ?_, ?_, ?_⟩
  · exact fun c hc => h.outstanding_lt c (List.mem_of_mem_erase hc)
  · intro outcome' c hc
    rw [hcompleted, completedCalls_completed] at hc
    split_ifs at hc
    · rcases List.mem_cons.mp hc with rfl | hc
      · exact h.outstanding_lt c hcall
      · exact h.completed_lt outcome' c hc
    · exact h.completed_lt outcome' c hc
  · rw [hadm]
    exact h.admitted_lt
  · rw [hadm]
    exact h.admitted_nodup
  -- Then the open window, which gains the event of the end of the call.
  all_goals
    intro hhalf
    change (s.breaker.settle cfg s.now outcome).state = .HALF_OPEN at hhalf
    obtain ⟨hs, hcount, hcases⟩ := settle_halfOpen hhalf
    rw [BreakerSystem.move_of_state_eq (s := s.ended call outcome) (hhalf.trans hs.symm)]
    unfold BreakerSystem.ended
    dsimp only
    rw [window_cons _ rfl]
  · rw [admittedCalls_completed, h.callCount hs, hcount]
  · rw [completedCalls_completed]
    rcases hcases with ⟨rfl, hsucc⟩ | ⟨rfl, hsame⟩
    · rw [if_pos rfl, List.length_cons, h.successCount hs, hsucc]
    · rw [if_neg (by decide), h.successCount hs, hsame]
  · rw [completedCalls_completed, if_neg, h.noFailure hs]
    rcases hcases with ⟨rfl, -⟩ | ⟨rfl, -⟩
    · decide
    · decide
  · intro c hc
    rw [admittedCalls_completed] at hc
    -- The call that ended is accounted for by its completion, the others as before.
    by_cases hcc : c = call
    · subst hcc
      exact Or.inr ⟨outcome, by rw [completedCalls_completed, if_pos rfl]; simp⟩
    · rcases h.accounted hs c hc with ho | ⟨outcome', ho⟩
      · exact Or.inl ((List.mem_erase_of_ne hcc).mpr ho)
      · refine Or.inr ⟨outcome', ?_⟩
        rw [completedCalls_completed]
        split_ifs
        · exact List.mem_cons_of_mem _ ho
        · exact ho

/-- Each step of a run of calls keeps the counts. -/
theorem step {s t : BreakerSystem} {a : BreakerAction} (h : Probing s) (ha : a.IsExecution)
    (hst : BreakerSystem.step cfg s a = some t) : Probing t := by
  cases a with
  | execute =>
    obtain ⟨p, hp, hcases⟩ := BreakerSystem.step_execute hst
    have hpp : Probing p := by
      rw [← hp]
      exact h.poll
    rcases hcases with ⟨hs, rfl⟩ | ⟨hs, -, rfl⟩ | rfl
    · exact hpp.admitted rfl rfl rfl rfl rfl (by simp [hs])
    · exact hpp.admitted rfl rfl rfl rfl rfl fun _ => rfl
    · -- A rejection counts nothing.
      have hwin : window (.rejected :: p.log) = .rejected :: window p.log := window_cons _ rfl
      constructor
      · exact hpp.outstanding_lt
      · exact hpp.completed_lt
      · exact hpp.admitted_lt
      · exact hpp.admitted_nodup
      · intro hs
        dsimp only
        rw [hwin, admittedCalls_rejected]
        exact hpp.callCount hs
      · intro hs
        dsimp only
        rw [hwin, completedCalls_rejected]
        exact hpp.successCount hs
      · intro hs
        dsimp only
        rw [hwin, completedCalls_rejected]
        exact hpp.noFailure hs
      · intro hs c hc
        dsimp only at hc ⊢
        rw [hwin, admittedCalls_rejected] at hc
        simpa [hwin] using hpp.accounted hs c hc
  | complete call outcome =>
    obtain ⟨hcall, rfl⟩ := BreakerSystem.step_complete hst
    exact h.completed hcall outcome
  | recordSuccess => exact ha.elim
  | recordFailure => exact ha.elim
  | reset => exact ha.elim
  | readState =>
    obtain rfl := Option.some.inj hst
    exact h.poll
  | advance seconds =>
    obtain ⟨-, rfl⟩ := BreakerSystem.step_advance hst
    exact ⟨h.outstanding_lt, h.completed_lt, h.admitted_lt, h.admitted_nodup, h.callCount,
      h.successCount, h.noFailure, h.accounted⟩

/-- After every run of calls the counters count the window's events. -/
theorem run {s : BreakerSystem} {name : String} {now : ℚ} {as : List BreakerAction}
    (has : ∀ a ∈ as, a.IsExecution)
    (h : Lib.run (BreakerSystem.step cfg) (.init name now) as = some s) : Probing s :=
  run_induction_along (fun _ _ _ hI ha hst => hI.step ha hst) (init name now)
    (along_of_actions has _) h

end Probing

end MeshRouter.Resilience
