import Mathlib.Data.List.Perm.Subperm
import MeshRouter.Resilience.Probes

/-!
# The slots of a half-open window

A half-open window has `half_open_max_calls` slots. A probe takes one when it is admitted, and its
success or its failure moves the breaker towards `CLOSED` or to `OPEN`. A probe that ends in an
interruption (`CancelledError`, `KeyboardInterrupt`) records nothing and keeps its slot, since
`execute` catches `Exception` only. When every slot is gone so, the breaker is `HALF_OPEN` with no
call outstanding and rejects for ever (`interrupted_probe_wedges`).

`slots_return` says how many interruptions a window can bear: with at most `half_open_max_calls -
success_threshold` of them, the successes close the circuit before the slots are used up. With one
more, `success_threshold - 1` successes do not close it and leave no slot (`interruptions_wedge`),
under every configuration, and a breaker without slots stays so (`wedged_rejects`).
-/

namespace MeshRouter.Resilience

open Lib

variable {cfg : CircuitBreakerConfig}

/-- A half-open breaker with no call outstanding has a slot, and admits the next call. -/
def HasSlot (cfg : CircuitBreakerConfig) (s : BreakerSystem) : Prop :=
  s.breaker.state = .HALF_OPEN → s.outstanding = [] →
    s.breaker.halfOpenCallCount < cfg.halfOpenMaxCalls ∧
      (s.breaker.admitCall cfg s.now).2 = .ok ()

instance (s : BreakerSystem) : Decidable (HasSlot cfg s) := by
  unfold HasSlot
  infer_instance

/-- The step interrupts a probe of the current window only if the window then still has as many
slots that no interruption has used as the circuit needs successes. -/
def SparesSlots (cfg : CircuitBreakerConfig) (s : BreakerSystem) : BreakerAction → Prop
  | .complete call .interrupted =>
    s.breaker.state = .HALF_OPEN → call ∈ admittedCalls (window s.log) →
      (ownCompletions .interrupted s.log).length + 1 + cfg.successThreshold ≤ cfg.halfOpenMaxCalls
  | _ => True

instance (s : BreakerSystem) (a : BreakerAction) : Decidable (SparesSlots cfg s a) := by
  unfold SparesSlots
  split <;> infer_instance

/-- The slots of the current window that no interruption has used are enough for the successes. -/
def SlotsSpared (cfg : CircuitBreakerConfig) (s : BreakerSystem) : Prop :=
  s.breaker.state = .HALF_OPEN →
    (ownCompletions .interrupted s.log).length + cfg.successThreshold ≤ cfg.halfOpenMaxCalls

/-- A look at the clock spares the slots: a window that it opens has no interruptions. -/
theorem SlotsSpared.poll {s : BreakerSystem} (h : SlotsSpared cfg s) :
    SlotsSpared cfg (s.poll cfg) := by
  rcases BreakerSystem.poll_cases cfg s with he | ⟨-, he⟩
  · rw [he]
    exact h
  · rw [he]
    intro _
    have hle := cfg.successThreshold_le
    simpa [ownCompletions, completedCalls] using hle

/-- The admission of a call that has not ended is no interruption. -/
theorem ownCompletions_admitted {outcome : CallOutcome} {call : ℕ} {log : List BreakerEvent}
    (hfresh : call ∉ completedCalls outcome (window log)) :
    ownCompletions outcome (.admitted call :: log) = ownCompletions outcome log := by
  unfold ownCompletions
  rw [window_cons _ rfl, completedCalls_admitted, admittedCalls_admitted]
  refine List.filter_congr fun c hc => ?_
  have hne : c ≠ call := fun heq => hfresh (heq ▸ hc)
  simp [hne]

/-- The end of a call adds the call to the completions with its outcome, if the window admitted
it. -/
theorem ownCompletions_completed (outcome outcome' : CallOutcome) (call : ℕ)
    (log : List BreakerEvent) :
    ownCompletions outcome (.completed call outcome' :: log) =
      if outcome' = outcome ∧ call ∈ admittedCalls (window log) then
        call :: ownCompletions outcome log
      else
        ownCompletions outcome log := by
  unfold ownCompletions
  rw [window_cons _ rfl, completedCalls_completed, admittedCalls_completed]
  by_cases ho : outcome' = outcome
  · rw [if_pos ho, List.filter_cons]
    simp [ho]
  · rw [if_neg ho, if_neg (fun h => ho h.1)]

/-- A step that spares the slots keeps them spared. -/
theorem SlotsSpared.step {s t : BreakerSystem} {a : BreakerAction} (h : SlotsSpared cfg s)
    (hpr : Probing s) (ha : a.IsExecution) (hspare : SparesSlots cfg s a)
    (hst : BreakerSystem.step cfg s a = some t) : SlotsSpared cfg t := by
  cases a with
  | execute =>
    obtain ⟨p, rfl, hcases⟩ := BreakerSystem.step_execute hst
    -- The new call has not ended, so it is no interruption of the window.
    have hfresh : (s.poll cfg).calls ∉
        completedCalls .interrupted (window (s.poll cfg).log) := fun hm =>
      (hpr.poll.completed_lt _ _ (((List.takeWhile_prefix _).sublist.filterMap _).subset hm)).false
    rcases hcases with ⟨hs, rfl⟩ | ⟨hs, -, rfl⟩ | rfl
    · intro ht
      rw [hs] at ht
      cases ht
    · intro ht
      dsimp only
      rw [ownCompletions_admitted hfresh]
      exact h.poll ht
    · intro ht
      dsimp only
      unfold ownCompletions
      rw [window_cons _ rfl, completedCalls_rejected, admittedCalls_rejected]
      exact h.poll ht
  | complete call outcome =>
    obtain ⟨-, rfl⟩ := BreakerSystem.step_complete hst
    intro ht
    change (s.breaker.settle cfg s.now outcome).state = .HALF_OPEN at ht
    obtain ⟨hs, -, hcases⟩ := settle_halfOpen ht
    rw [BreakerSystem.move_of_state_eq (s := s.ended call outcome) (ht.trans hs.symm)]
    unfold BreakerSystem.ended
    dsimp only
    rw [ownCompletions_completed]
    -- The one step that uses a slot up: the condition leaves enough others.
    split_ifs with hown
    · obtain ⟨rfl, hcall⟩ := hown
      rw [List.length_cons]
      exact hspare hs hcall
    · exact h hs
  | recordSuccess => exact ha.elim
  | recordFailure => exact ha.elim
  | reset => exact ha.elim
  | readState =>
    obtain rfl := Option.some.inj hst
    exact h.poll
  | advance seconds =>
    obtain ⟨-, rfl⟩ := BreakerSystem.step_advance hst
    exact h

/-- With no call outstanding, the probes of an open window are its successes and its
interruptions. -/
theorem Probing.callCount_le {s : BreakerSystem} (h : Probing s)
    (hs : s.breaker.state = .HALF_OPEN) (hout : s.outstanding = []) :
    s.breaker.halfOpenCallCount ≤
      s.breaker.successCount + (ownCompletions .interrupted s.log).length := by
  have hsubset : admittedCalls (window s.log) ⊆
      completedCalls .returned (window s.log) ++ ownCompletions .interrupted s.log := by
    intro c hc
    rw [List.mem_append]
    rcases h.accounted hs c hc with hmem | ⟨outcome, hmem⟩
    · rw [hout] at hmem
      cases hmem
    · cases outcome with
      | returned => exact Or.inl hmem
      | raised =>
        rw [h.noFailure hs] at hmem
        cases hmem
      | interrupted => exact Or.inr (List.mem_filter.mpr ⟨hmem, decide_eq_true hc⟩)
  -- A probe is admitted once, so there are no more probes than ends of probes.
  have hnodup := h.admitted_nodup.sublist (admittedCalls_window_sublist s.log)
  have hle := (List.subperm_of_subset hnodup hsubset).length_le
  rwa [List.length_append, h.callCount hs, h.successCount hs] at hle

/-- A half-open breaker with a free slot admits. -/
theorem admit_of_slot {cb : CircuitBreaker} (now : ℚ) (hs : cb.state = .HALF_OPEN)
    (hroom : cb.halfOpenCallCount < cfg.halfOpenMaxCalls) :
    cb.admitCall cfg now =
      ({ cb with halfOpenCallCount := cb.halfOpenCallCount + 1,
                 totalCalls := cb.totalCalls + 1 }, .ok ()) := by
  have hsame : cb.maybeTransitionToHalfOpen cfg now = cb :=
    if_neg fun hdue => by cases hs.symm.trans hdue.1
  rcases CircuitBreaker.admit_cases cb hsame with ⟨hc, -⟩ | ⟨-, -, he⟩ | ⟨hfull, -⟩
  · rw [hs] at hc
    cases hc
  · exact he
  · rcases hfull with ho | ⟨-, hle⟩
    · rw [hs] at ho
      cases ho
    · omega

/-- In a run of calls that spares the slots of its windows, however its calls end, the breaker is
never half open with no call outstanding and no slot. -/
theorem slots_return {cfg : CircuitBreakerConfig} {name : String} {now : ℚ}
    {as : List BreakerAction} {s : BreakerSystem} (has : ∀ a ∈ as, a.IsExecution)
    (hspare : Along (BreakerSystem.step cfg) (SparesSlots cfg) (.init name now) as)
    (h : run (BreakerSystem.step cfg) (.init name now) as = some s) : HasSlot cfg s := by
  have hpr := Probing.run has h
  have htr := Tracked.run h
  have hsp : Probing s ∧ SlotsSpared cfg s := by
    refine run_induction_along (I := fun s => Probing s ∧ SlotsSpared cfg s) ?_
      ⟨Probing.init name now, by simp [SlotsSpared, BreakerSystem.init]⟩
      (along_and (along_of_actions has _) hspare) h
    rintro s a t ⟨hpr, hsp⟩ ⟨ha, hsa⟩ hst
    exact ⟨hpr.step ha hst, hsp.step hpr ha hsa hst⟩
  intro hs hout
  have hlt := (htr.valid.halfOpened hs).1
  have hle := hpr.callCount_le hs hout
  have hspared := hsp.2 hs
  -- Probes are at most successes and interruptions, the successes are below their threshold, and
  -- the interruptions leave that many slots.
  have hroom : s.breaker.halfOpenCallCount < cfg.halfOpenMaxCalls := by omega
  exact ⟨hroom, by rw [admit_of_slot _ hs hroom]⟩

/-- Two slots, of which one success is enough to close the circuit. -/
def twoProbes : CircuitBreakerConfig :=
  { singleProbe with halfOpenMaxCalls := 2, successThreshold_le := Nat.le_succ 1 }

/-- A circuit that opened gets a probe, which is interrupted. -/
def interruptedRun : List BreakerAction :=
  [.execute, .complete 0 .raised, .advance 1, .execute, .complete 1 .interrupted]

/-- `slots_return` on a run whose first probe is interrupted. -/
theorem slots_return_twoProbes :
    ∃ s, run (BreakerSystem.step twoProbes) (.init "payments" 0) interruptedRun = some s ∧
      HasSlot twoProbes s := by
  obtain ⟨s, hs⟩ := Option.isSome_iff_exists.mp
    (show (run (BreakerSystem.step twoProbes) (.init "payments" 0) interruptedRun).isSome by
      decide +kernel)
  exact ⟨s, hs, slots_return (by decide) (by decide +kernel) hs⟩

/-! ## One interruption too many -/

/-- A half-open breaker whose slots are gone with no call outstanding to settle them. -/
structure Wedged (cfg : CircuitBreakerConfig) (s : BreakerSystem) : Prop where
  halfOpen : s.breaker.state = .HALF_OPEN
  idle : s.outstanding = []
  full : cfg.halfOpenMaxCalls ≤ s.breaker.halfOpenCallCount

/-- A breaker is wedged exactly when it has no slot to give. -/
theorem not_hasSlot_iff {s : BreakerSystem} : ¬ HasSlot cfg s ↔ Wedged cfg s := by
  constructor
  · intro h
    by_contra hw
    refine h fun hs hout => ?_
    have hroom : s.breaker.halfOpenCallCount < cfg.halfOpenMaxCalls := by
      by_contra hfull
      exact hw ⟨hs, hout, not_lt.mp hfull⟩
    exact ⟨hroom, by rw [admit_of_slot _ hs hroom]⟩
  · intro hw h
    exact absurd (h hw.halfOpen hw.idle).1 (not_lt.mpr hw.full)

/-- A wedged breaker rejects, and stays wedged. -/
theorem Wedged.step {s t : BreakerSystem} {a : BreakerAction} (h : Wedged cfg s)
    (ha : a.IsExecution) (hst : BreakerSystem.step cfg s a = some t) :
    Wedged cfg t ∧ t.calls = s.calls := by
  have hpoll : s.poll cfg = s := by
    rcases BreakerSystem.poll_cases cfg s with he | ⟨hdue, -⟩
    · exact he
    · cases h.halfOpen.symm.trans hdue.1
  cases a with
  | execute =>
    obtain ⟨p, rfl, hcases⟩ := BreakerSystem.step_execute hst
    rw [hpoll] at hcases
    rcases hcases with ⟨hs, -⟩ | ⟨-, hroom, -⟩ | rfl
    · cases h.halfOpen.symm.trans hs
    · exact absurd hroom (not_lt.mpr h.full)
    · exact ⟨⟨h.halfOpen, h.idle, h.full⟩, rfl⟩
  | complete call outcome =>
    obtain ⟨hcall, -⟩ := BreakerSystem.step_complete hst
    rw [h.idle] at hcall
    cases hcall
  | recordSuccess => exact ha.elim
  | recordFailure => exact ha.elim
  | reset => exact ha.elim
  | readState =>
    obtain rfl := Option.some.inj hst
    change Wedged cfg (s.poll cfg) ∧ (s.poll cfg).calls = s.calls
    rw [hpoll]
    exact ⟨h, rfl⟩
  | advance seconds =>
    obtain ⟨-, rfl⟩ := BreakerSystem.step_advance hst
    exact ⟨⟨h.halfOpen, h.idle, h.full⟩, rfl⟩

/-- A wedged breaker admits no call, however long it is used. -/
theorem wedged_rejects {s t : BreakerSystem} {as : List BreakerAction} (h : Wedged cfg s)
    (has : ∀ a ∈ as, a.IsExecution) (hrun : run (BreakerSystem.step cfg) s as = some t) :
    Wedged cfg t ∧ t.calls = s.calls := by
  refine run_induction_along (I := fun t => Wedged cfg t ∧ t.calls = s.calls) ?_ ⟨h, rfl⟩
    (along_of_actions has s) hrun
  rintro u a v ⟨hu, hcalls⟩ ha hst
  exact ⟨(hu.step ha hst).1, (hu.step ha hst).2.trans hcalls⟩

/-- A run of calls leads from `s` to `t`. -/
def Reaches (cfg : CircuitBreakerConfig) (s t : BreakerSystem) : Prop :=
  ∃ as : List BreakerAction, (∀ a ∈ as, a.IsExecution) ∧
    run (BreakerSystem.step cfg) s as = some t

theorem Reaches.refl (s : BreakerSystem) : Reaches cfg s s := ⟨[], by simp, rfl⟩

theorem Reaches.trans {s t u : BreakerSystem} (h : Reaches cfg s t) (h' : Reaches cfg t u) :
    Reaches cfg s u := by
  obtain ⟨as, has, hrun⟩ := h
  obtain ⟨bs, hbs, hrun'⟩ := h'
  refine ⟨as ++ bs, fun a ha => ?_, run_trans hrun hrun'⟩
  rcases List.mem_append.mp ha with ha | ha
  · exact has a ha
  · exact hbs a ha

theorem Reaches.step {s t : BreakerSystem} {a : BreakerAction} (ha : a.IsExecution)
    (h : BreakerSystem.step cfg s a = some t) : Reaches cfg s t :=
  ⟨[a], by simpa using ha, run_singleton h⟩

/-- The system after an idle breaker has admitted a call, as `cb`, and the call has ended. -/
def afterCall (cfg : CircuitBreakerConfig) (s : BreakerSystem) (cb : CircuitBreaker)
    (outcome : CallOutcome) : BreakerSystem :=
  let log := .completed s.calls outcome :: .admitted s.calls :: s.log
  { s with breaker := cb, calls := s.calls + 1, outstanding := [], log := log }.move
    (cb.settle cfg s.now outcome)

/-- An idle breaker that admits can run a call to any end. -/
theorem reaches_call {s : BreakerSystem} {cb : CircuitBreaker} (hidle : s.outstanding = [])
    (hadmits : s.breaker.admitCall cfg s.now = (cb, .ok ())) (hstate : cb.state = s.breaker.state)
    (outcome : CallOutcome) : Reaches cfg s (afterCall cfg s cb outcome) := by
  -- The call is the only one outstanding, and its end leaves none.
  have hexec : BreakerSystem.step cfg s .execute =
      some { s with breaker := cb, calls := s.calls + 1, outstanding := [s.calls],
                    log := .admitted s.calls :: s.log } := by
    unfold BreakerSystem.step
    rw [hadmits]
    dsimp only
    rw [BreakerSystem.move_of_state_eq hstate, hidle]
  refine (Reaches.step (by trivial) hexec).trans
    (Reaches.step (a := .complete s.calls outcome) (by trivial) ?_)
  simp [BreakerSystem.step, BreakerSystem.ended, afterCall, BreakerSystem.move]

/-- A closed breaker admits. -/
theorem admit_of_closed {cb : CircuitBreaker} {now : ℚ} (hs : cb.state = .CLOSED) :
    cb.admitCall cfg now = ({ cb with totalCalls := cb.totalCalls + 1 }, .ok ()) := by
  have hsame : cb.maybeTransitionToHalfOpen cfg now = cb :=
    if_neg fun hdue => by cases hs.symm.trans hdue.1
  unfold CircuitBreaker.admitCall
  rw [hsame]
  simp only [hs]

/-- An idle closed breaker can open: enough calls fail, one after the other. -/
theorem reaches_open (cfg : CircuitBreakerConfig) {n : ℕ} {s : BreakerSystem}
    (hs : s.breaker.state = .CLOSED) (hidle : s.outstanding = [])
    (hn : s.breaker.failureCount + n + 1 = cfg.failureThreshold) :
    ∃ t, Reaches cfg s t ∧ t.breaker.state = .OPEN ∧ t.outstanding = [] ∧
      t.breaker.openedAt = some t.now := by
  induction n generalizing s with
  | zero =>
    refine ⟨_, reaches_call hidle (admit_of_closed hs) rfl .raised, ?_⟩
    simp [afterCall, BreakerSystem.move, CircuitBreaker.settle, CircuitBreaker.recordFailure, hs,
      ← hn, CircuitBreaker.transitionTo]
  | succ n ih =>
    -- One more failure stays below the threshold, and `n` failures are left.
    have hbelow : ¬ cfg.failureThreshold ≤ s.breaker.failureCount + 1 := by omega
    obtain ⟨t, ht, hopen⟩ := ih
      (s := afterCall cfg s { s.breaker with totalCalls := s.breaker.totalCalls + 1 } .raised)
      (by simp [afterCall, BreakerSystem.move, CircuitBreaker.settle,
        CircuitBreaker.recordFailure, hs, hbelow])
      rfl
      (by
        simp [afterCall, BreakerSystem.move, CircuitBreaker.settle,
          CircuitBreaker.recordFailure, hs, hbelow]
        omega)
    exact ⟨t, (reaches_call hidle (admit_of_closed hs) rfl .raised).trans ht, hopen⟩

/-- A new breaker can become half open with no call outstanding. -/
theorem reaches_halfOpen (cfg : CircuitBreakerConfig) (name : String) (now : ℚ) :
    ∃ t, Reaches cfg (.init name now) t ∧ t.breaker.state = .HALF_OPEN ∧ t.outstanding = [] ∧
      t.breaker.halfOpenCallCount = 0 ∧ t.breaker.successCount = 0 := by
  have hpos := cfg.failureThreshold_pos
  obtain ⟨s, hs, hopen, hidle, hopened⟩ := reaches_open cfg
    (n := cfg.failureThreshold - 1) (s := .init name now) rfl rfl
    (by simp only [BreakerSystem.init]; omega)
  -- Once the circuit is open the clock runs for the timeout, and a reader sees it elapsed.
  let u : BreakerSystem := { s with now := s.now + cfg.recoveryTimeoutSeconds }
  have hadvance : BreakerSystem.step cfg s (.advance cfg.recoveryTimeoutSeconds) = some u :=
    if_pos cfg.recoveryTimeoutSeconds_pos.le
  have hread : BreakerSystem.step cfg u .readState = some (u.poll cfg) := rfl
  have hdue : u.breaker.RecoveryDue cfg u.now := ⟨hopen, s.now, hopened, by simp [u]⟩
  have hpoll : (u.poll cfg).breaker = u.breaker.transitionTo u.now .HALF_OPEN := if_pos hdue
  refine ⟨u.poll cfg, hs.trans ((Reaches.step (by trivial) hadvance).trans
    (Reaches.step (by trivial) hread)), ?_, hidle, ?_, ?_⟩
  · rw [hpoll]
    rfl
  · rw [hpoll]
    rfl
  · rw [hpoll]
    rfl

/-- A probe that does not fail leaves the circuit half open while its success is not the last that
is needed. -/
theorem settle_probe (cfg : CircuitBreakerConfig) (now : ℚ) {cb : CircuitBreaker} {o : CallOutcome}
    (hs : cb.state = .HALF_OPEN) (hraised : o ≠ .raised)
    (hthr : cb.successCount + [o].count .returned < cfg.successThreshold) :
    (cb.settle cfg now o).state = .HALF_OPEN ∧
      (cb.settle cfg now o).halfOpenCallCount = cb.halfOpenCallCount ∧
      (cb.settle cfg now o).successCount = cb.successCount + [o].count .returned := by
  cases o with
  | raised => exact absurd rfl hraised
  | returned =>
    have hbelow : ¬ cfg.successThreshold ≤ cb.successCount + 1 := not_le.mpr hthr
    simp [CircuitBreaker.settle, CircuitBreaker.recordSuccess, hs, hbelow]
  | interrupted => exact ⟨hs, rfl, rfl⟩

/-- Probes that run one after the other, none failing and too few of them succeeding to close the
circuit, use up a slot each. -/
theorem reaches_probes (cfg : CircuitBreakerConfig) (os : List CallOutcome) {s : BreakerSystem}
    (hs : s.breaker.state = .HALF_OPEN) (hidle : s.outstanding = [])
    (hroom : s.breaker.halfOpenCallCount + os.length ≤ cfg.halfOpenMaxCalls)
    (hraised : .raised ∉ os)
    (hthr : s.breaker.successCount + os.count .returned < cfg.successThreshold) :
    ∃ t, Reaches cfg s t ∧ t.breaker.state = .HALF_OPEN ∧ t.outstanding = [] ∧
      t.breaker.halfOpenCallCount = s.breaker.halfOpenCallCount + os.length := by
  induction os generalizing s with
  | nil => exact ⟨s, Reaches.refl s, hs, hidle, rfl⟩
  | cons o os ih =>
    rw [List.length_cons] at hroom ⊢
    rw [List.mem_cons, not_or] at hraised
    rw [← List.singleton_append, List.count_append] at hthr
    have hslot : s.breaker.halfOpenCallCount < cfg.halfOpenMaxCalls := by omega
    have hadmits := admit_of_slot s.now hs hslot
    generalize hcb : { s.breaker with halfOpenCallCount := s.breaker.halfOpenCallCount + 1,
                                      totalCalls := s.breaker.totalCalls + 1 } = cb at hadmits
    have hcb' : cb.state = s.breaker.state ∧
        cb.halfOpenCallCount = s.breaker.halfOpenCallCount + 1 ∧
        cb.successCount = s.breaker.successCount := by
      rw [← hcb]
      exact ⟨rfl, rfl, rfl⟩
    obtain ⟨hstate, hcount, hsucc⟩ := hcb'
    -- The probe ends, and leaves the window open with one slot fewer.
    have hsettle := settle_probe cfg s.now (hstate.trans hs)
      (Ne.symm hraised.1) (by omega)
    obtain ⟨hs', hcount', hsucc'⟩ :
      (afterCall cfg s cb o).breaker.state = .HALF_OPEN ∧
        (afterCall cfg s cb o).breaker.halfOpenCallCount = cb.halfOpenCallCount ∧
        (afterCall cfg s cb o).breaker.successCount =
          cb.successCount + [o].count .returned := hsettle
    obtain ⟨t, ht, hhalf, hidle', hfinal⟩ := ih (s := afterCall cfg s cb o) hs' rfl (by omega)
      hraised.2 (by omega)
    exact ⟨t, (reaches_call hidle hadmits hstate o).trans ht, hhalf, hidle', by omega⟩

/-- Under every configuration, as many probes as a window has slots wedge the breaker, when none
fails and fewer than `success_threshold` succeed: it is enough that one more is interrupted than
`slots_return` allows. -/
theorem interruptions_wedge (name : String) (now : ℚ) {os : List CallOutcome}
    (hlen : os.length = cfg.halfOpenMaxCalls) (hraised : .raised ∉ os)
    (hthr : os.count .returned < cfg.successThreshold) :
    ∃ s, Reaches cfg (.init name now) s ∧ Wedged cfg s := by
  obtain ⟨s, hs, hhalf, hidle, hcount, hsucc⟩ := reaches_halfOpen cfg name now
  obtain ⟨t, ht, hhalf', hidle', hcount'⟩ := reaches_probes cfg os hhalf hidle
    (by omega) hraised (by omega)
  exact ⟨t, hs.trans ht, hhalf', hidle', by omega⟩

/-- The interrupted probe keeps the only slot. -/
theorem interrupted_probe_wedges :
    (∀ a ∈ interruptedRun, a.IsExecution) ∧
    ∃ s, run (BreakerSystem.step singleProbe) (.init "payments" 0) interruptedRun = some s ∧
      s.breaker.state = .HALF_OPEN ∧ s.outstanding = [] ∧
      (s.breaker.admitCall singleProbe s.now).2 = .error ⟨"payments"⟩ ∧
      ¬ HasSlot singleProbe s := by
  refine ⟨by decide, ⟨⟨"payments", .HALF_OPEN, 0, 0, 1, some 0, 2, 0, 1, 0⟩, 1, 2, [],
    [.completed 1 .interrupted, .admitted 1, .entered .HALF_OPEN 1, .entered .OPEN 0,
      .completed 0 .raised, .admitted 0]⟩,
    by decide +kernel, rfl, rfl, rfl, fun h => ?_⟩
  exact absurd (h rfl rfl).1 (by decide)

end MeshRouter.Resilience
