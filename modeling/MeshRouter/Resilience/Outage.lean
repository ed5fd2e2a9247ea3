import Mathlib.Data.Rat.Floor
import Mathlib.Order.Bounds.Basic
import MeshRouter.Lib.Workload
import MeshRouter.Resilience.Admission
import MeshRouter.Resilience.RetriedBreaker

/-!
# What a circuit breaker lets through in an outage

While a service is down, every call that reaches it is a burden, and a breaker is there to keep the
calls away. Any number of threads call it, of which at most `width` are in a call at a time. How
many calls reach the service in an outage of a given duration, in the worst interleaving?

While the breaker is closed, each call that has failed brings it nearer to opening, but the calls
that are outstanding have got through already. Then it opens, and there is a window of probes each
time the recovery timeout has elapsed, in which the first failure ends the window. So `potential`
bounds the calls that can still get through before a deadline: a call that gets through lowers it by
one, and no other step raises it (`calls_add_potential_le`). The bound is reached
(`outage_load_exact`), by `width` calls that are always outstanding until the breaker opens, and a
full window of probes at the end of each recovery timeout.
-/

namespace MeshRouter.Resilience

open Lib

variable {cfg : CircuitBreakerConfig} {width : ℕ}

/-- In an outage every call ends in an exception, and nobody reports a success or resets the
breaker. A call is made while fewer than `width` are outstanding. -/
def Down (width : ℕ) (s : BreakerSystem) : BreakerAction → Prop
  | .execute => s.outstanding.length < width
  | .complete _ outcome => outcome = .raised
  | .recordSuccess | .reset => False
  | .recordFailure | .readState | .advance _ => True

/-! ## No more calls get through -/

/-- The probes that can get through before the deadline in the windows that are still to come, if
the breaker opened at the time. -/
def probesAhead (cfg : CircuitBreakerConfig) (width : ℕ) (deadline opened : ℚ) : ℕ :=
  ⌊(deadline - opened) / cfg.recoveryTimeoutSeconds⌋₊ * min cfg.halfOpenMaxCalls width

/-- The calls that can get through before the deadline. -/
def potential (cfg : CircuitBreakerConfig) (width : ℕ) (deadline : ℚ) (s : BreakerSystem) : ℕ :=
  match s.breaker.state with
  | .CLOSED =>
    s.breaker.room cfg - 1 + (width - s.outstanding.length) + probesAhead cfg width deadline s.now
  | .HALF_OPEN =>
    min (cfg.halfOpenMaxCalls - s.breaker.halfOpenCallCount) (width - s.outstanding.length) +
      probesAhead cfg width deadline s.now
  | .OPEN => probesAhead cfg width deadline (s.breaker.openedAt.getD s.now)

variable {deadline : ℚ} {s t : BreakerSystem}

theorem probesAhead_antitone {opened opened' : ℚ} (h : opened ≤ opened') :
    probesAhead cfg width deadline opened' ≤ probesAhead cfg width deadline opened := by
  unfold probesAhead
  refine Nat.mul_le_mul_right _ (Nat.floor_mono ?_)
  exact div_le_div_of_nonneg_right (sub_le_sub_left h _) cfg.recoveryTimeoutSeconds_pos.le

/-- A window is one of those to come when the breaker opened. -/
theorem probesAhead_window {opened now : ℚ} (hdue : cfg.recoveryTimeoutSeconds ≤ now - opened)
    (hnow : now ≤ deadline) :
    min cfg.halfOpenMaxCalls width + probesAhead cfg width deadline now ≤
      probesAhead cfg width deadline opened := by
  have hpos := cfg.recoveryTimeoutSeconds_pos
  have hnonneg : 0 ≤ (deadline - now) / cfg.recoveryTimeoutSeconds :=
    div_nonneg (sub_nonneg.mpr hnow) hpos.le
  have hfloor : ⌊(deadline - now) / cfg.recoveryTimeoutSeconds⌋₊ + 1 ≤
      ⌊(deadline - opened) / cfg.recoveryTimeoutSeconds⌋₊ := by
    rw [← Nat.floor_add_one hnonneg]
    refine Nat.floor_mono ?_
    rw [div_add_one hpos.ne']
    exact div_le_div_of_nonneg_right (by linarith) hpos.le
  unfold probesAhead
  calc min cfg.halfOpenMaxCalls width +
        ⌊(deadline - now) / cfg.recoveryTimeoutSeconds⌋₊ * min cfg.halfOpenMaxCalls width
      = (⌊(deadline - now) / cfg.recoveryTimeoutSeconds⌋₊ + 1) *
          min cfg.halfOpenMaxCalls width := by rw [Nat.succ_mul, Nat.add_comm]
    _ ≤ _ := Nat.mul_le_mul_right _ hfloor

/-- A look at the clock does not raise the potential. -/
theorem potential_poll_le (hnow : s.now ≤ deadline) :
    potential cfg width deadline (s.poll cfg) ≤ potential cfg width deadline s := by
  rcases BreakerSystem.poll_cases cfg s with he | ⟨⟨hopen, opened, hopened, hdue⟩, he⟩
  · rw [he]
  · rw [he]
    unfold potential
    rw [hopen]
    dsimp only [CircuitBreaker.transitionTo]
    rw [Option.mem_def.mp hopened, Option.getD_some, Nat.sub_zero]
    -- Of the width, what is outstanding does not help to fill the window.
    refine le_trans (Nat.add_le_add_right ?_ _) (probesAhead_window hdue hnow)
    exact min_le_min_left _ (Nat.sub_le _ _)

/-- A recorded failure does not raise the potential: in a closed breaker the call that has ended
makes room for another, but there is one failure less to go. -/
theorem potential_recordFailure_le {outstanding : List ℕ} {log : List BreakerEvent}
    (hended : s.outstanding.length ≤ outstanding.length + 1) :
    potential cfg width deadline { s with breaker := s.breaker.recordFailure cfg s.now,
                                          outstanding := outstanding, log := log } ≤
      potential cfg width deadline s := by
  rcases CircuitBreaker.recordFailure_cases cfg s.now s.breaker with
    ⟨hstate, hlt, he⟩ | ⟨hstate, he⟩ | ⟨hstate, he⟩
  · rw [he]
    unfold potential CircuitBreaker.room
    rw [hstate]
    dsimp only
    omega
  · rw [he]
    unfold potential
    rw [hstate]
  · -- The breaker opens now, and what is left are the windows to come.
    rw [he]
    have hopen : potential cfg width deadline
        { s with breaker := { s.breaker with state := .OPEN, openedAt := some s.now,
                                             failureCount := 0, successCount := 0,
                                             halfOpenCallCount := 0,
                                             totalFailures := s.breaker.totalFailures + 1 },
                 outstanding := outstanding, log := log } =
        probesAhead cfg width deadline s.now := rfl
    rw [hopen]
    unfold potential
    rcases hstate with hstate | ⟨hstate, -⟩
    · rw [hstate]
      exact Nat.le_add_left _ _
    · rw [hstate]
      exact Nat.le_add_left _ _

/-- A call that gets through lowers the potential, and no step raises it. -/
theorem calls_add_potential_le {a : BreakerAction} (hdown : Down width s a)
    (h : BreakerSystem.step cfg s a = some t) (hnow : t.now ≤ deadline) :
    t.calls + potential cfg width deadline t ≤ s.calls + potential cfg width deadline s := by
  cases a with
  | execute =>
    obtain ⟨p, hp, hcases⟩ := BreakerSystem.step_execute h
    have hroom : p.outstanding.length < width := by
      rw [← hp]
      exact hdown
    have hpoll : t.now ≤ deadline → potential cfg width deadline p ≤
        potential cfg width deadline s := by
      intro hnow
      rw [← hp]
      refine potential_poll_le ?_
      rcases hcases with ⟨-, rfl⟩ | ⟨-, -, rfl⟩ | rfl
      · rwa [← hp] at hnow
      · rwa [← hp] at hnow
      · rwa [← hp] at hnow
    have hpcalls : p.calls = s.calls := by
      rw [← hp]
      rfl
    refine le_trans ?_ (Nat.add_le_add hpcalls.le (hpoll hnow))
    rcases hcases with ⟨hstate, rfl⟩ | ⟨hstate, hquota, rfl⟩ | rfl
    · unfold potential CircuitBreaker.room
      rw [hstate]
      dsimp only
      rw [List.length_cons]
      omega
    · unfold potential
      rw [hstate]
      dsimp only
      rw [List.length_cons]
      omega
    · exact le_rfl
  | complete call outcome =>
    obtain ⟨hcall, rfl⟩ := BreakerSystem.step_complete h
    obtain rfl : outcome = .raised := hdown
    refine Nat.add_le_add_left (potential_recordFailure_le ?_) _
    rw [BreakerSystem.ended, List.length_erase_of_mem hcall]
    omega
  | recordSuccess => exact absurd hdown id
  | recordFailure =>
    obtain rfl := Option.some.inj h
    exact Nat.add_le_add_left (potential_recordFailure_le (Nat.le_succ _)) _
  | reset => exact absurd hdown id
  | readState =>
    obtain rfl := Option.some.inj h
    have hpoll : potential cfg width deadline (s.poll cfg) ≤ potential cfg width deadline s :=
      potential_poll_le hnow
    exact Nat.add_le_add_left hpoll _
  | advance seconds =>
    obtain ⟨hseconds, rfl⟩ := BreakerSystem.step_advance h
    refine Nat.add_le_add_left ?_ _
    have hless : probesAhead cfg width deadline (s.now + seconds) ≤
        probesAhead cfg width deadline s.now :=
      probesAhead_antitone (le_add_of_nonneg_right hseconds)
    unfold potential
    dsimp only
    cases hstate : s.breaker.state with
    | CLOSED => exact Nat.add_le_add_left hless _
    | HALF_OPEN => exact Nat.add_le_add_left hless _
    | OPEN =>
      dsimp only
      cases s.breaker.openedAt with
      | none => exact hless
      | some opened => exact le_rfl

/-- The clock does not run backwards. -/
theorem now_le_of_step {a : BreakerAction} (h : BreakerSystem.step cfg s a = some t) :
    s.now ≤ t.now := by
  cases a with
  | execute =>
    obtain ⟨p, hp, hcases⟩ := BreakerSystem.step_execute h
    have hpnow : s.now = p.now := by
      rw [← hp]
      rfl
    rcases hcases with ⟨-, rfl⟩ | ⟨-, -, rfl⟩ | rfl
    · exact hpnow.le
    · exact hpnow.le
    · exact hpnow.le
  | complete call outcome =>
    obtain ⟨-, rfl⟩ := BreakerSystem.step_complete h
    exact le_rfl
  | recordSuccess | recordFailure | reset | readState =>
    obtain rfl := Option.some.inj h
    exact le_rfl
  | advance seconds =>
    obtain ⟨hseconds, rfl⟩ := BreakerSystem.step_advance h
    exact le_add_of_nonneg_right hseconds

/-- In an outage, no more calls get through before the deadline than the potential says. -/
theorem calls_le_of_down {as : List BreakerAction}
    (hdown : Along (BreakerSystem.step cfg) (Down width) s as)
    (h : run (BreakerSystem.step cfg) s as = some t) (hnow : t.now ≤ deadline) :
    t.calls ≤ s.calls + potential cfg width deadline s := by
  have hgained : s.now ≤ deadline ∧ t.calls + potential cfg width deadline t ≤
      s.calls + potential cfg width deadline s :=
    gained_le (fun _ _ _ _ _ => trivial)
      (fun s a t (hst : BreakerSystem.step cfg s a = some t) _ ht => (now_le_of_step hst).trans ht)
      (fun _ _ _ _ hok hst ht => calls_add_potential_le hok hst ht) trivial hdown h hnow
  exact (Nat.le_add_right _ _).trans hgained.2

/-! ## As many calls get through -/

/-- In an outage the breaker can get from `s` to `t`, while `calls` calls get through and the time
`elapsed` passes. -/
def Leads (cfg : CircuitBreakerConfig) (width : ℕ) (calls : ℕ) (elapsed : ℚ)
    (s t : BreakerSystem) : Prop :=
  ∃ as, run (BreakerSystem.step cfg) s as = some t ∧
    Along (BreakerSystem.step cfg) (Down width) s as ∧ t.calls = s.calls + calls ∧
    t.now = s.now + elapsed

theorem Leads.refl (s : BreakerSystem) : Leads cfg width 0 0 s s :=
  ⟨[], rfl, trivial, rfl, (add_zero _).symm⟩

theorem Leads.trans {u : BreakerSystem} {m n k : ℕ} {x y z : ℚ} (h : Leads cfg width m x s t)
    (h' : Leads cfg width n y t u) (hk : m + n = k) (hz : x + y = z) :
    Leads cfg width k z s u := by
  obtain ⟨as, hst, hdown, hcalls, hnow⟩ := h
  obtain ⟨bs, htu, hdown', hcalls', hnow'⟩ := h'
  refine ⟨as ++ bs, run_trans hst htu, along_append hdown hst hdown', ?_, ?_⟩
  · rw [hcalls', hcalls, Nat.add_assoc, hk]
  · rw [hnow', hnow, add_assoc, hz]

/-- A step leads on. -/
theorem Leads.step {m : ℕ} {x : ℚ} (a : BreakerAction) (hdown : Down width s a)
    (h : BreakerSystem.step cfg s a = some t) (hcalls : t.calls = s.calls + m)
    (hnow : t.now = s.now + x) : Leads cfg width m x s t :=
  ⟨[a], run_singleton h, ⟨hdown, fun _ _ => trivial⟩, hcalls, hnow⟩

/-- The state after a call was admitted. -/
theorem step_execute_of_admitted {cb : CircuitBreaker}
    (h : s.breaker.admitCall cfg s.now = (cb, .ok ())) :
    BreakerSystem.step cfg s .execute =
      some { s.move cb with calls := s.calls + 1, outstanding := s.calls :: s.outstanding,
                            log := .admitted s.calls :: (s.move cb).log } := by
  simp only [BreakerSystem.step, h]

/-- A closed breaker lets a call through. -/
theorem leads_execute (hstate : s.breaker.state = .CLOSED) (hroom : s.outstanding.length < width) :
    ∃ t, Leads cfg width 1 0 s t ∧ t.breaker.state = .CLOSED ∧
      t.breaker.failureCount = s.breaker.failureCount ∧
      t.outstanding.length = s.outstanding.length + 1 := by
  have hpoll : s.breaker.maybeTransitionToHalfOpen cfg s.now = s.breaker := by
    unfold CircuitBreaker.maybeTransitionToHalfOpen
    refine if_neg fun hdue => ?_
    rw [hdue.1] at hstate
    cases hstate
  rcases CircuitBreaker.admit_cases s.breaker hpoll with ⟨-, he⟩ | ⟨hs, -⟩ | ⟨hs | ⟨hs, -⟩, -⟩
  · have hlead := Leads.step .execute hroom (step_execute_of_admitted he) rfl (add_zero _).symm
    exact ⟨_, hlead, hstate, rfl, rfl⟩
  · rw [hstate] at hs
    cases hs
  · rw [hstate] at hs
    cases hs
  · rw [hstate] at hs
    cases hs

/-- A half-open breaker lets a probe through while there is room. -/
theorem leads_probe (hstate : s.breaker.state = .HALF_OPEN)
    (hquota : s.breaker.halfOpenCallCount < cfg.halfOpenMaxCalls)
    (hroom : s.outstanding.length < width) :
    ∃ t, Leads cfg width 1 0 s t ∧ t.breaker.state = .HALF_OPEN ∧
      t.breaker.halfOpenCallCount = s.breaker.halfOpenCallCount + 1 ∧
      t.outstanding.length = s.outstanding.length + 1 := by
  have hpoll : s.breaker.maybeTransitionToHalfOpen cfg s.now = s.breaker := by
    unfold CircuitBreaker.maybeTransitionToHalfOpen
    refine if_neg fun hdue => ?_
    rw [hdue.1] at hstate
    cases hstate
  rcases CircuitBreaker.admit_cases s.breaker hpoll with
    ⟨hs, -⟩ | ⟨-, -, he⟩ | ⟨hs | ⟨-, hfull⟩, -⟩
  · rw [hstate] at hs
    cases hs
  · have hlead := Leads.step .execute hroom (step_execute_of_admitted he) rfl (add_zero _).symm
    exact ⟨_, hlead, hstate, rfl, rfl⟩
  · rw [hstate] at hs
    cases hs
  · exact absurd hfull (not_le.mpr hquota)

/-- An outstanding call can fail. -/
theorem leads_complete (hout : 0 < s.outstanding.length) :
    ∃ t, Leads cfg width 0 0 s t ∧ t.breaker = s.breaker.recordFailure cfg s.now ∧
      t.outstanding.length + 1 = s.outstanding.length := by
  obtain ⟨call, hcall⟩ := List.exists_mem_of_length_pos hout
  have hstep : BreakerSystem.step cfg s (.complete call .raised) =
      some ((s.ended call .raised).move (s.breaker.recordFailure cfg s.now)) := if_pos hcall
  refine ⟨_, Leads.step (.complete call .raised) rfl hstep rfl (add_zero _).symm, rfl, ?_⟩
  have hlength : ((s.ended call .raised).move (s.breaker.recordFailure cfg s.now)).outstanding =
      s.outstanding.erase call := rfl
  rw [hlength, List.length_erase_of_mem hcall]
  omega

/-- The calls that are outstanding when the breaker is open can all fail, which it does not note. -/
theorem leads_drain (hstate : s.breaker.state = .OPEN) :
    ∃ t, Leads cfg width 0 0 s t ∧ t.breaker.state = .OPEN ∧
      t.breaker.openedAt = s.breaker.openedAt ∧ t.outstanding = [] := by
  induction hn : s.outstanding.length generalizing s with
  | zero => exact ⟨s, Leads.refl s, hstate, rfl, List.length_eq_zero_iff.mp hn⟩
  | succ n ih =>
    obtain ⟨t, hlead, hbreaker, hout⟩ : ∃ t, Leads cfg width 0 0 s t ∧ _ ∧ _ :=
      leads_complete (by omega)
    obtain ⟨hopen, hopened⟩ : t.breaker.state = .OPEN ∧
        t.breaker.openedAt = s.breaker.openedAt := by
      rcases CircuitBreaker.recordFailure_cases cfg s.now s.breaker with
        ⟨hs, -⟩ | ⟨-, he⟩ | ⟨hs | ⟨hs, -⟩, -⟩
      · rw [hstate] at hs
        cases hs
      · rw [hbreaker, he]
        exact ⟨hstate, rfl⟩
      · rw [hstate] at hs
        cases hs
      · rw [hstate] at hs
        cases hs
    obtain ⟨u, hlead', hopen', hopened', hnone⟩ := ih hopen (by omega)
    refine ⟨u, ?_, hopen', hopened'.trans hopened, hnone⟩
    exact hlead.trans hlead' rfl (add_zero 0)

/-- Calls that get through a closed breaker one after the other. -/
theorem leads_fill (n : ℕ) (hstate : s.breaker.state = .CLOSED)
    (hroom : s.outstanding.length + n ≤ width) :
    ∃ t, Leads cfg width n 0 s t ∧ t.breaker.state = .CLOSED ∧
      t.breaker.failureCount = s.breaker.failureCount ∧
      t.outstanding.length = s.outstanding.length + n := by
  induction n generalizing s with
  | zero => exact ⟨s, Leads.refl s, hstate, rfl, rfl⟩
  | succ n ih =>
    obtain ⟨t, hlead, hclosed, hcount, hout⟩ : ∃ t, Leads cfg width 1 0 s t ∧ _ ∧ _ ∧ _ :=
      leads_execute hstate (by omega)
    obtain ⟨u, hlead', hclosed', hcount', hout'⟩ := ih hclosed (by omega)
    refine ⟨u, hlead.trans hlead' (Nat.add_comm 1 n) (add_zero 0), hclosed',
      hcount'.trans hcount, by omega⟩

/-- Probes that get through a half-open breaker one after the other. -/
theorem leads_probes (n : ℕ) (hstate : s.breaker.state = .HALF_OPEN)
    (hquota : s.breaker.halfOpenCallCount + n ≤ cfg.halfOpenMaxCalls)
    (hroom : s.outstanding.length + n ≤ width) :
    ∃ t, Leads cfg width n 0 s t ∧ t.breaker.state = .HALF_OPEN ∧
      t.outstanding.length = s.outstanding.length + n := by
  induction n generalizing s with
  | zero => exact ⟨s, Leads.refl s, hstate, rfl⟩
  | succ n ih =>
    obtain ⟨t, hlead, hhalf, hcount, hout⟩ : ∃ t, Leads cfg width 1 0 s t ∧ _ ∧ _ ∧ _ :=
      leads_probe hstate (by omega) (by omega)
    obtain ⟨u, hlead', hhalf', hout'⟩ := ih hhalf (by omega) (by omega)
    exact ⟨u, hlead.trans hlead' (Nat.add_comm 1 n) (add_zero 0), hhalf', by omega⟩

/-- While there are failures to go, each call that fails makes room for another. -/
theorem leads_strikes (n : ℕ) (hstate : s.breaker.state = .CLOSED) (hwidth : 1 ≤ width)
    (hout : s.outstanding.length = width) (hroom : n < s.breaker.room cfg) :
    ∃ t, Leads cfg width n 0 s t ∧ t.breaker.state = .CLOSED ∧
      t.breaker.room cfg + n = s.breaker.room cfg ∧ t.outstanding.length = width := by
  induction n generalizing s with
  | zero => exact ⟨s, Leads.refl s, hstate, rfl, hout⟩
  | succ n ih =>
    unfold CircuitBreaker.room at hroom
    obtain ⟨t, hlead, hbreaker, hended⟩ : ∃ t, Leads cfg width 0 0 s t ∧ _ ∧ _ :=
      leads_complete (by omega)
    obtain ⟨hclosed, hcount⟩ : t.breaker.state = .CLOSED ∧
        t.breaker.failureCount = s.breaker.failureCount + 1 := by
      rcases CircuitBreaker.recordFailure_cases cfg s.now s.breaker with
        ⟨-, -, he⟩ | ⟨hs, -⟩ | ⟨hs | ⟨-, hfull⟩, -⟩
      · rw [hbreaker, he]
        exact ⟨hstate, rfl⟩
      · rw [hstate] at hs
        cases hs
      · rw [hstate] at hs
        cases hs
      · omega
    obtain ⟨u, hlead', hclosed', hcount', hout'⟩ : ∃ u, Leads cfg width 1 0 t u ∧ _ ∧ _ ∧ _ :=
      leads_execute hclosed (by omega)
    obtain ⟨v, hlead'', hclosed'', hroom'', hout''⟩ := ih hclosed' (by omega) (by
      unfold CircuitBreaker.room
      omega)
    refine ⟨v, ?_, hclosed'', ?_, hout''⟩
    · exact (hlead.trans hlead' rfl rfl).trans hlead'' (by omega) (by norm_num)
    · unfold CircuitBreaker.room at hroom'' ⊢
      omega

/-- The failure that opens the breaker, and those of the calls that were outstanding with it. -/
theorem leads_open
    (hstate : s.breaker.state = .HALF_OPEN ∨
      s.breaker.state = .CLOSED ∧ s.breaker.room cfg ≤ 1)
    (hout : 0 < s.outstanding.length) :
    ∃ t, Leads cfg width 0 0 s t ∧ t.breaker.state = .OPEN ∧ t.breaker.openedAt = some t.now ∧
      t.outstanding = [] := by
  obtain ⟨t, hlead, hbreaker, -⟩ : ∃ t, Leads cfg width 0 0 s t ∧ _ ∧ _ := leads_complete hout
  obtain ⟨hopen, hopened⟩ : t.breaker.state = .OPEN ∧ t.breaker.openedAt = some s.now := by
    unfold CircuitBreaker.room at hstate
    rcases CircuitBreaker.recordFailure_cases cfg s.now s.breaker with
      ⟨hs, hlt, -⟩ | ⟨hs, -⟩ | ⟨-, he⟩
    · rcases hstate with hstate | ⟨-, hfull⟩
      · rw [hstate] at hs
        cases hs
      · omega
    · rcases hstate with hstate | ⟨hstate, -⟩
      · rw [hstate] at hs
        cases hs
      · rw [hstate] at hs
        cases hs
    · rw [hbreaker, he]
      exact ⟨rfl, rfl⟩
  obtain ⟨u, hlead', hopen', hopened', hnone⟩ : ∃ u, Leads cfg width 0 0 t u ∧ _ ∧ _ ∧ _ :=
    leads_drain hopen
  have hboth : Leads cfg width 0 0 s u := hlead.trans hlead' rfl (add_zero 0)
  refine ⟨u, hboth, hopen', ?_, hnone⟩
  obtain ⟨-, -, -, -, hnow⟩ := hboth
  rw [hopened', hopened, hnow, add_zero]

/-- A window after the recovery timeout, filled with probes that all fail. -/
theorem leads_window (hwidth : 1 ≤ width) (hstate : s.breaker.state = .OPEN)
    (hopened : s.breaker.openedAt = some s.now) (hout : s.outstanding = []) :
    ∃ t, Leads cfg width (min cfg.halfOpenMaxCalls width) cfg.recoveryTimeoutSeconds s t ∧
      t.breaker.state = .OPEN ∧ t.breaker.openedAt = some t.now ∧ t.outstanding = [] := by
  have hmax : 1 ≤ cfg.halfOpenMaxCalls := cfg.successThreshold_pos.trans cfg.successThreshold_le
  set later : BreakerSystem := { s with now := s.now + cfg.recoveryTimeoutSeconds } with hlater
  have hwait : Leads cfg width 0 cfg.recoveryTimeoutSeconds s later :=
    Leads.step (.advance cfg.recoveryTimeoutSeconds) trivial
      (if_pos cfg.recoveryTimeoutSeconds_pos.le) rfl rfl
  have hdue : later.breaker.RecoveryDue cfg later.now := by
    refine ⟨hstate, s.now, hopened, ?_⟩
    rw [hlater, add_sub_cancel_left]
  obtain ⟨p, hlook, hhalf, hcount, hpout⟩ : ∃ p, Leads cfg width 0 0 later p ∧
      p.breaker.state = .HALF_OPEN ∧ p.breaker.halfOpenCallCount = 0 ∧ p.outstanding = [] := by
    refine ⟨later.poll cfg, Leads.step .readState trivial rfl rfl (add_zero _).symm, ?_, ?_, hout⟩
    · unfold BreakerSystem.poll BreakerSystem.move CircuitBreaker.maybeTransitionToHalfOpen
      rw [if_pos hdue]
      rfl
    · unfold BreakerSystem.poll BreakerSystem.move CircuitBreaker.maybeTransitionToHalfOpen
      rw [if_pos hdue]
      rfl
  obtain ⟨t, hprobes, hhalf', hfull⟩ :
      ∃ t, Leads cfg width (min cfg.halfOpenMaxCalls width) 0 p t ∧ _ ∧ _ :=
    leads_probes _ hhalf (by omega) (by
      rw [hpout, List.length_nil]
      omega)
  obtain ⟨u, hfail, hopen⟩ : ∃ u, Leads cfg width 0 0 t u ∧ _ :=
    leads_open (Or.inl hhalf') (by
      rw [hfull, hpout, List.length_nil]
      omega)
  refine ⟨u, ?_, hopen⟩
  exact ((hwait.trans hlook rfl rfl).trans hprobes rfl rfl).trans hfail (by omega) (by ring)

/-- One window after the other. -/
theorem leads_windows (n : ℕ) (hwidth : 1 ≤ width) (hstate : s.breaker.state = .OPEN)
    (hopened : s.breaker.openedAt = some s.now) (hout : s.outstanding = []) :
    ∃ t, Leads cfg width (n * min cfg.halfOpenMaxCalls width) (n * cfg.recoveryTimeoutSeconds)
      s t := by
  induction n generalizing s with
  | zero => exact ⟨s, by simpa using Leads.refl s⟩
  | succ n ih =>
    obtain ⟨t, hlead, hopen, hopened', hnone⟩ :
        ∃ t, Leads cfg width (min cfg.halfOpenMaxCalls width) cfg.recoveryTimeoutSeconds s t ∧
          _ ∧ _ ∧ _ := leads_window hwidth hstate hopened hout
    obtain ⟨u, hlead'⟩ := ih hopen hopened' hnone
    refine ⟨u, hlead.trans hlead' ?_ ?_⟩
    · rw [Nat.succ_mul, Nat.add_comm]
    · push_cast
      ring

/-- In an outage, from any state that a breaker reaches and in which it is closed, of any number of
concurrent callers of which at most `width` are in a call at a time, the most calls that can reach
the service within a duration are: one less than the failures left to the threshold, and what is
left of the width at the start, and for each recovery timeout that fits in the duration as many as a
window admits and the width allows. No interleaving exceeds this, and one attains it. -/
theorem outage_load_exact {name : String} {start : ℚ} {before : List BreakerAction}
    (hreach : run (BreakerSystem.step cfg) (.init name start) before = some s)
    (hclosed : s.breaker.state = .CLOSED) (hwidth : 1 ≤ width)
    (hout : s.outstanding.length ≤ width) {duration : ℚ} (hduration : 0 ≤ duration) :
    IsGreatest {n | ∃ as t, run (BreakerSystem.step cfg) s as = some t ∧
        Along (BreakerSystem.step cfg) (Down width) s as ∧ t.now ≤ s.now + duration ∧
        t.calls = s.calls + n}
      (s.breaker.room cfg - 1 + (width - s.outstanding.length) +
        ⌊duration / cfg.recoveryTimeoutSeconds⌋₊ * min cfg.halfOpenMaxCalls width) := by
  have hvalid := (Tracked.run hreach).valid
  have hroom : 0 < s.breaker.room cfg := Nat.sub_pos_of_lt (hvalid.closed hclosed).1
  constructor
  · obtain ⟨t, hfill, hclosed', hcount, hfull⟩ :
        ∃ t, Leads cfg width (width - s.outstanding.length) 0 s t ∧ _ ∧ _ ∧ _ :=
      leads_fill _ hclosed (by omega)
    have hroom' : t.breaker.room cfg = s.breaker.room cfg := by
      unfold CircuitBreaker.room
      rw [hcount]
    obtain ⟨u, hstrikes, hclosed'', hlast, hfull'⟩ :
        ∃ u, Leads cfg width (s.breaker.room cfg - 1) 0 t u ∧ _ ∧ _ ∧ _ :=
      leads_strikes _ hclosed' hwidth (by omega) (by omega)
    obtain ⟨v, hopens, hopen, hopened, hnone⟩ : ∃ v, Leads cfg width 0 0 u v ∧ _ ∧ _ ∧ _ :=
      leads_open (Or.inr ⟨hclosed'', by omega⟩) (by omega)
    obtain ⟨w, hwindows⟩ : ∃ w, Leads cfg width _ _ v w :=
      leads_windows ⌊duration / cfg.recoveryTimeoutSeconds⌋₊ hwidth hopen hopened hnone
    obtain ⟨as, hrun, hdown, hcalls, hnow⟩ :=
      ((hfill.trans hstrikes rfl rfl).trans hopens rfl rfl).trans hwindows rfl rfl
    refine ⟨as, w, hrun, hdown, ?_, ?_⟩
    · rw [hnow]
      have hfloor := Nat.floor_le (div_nonneg hduration cfg.recoveryTimeoutSeconds_pos.le)
      rw [le_div_iff₀ cfg.recoveryTimeoutSeconds_pos] at hfloor
      linarith
    · rw [hcalls]
      omega
  · rintro n ⟨as, t, hrun, hdown, hnow, hcalls⟩
    have hle := calls_le_of_down hdown hrun hnow
    have hpotential : potential cfg width (s.now + duration) s = s.breaker.room cfg - 1 +
        (width - s.outstanding.length) + ⌊duration / cfg.recoveryTimeoutSeconds⌋₊ *
          min cfg.halfOpenMaxCalls width := by
      unfold potential probesAhead
      rw [hclosed, add_sub_cancel_left]
    omega

/-- A new breaker that opens at the second failure, with three callers, in an outage of a minute. -/
theorem outage_load_exact_twoStrikes :
    IsGreatest {n | ∃ as t, run (BreakerSystem.step twoStrikes) (.init "backend" 0) as = some t ∧
        Along (BreakerSystem.step twoStrikes) (Down 3) (.init "backend" 0) as ∧ t.now ≤ 0 + 60 ∧
        t.calls = 0 + n}
      (2 - 0 - 1 + (3 - 0) + ⌊(60 : ℚ) / 30.0⌋₊ * min 1 3) :=
  outage_load_exact (show run (BreakerSystem.step twoStrikes) (.init "backend" 0) [] = _ from rfl)
    rfl (by decide) (by decide) (by norm_num)

end MeshRouter.Resilience
