import MeshRouter.Backpressure.Throttle

/-!
# Waiting for tokens

`acquire_async` of `backpressure/throttle.py`: a loop that tries to take tokens, gives up at its
deadline, and otherwise sleeps for ten milliseconds. While it sleeps, others use the throttle in any
way, other waiting calls included.

Others can take what the bucket gains, so there is no bound on the number of polls as such. But a
poll that finds that nobody was granted tokens since the poll before is quiet, and there are few of
these: between two polls the bucket gains what the minimum rate gives in ten milliseconds, unless it
is full, and then the poll succeeds. `acquireAsync_waits` bounds the quiet polls by the tokens that
are asked for and those that others were granted meanwhile (`Pending.short`). A call that waits
alone returns after as many polls as it takes to fill in the tokens at the minimum rate.
-/

namespace MeshRouter.Backpressure

open Lib
open ThrottleSystem (slowThrottle)

/-- How long a waiting call sleeps: ten milliseconds. -/
def pause : ℚ := 1 / 100

theorem pause_pos : 0 < pause := by decide +kernel

/-- The rate under full pressure. -/
def ThrottleConfig.minRate (cfg : ThrottleConfig) : ℚ := cfg.baseRate * cfg.minRateFraction

/-- One turn of the loop of `acquire_async`: what it returns, unless it is to sleep. The clock is
read for the refill, and again for the deadline. -/
def AdaptiveThrottle.poll (cfg : ThrottleConfig) (th : AdaptiveThrottle) (tokens : ℚ)
    (deadline : Option ℚ) (now pressureScore checkedAt : ℚ) : Option Bool × AdaptiveThrottle :=
  match th.tryAcquire cfg tokens now pressureScore with
  | (true, th) => (some true, th)
  | (false, th) => (if ∃ d ∈ deadline, d ≤ checkedAt then some false else none, th)

/-- A call of `acquire_async` on a throttle that others use as well. -/
structure AsyncCall where
  system : ThrottleSystem
  deadline : Option ℚ
  result : Option Bool := none
  lastPoll : Option ℚ := none
  /-- The last reading of the clock for the deadline. -/
  checkedAt : Option ℚ := none
  /-- Somebody else was granted tokens since the last poll. -/
  disturbed : Bool := false
  /-- The polls, after the first, with nobody else granted tokens since the one before. -/
  quietPolls : ℕ := 0
  othersGranted : ℚ := 0

/-- The call starts, with a timeout or without one. -/
def AsyncCall.start (system : ThrottleSystem) (timeout : Option ℚ) (started : ℚ) : AsyncCall where
  system := system
  deadline := timeout.map (started + ·)

/-- What happens while the call waits. -/
inductive AsyncAction where
  | poll (now pressureScore checkedAt : ℚ)
  | other (call : ThrottleCall)

/-- The action is a poll. -/
def AsyncAction.IsPoll : AsyncAction → Prop
  | .poll _ _ _ => True
  | .other _ => False

/-- What a call is granted, if it is. -/
def ThrottleSystem.grants (cfg : ThrottleConfig) (s : ThrottleSystem) : ThrottleCall → Option ℚ
  | .tryAcquire tokens now pressureScore =>
    if (s.throttle.tryAcquire cfg tokens now pressureScore).1 then some tokens else none
  | .availableTokens _ _ => none

/-- The next poll is a quiet one, if it is due before others are granted tokens. -/
def AsyncCall.isQuiet (s : AsyncCall) : Bool := !s.disturbed && s.lastPoll.isSome

/-- A poll that is due, or what others do. -/
def asyncStep (cfg : ThrottleConfig) (tokens : ℚ) (s : AsyncCall) : AsyncAction → Option AsyncCall
  | .poll now pressureScore checkedAt =>
    if s.result = none ∧ ∀ last ∈ s.lastPoll, last + pause ≤ now then
      (s.system.step cfg (.tryAcquire tokens now pressureScore)).map fun system =>
        { s with
          system := system
          result :=
            (s.system.throttle.poll cfg tokens s.deadline now pressureScore checkedAt).1
          lastPoll := some now
          checkedAt := some checkedAt
          disturbed := false
          quietPolls := s.quietPolls + if s.isQuiet then 1 else 0 }
    else
      none
  | .other call =>
    (s.system.step cfg call).map fun system =>
      match s.system.grants cfg call with
      | some granted =>
        { s with
          system := system
          disturbed := true
          othersGranted := s.othersGranted + granted }
      | none => { s with system := system }

/-- The sum of all that was granted. -/
def ThrottleSystem.totalGranted (s : ThrottleSystem) : ℚ := (s.granted.map Prod.snd).sum

variable {cfg : ThrottleConfig}

namespace ThrottleSystem

variable {s t : ThrottleSystem} {call : ThrottleCall}

/-- What a call does to the throttle: it refills it, and takes what it is granted. -/
structure Served (cfg : ThrottleConfig) (s t : ThrottleSystem) (granted : Option ℚ) : Prop where
  later : s.throttle.lastRefill ≤ t.throttle.lastRefill
  refilled : min cfg.bucketCapacity
      (s.throttle.tokens + cfg.minRate * (t.throttle.lastRefill - s.throttle.lastRefill)) ≤
    t.throttle.tokens + granted.getD 0
  total : t.totalGranted = s.totalGranted + granted.getD 0
  nonneg : 0 ≤ granted.getD 0

/-- The tokens after a refill. -/
theorem min_le_tokens_refill {now : ℚ} (hnow : s.throttle.lastRefill ≤ now) (pressureScore : ℚ) :
    min cfg.bucketCapacity
        (s.throttle.tokens + cfg.minRate * (now - s.throttle.lastRefill)) ≤
      (s.throttle.refill cfg now pressureScore).tokens := by
  have hrate : cfg.minRate ≤ AdaptiveThrottle.computeRate cfg
      (if cfg.monitored then pressureScore else 0) := AdaptiveThrottle.le_computeRate _
  have hgain := mul_le_mul_of_nonneg_left hrate (sub_nonneg.mpr hnow)
  unfold AdaptiveThrottle.refill
  dsimp only
  refine min_le_min_left _ ?_
  linarith

/-- A call serves. -/
theorem step_served (hst : s.step cfg call = some t) : Served cfg s t (s.grants cfg call) := by
  cases call with
  | tryAcquire tokens now pressureScore =>
    dsimp only [step] at hst
    split at hst
    case isFalse => cases hst
    rename_i hcall
    obtain ⟨htokens, hnow, -⟩ := hcall
    obtain rfl := Option.some.inj hst
    have hrefill : min cfg.bucketCapacity
        (s.throttle.tokens + cfg.minRate * (now - s.throttle.lastRefill)) ≤
          (s.throttle.refill cfg now pressureScore).tokens :=
      min_le_tokens_refill hnow pressureScore
    dsimp only [grants]
    rcases s.throttle.tryAcquire_cases cfg tokens now pressureScore with ⟨-, heq⟩ | heq
    · rw [heq]
      refine ⟨hnow, ?_, ?_, htokens⟩
      · exact hrefill.trans_eq (sub_add_cancel _ tokens).symm
      · exact (List.sum_cons).trans (add_comm tokens _)
    · rw [heq]
      exact ⟨hnow, hrefill.trans_eq (add_zero _).symm, (add_zero _).symm, le_rfl⟩
  | availableTokens now pressureScore =>
    dsimp only [step] at hst
    split_ifs at hst with hcall
    obtain rfl := Option.some.inj hst
    exact ⟨hcall.1, (min_le_tokens_refill hcall.1 pressureScore).trans_eq (add_zero _).symm,
      (add_zero _).symm, le_rfl⟩

/-- The throttle after a call of `try_acquire`, which has just been refilled. -/
theorem step_tryAcquire {tokens now pressureScore : ℚ}
    (hst : s.step cfg (.tryAcquire tokens now pressureScore) = some t) :
    t.throttle = (s.throttle.tryAcquire cfg tokens now pressureScore).2 ∧
      t.throttle.lastRefill = now := by
  dsimp only [step] at hst
  split at hst
  case isFalse => cases hst
  obtain rfl := Option.some.inj hst
  refine ⟨rfl, ?_⟩
  rcases s.throttle.tryAcquire_cases cfg tokens now pressureScore with ⟨-, heq⟩ | heq
  · exact congrArg (fun result => result.2.lastRefill) heq
  · exact congrArg (fun result => result.2.lastRefill) heq

end ThrottleSystem

namespace AsyncCall

variable {tokens : ℚ} {s t : AsyncCall}

/-- What the quiet polls have gained at least. -/
def gain (cfg : ThrottleConfig) (s : AsyncCall) : ℚ := s.quietPolls * (cfg.minRate * pause)

/-- While a call waits, the quiet polls are accounted for by the tokens in the bucket and those that
others were granted, and so is the time since the last poll, as long as it is quiet and the bucket
is not full. -/
structure Pending (cfg : ThrottleConfig) (tokens : ℚ) (s : AsyncCall) : Prop where
  gained : s.gain cfg ≤ s.system.throttle.tokens + s.othersGranted
  quiet : s.disturbed = false → ∀ last ∈ s.lastPoll,
    min cfg.bucketCapacity
        (s.gain cfg - s.othersGranted + cfg.minRate * (s.system.throttle.lastRefill - last)) ≤
      s.system.throttle.tokens
  short : s.gain cfg ≤ tokens + s.othersGranted

/-- The invariant of a call. -/
structure Waiting (cfg : ThrottleConfig) (tokens : ℚ) (s : AsyncCall) : Prop where
  bounded : TokenBucket.Bounded cfg.bucketCapacity cfg.baseRate s.system.bucket
  pending : s.result = none → tokens ≤ cfg.bucketCapacity → s.Pending cfg tokens
  acquired : s.result = some true → tokens ≤ cfg.bucketCapacity
  expired : s.result = some false → ∃ d ∈ s.deadline, ∃ now ∈ s.checkedAt, d ≤ now

/-- The minimum rate is positive. -/
theorem minRate_pos (cfg : ThrottleConfig) : 0 < cfg.minRate :=
  mul_pos cfg.baseRate_pos cfg.minRateFraction_pos

/-- A refill lowers nothing. -/
theorem tokens_le_refilled (h : s.system.throttle.tokens ≤ cfg.bucketCapacity)
    {system : ThrottleSystem} {granted : Option ℚ}
    (hserved : ThrottleSystem.Served cfg s.system system granted) :
    s.system.throttle.tokens ≤ system.throttle.tokens + granted.getD 0 := by
  have hgain : 0 ≤ cfg.minRate * (system.throttle.lastRefill - s.system.throttle.lastRefill) :=
    mul_nonneg (minRate_pos cfg).le (sub_nonneg.mpr hserved.later)
  exact (le_min h (by linarith)).trans hserved.refilled

/-- As long as it is quiet, a refill adds up with what the bucket gained since the last poll. -/
theorem Pending.refilled (h : s.Pending cfg tokens) (hquiet : s.disturbed = false) {last : ℚ}
    (hlast : last ∈ s.lastPoll) {system : ThrottleSystem}
    (hserved : ThrottleSystem.Served cfg s.system system none) :
    min cfg.bucketCapacity
        (s.gain cfg - s.othersGranted + cfg.minRate * (system.throttle.lastRefill - last)) ≤
      system.throttle.tokens := by
  have hgain : 0 ≤ cfg.minRate * (system.throttle.lastRefill - s.system.throttle.lastRefill) :=
    mul_nonneg (minRate_pos cfg).le (sub_nonneg.mpr hserved.later)
  have hrefilled := hserved.refilled
  rw [Option.getD_none, add_zero] at hrefilled
  refine le_trans (le_min (min_le_left _ _) ?_) hrefilled
  rcases min_le_iff.mp (h.quiet hquiet last hlast) with hfull | hless
  · exact (min_le_left _ _).trans (by linarith)
  · refine (min_le_right _ _).trans ?_
    have hsplit : cfg.minRate * (system.throttle.lastRefill - last) =
        cfg.minRate * (system.throttle.lastRefill - s.system.throttle.lastRefill) +
          cfg.minRate * (s.system.throttle.lastRefill - last) := by ring
    linarith

/-- What others do keeps the invariant. -/
theorem Waiting.other (h : Waiting cfg tokens s) {call : ThrottleCall}
    (hst : asyncStep cfg tokens s (.other call) = some t) : Waiting cfg tokens t := by
  obtain ⟨system, hsystem, ht⟩ := Option.map_eq_some_iff.mp hst
  have hserved := ThrottleSystem.step_served hsystem
  have hbounded := ThrottleSystem.step_bounded h.bounded hsystem
  have hkept := tokens_le_refilled h.bounded.level_le hserved
  have hnonneg := hserved.nonneg
  generalize s.system.grants cfg call = granted at *
  cases granted with
  | some granted =>
    obtain rfl := ht
    rw [Option.getD_some] at hkept hnonneg
    refine ⟨hbounded, fun hresult hfits => ⟨?_, nofun, ?_⟩, h.acquired, h.expired⟩
    · have hgained := (h.pending hresult hfits).gained
      change s.gain cfg ≤ system.throttle.tokens + (s.othersGranted + granted)
      linarith
    · have hshort := (h.pending hresult hfits).short
      change s.gain cfg ≤ tokens + (s.othersGranted + granted)
      linarith
  | none =>
    obtain rfl := ht
    rw [Option.getD_none, add_zero] at hkept
    refine ⟨hbounded, fun hresult hfits => ⟨?_, fun hquiet last hlast => ?_, ?_⟩, h.acquired,
      h.expired⟩
    · have hgained := (h.pending hresult hfits).gained
      change s.gain cfg ≤ system.throttle.tokens + s.othersGranted
      linarith
    · exact (h.pending hresult hfits).refilled hquiet hlast hserved
    · exact (h.pending hresult hfits).short

/-- A poll returns if the tokens are there, or at the deadline. -/
theorem poll_cases (cfg : ThrottleConfig) (th : AdaptiveThrottle) (tokens : ℚ)
    (deadline : Option ℚ) (now pressureScore checkedAt : ℚ) :
    (tokens ≤ (th.refill cfg now pressureScore).tokens ∧
      (th.tryAcquire cfg tokens now pressureScore).1 = true ∧
      (th.poll cfg tokens deadline now pressureScore checkedAt).1 = some true) ∨
    ((th.tryAcquire cfg tokens now pressureScore).2.tokens < tokens ∧
      (th.tryAcquire cfg tokens now pressureScore).1 = false ∧
      (th.poll cfg tokens deadline now pressureScore checkedAt).1 =
        if ∃ d ∈ deadline, d ≤ checkedAt then some false else none) := by
  unfold AdaptiveThrottle.poll AdaptiveThrottle.tryAcquire
  dsimp only
  by_cases hle : tokens ≤ (th.refill cfg now pressureScore).tokens
  · rw [if_pos hle]
    exact .inl ⟨hle, rfl, rfl⟩
  · rw [if_neg hle]
    exact .inr ⟨not_le.mp hle, rfl, rfl⟩

/-- A failed poll has gained what the minimum rate gives while the call sleeps, if it is quiet. -/
theorem Pending.polled (h : s.Pending cfg tokens) (hfits : tokens ≤ cfg.bucketCapacity) {now : ℚ}
    (hpause : ∀ last ∈ s.lastPoll, last + pause ≤ now) {system : ThrottleSystem}
    (hlevel : s.system.throttle.tokens ≤ system.throttle.tokens)
    (hserved : ThrottleSystem.Served cfg s.system system none)
    (hnow : system.throttle.lastRefill = now) (hlt : system.throttle.tokens < tokens) :
    ((s.quietPolls + if s.isQuiet then 1 else 0 : ℕ) : ℚ) * (cfg.minRate * pause) ≤
      system.throttle.tokens + s.othersGranted := by
  have hgained := h.gained
  unfold gain at hgained
  by_cases hquiet : s.isQuiet
  · obtain ⟨hundisturbed, hpolled⟩ := Bool.and_eq_true_iff.mp hquiet
    obtain ⟨last, hlast⟩ := Option.isSome_iff_exists.mp hpolled
    have hroom := h.refilled (by simpa using hundisturbed) hlast hserved
    rw [hnow] at hroom
    have hslept := mul_le_mul_of_nonneg_left (le_sub_iff_add_le'.mpr (hpause last hlast))
      (minRate_pos cfg).le
    rw [if_pos hquiet, Nat.cast_succ]
    rcases min_le_iff.mp hroom with hfull | hless
    · exact absurd hlt (not_lt.mpr (hfits.trans hfull))
    · unfold gain at hless
      linarith
  · rw [if_neg hquiet, Nat.add_zero]
    linarith

/-- A poll that fails goes on, or gives up at the deadline. -/
theorem Waiting.poll (h : Waiting cfg tokens s) {now pressureScore checkedAt : ℚ}
    (hst : asyncStep cfg tokens s (.poll now pressureScore checkedAt) = some t) :
    Waiting cfg tokens t := by
  dsimp only [asyncStep] at hst
  split at hst
  case isFalse => cases hst
  rename_i hdue
  obtain ⟨hwaiting, hpause⟩ := hdue
  obtain ⟨system, hsystem, ht⟩ := Option.map_eq_some_iff.mp hst
  have hserved := ThrottleSystem.step_served hsystem
  have hbounded := ThrottleSystem.step_bounded h.bounded hsystem
  obtain rfl := ht
  rcases poll_cases cfg s.system.throttle tokens s.deadline now pressureScore checkedAt with
    ⟨hle, -, hresult⟩ | ⟨hlt, hrejected, hresult⟩
  · have hfits : tokens ≤ cfg.bucketCapacity := hle.trans (min_le_left _ _)
    refine ⟨hbounded, fun hnone => ?_, fun _ => hfits, fun hfalse => ?_⟩
    · exact absurd (hresult.symm.trans hnone) (by simp)
    · exact absurd (hresult.symm.trans hfalse) (by simp)
  · have hgrants : s.system.grants cfg (.tryAcquire tokens now pressureScore) = none :=
      if_neg (ne_of_eq_of_ne hrejected Bool.false_ne_true)
    rw [hgrants] at hserved
    have hkept := tokens_le_refilled h.bounded.level_le hserved
    rw [Option.getD_none, add_zero] at hkept
    obtain ⟨hthrottle, hnow⟩ := ThrottleSystem.step_tryAcquire hsystem
    rw [← hthrottle] at hlt
    refine ⟨hbounded, fun _ hfits => ?_, fun htrue => ?_, fun hfalse => ?_⟩
    · have hpending := h.pending hwaiting hfits
      have hgained := hpending.polled hfits hpause hkept hserved hnow hlt
      refine ⟨hgained, fun _ last hlast => ?_, ?_⟩
      · obtain rfl := Option.some.inj hlast
        refine (min_le_right _ _).trans ?_
        dsimp only
        rw [hnow, sub_self, mul_zero, add_zero]
        exact sub_le_iff_le_add.mpr hgained
      · exact hgained.trans (by linarith)
    · exact absurd (hresult.symm.trans htrue) (by split_ifs <;> simp)
    · have hgaveUp : (if ∃ d ∈ s.deadline, d ≤ checkedAt then some false else none) =
          some false := hresult.symm.trans hfalse
      split_ifs at hgaveUp with hdeadline
      obtain ⟨d, hd, hle⟩ := hdeadline
      exact ⟨d, hd, checkedAt, rfl, hle⟩

/-- A step of anybody keeps the invariant. -/
theorem Waiting.step (h : Waiting cfg tokens s) {a : AsyncAction}
    (hst : asyncStep cfg tokens s a = some t) : Waiting cfg tokens t := by
  cases a with
  | poll now pressureScore checkedAt => exact h.poll hst
  | other call => exact h.other hst

/-- What was granted since the start of the call: its tokens, if it returned `True`, and what others
were granted. -/
def Settled (tokens : ℚ) (before : ℚ) (s : AsyncCall) : Prop :=
  s.system.totalGranted =
    before + s.othersGranted + if s.result = some true then tokens else 0

/-- A step settles what it grants. -/
theorem Settled.step {before : ℚ} (h : Settled tokens before s) {a : AsyncAction}
    (hst : asyncStep cfg tokens s a = some t) : Settled tokens before t := by
  unfold Settled at h ⊢
  cases a with
  | poll now pressureScore checkedAt =>
    dsimp only [asyncStep] at hst
    split at hst
    case isFalse => cases hst
    rename_i hdue
    obtain ⟨system, hsystem, ht⟩ := Option.map_eq_some_iff.mp hst
    have htotal := (ThrottleSystem.step_served hsystem).total
    obtain rfl := ht
    rw [hdue.1, if_neg (by simp), add_zero] at h
    dsimp only
    rcases poll_cases cfg s.system.throttle tokens s.deadline now pressureScore checkedAt with
      ⟨-, hacquired, hresult⟩ | ⟨-, hrejected, hresult⟩
    · have hgrants : s.system.grants cfg (.tryAcquire tokens now pressureScore) = some tokens :=
        if_pos hacquired
      rw [hgrants, Option.getD_some, h] at htotal
      rw [hresult, if_pos rfl, htotal]
    · have hgrants : s.system.grants cfg (.tryAcquire tokens now pressureScore) = none :=
        if_neg (ne_of_eq_of_ne hrejected Bool.false_ne_true)
      rw [hgrants, Option.getD_none, add_zero, h] at htotal
      have hreturned : (s.system.throttle.poll cfg tokens s.deadline now pressureScore
          checkedAt).1 ≠ some true := by
        rw [hresult]
        split_ifs <;> simp
      rw [if_neg hreturned, htotal, add_zero]
  | other call =>
    obtain ⟨system, hsystem, ht⟩ := Option.map_eq_some_iff.mp hst
    have htotal := (ThrottleSystem.step_served hsystem).total
    generalize s.system.grants cfg call = granted at ht htotal
    cases granted with
    | some granted =>
      obtain rfl := ht
      dsimp only
      rw [htotal, h, Option.getD_some]
      ring
    | none =>
      obtain rfl := ht
      dsimp only
      rw [htotal, h, Option.getD_none, add_zero]

/-- A call that starts on a throttle that has been used in any way. -/
theorem waiting_start {start : ℚ} {calls : List ThrottleCall} {system : ThrottleSystem}
    (hreached : run (ThrottleSystem.step cfg) (.init cfg start) calls = some system)
    (htokens : 0 ≤ tokens) (timeout : Option ℚ) (started : ℚ) :
    Waiting cfg tokens (.start system timeout started) := by
  have hbounded : TokenBucket.Bounded cfg.bucketCapacity cfg.baseRate system.bucket :=
    run_induction (I := fun s => TokenBucket.Bounded cfg.bucketCapacity cfg.baseRate s.bucket)
      (fun _ _ _ hI hst => ThrottleSystem.step_bounded hI hst)
      (.full cfg.bucketCapacity_pos.le cfg.baseRate_pos.le start) hreached
  have hgain : gain cfg (.start system timeout started) = 0 := zero_mul _
  refine ⟨hbounded, fun _ _ => ⟨?_, nofun, ?_⟩, nofun, nofun⟩
  · rw [hgain]
    exact add_nonneg hbounded.nonneg le_rfl
  · rw [hgain]
    exact add_nonneg htokens le_rfl

/-- A call that nobody disturbs polls quietly after the first time. -/
theorem quietPolls_of_alone {actions : List AsyncAction} (halone : ∀ a ∈ actions, a.IsPoll)
    (hquiet : s.disturbed = false) (h : run (asyncStep cfg tokens) s actions = some t) :
    t.othersGranted = s.othersGranted ∧
      s.quietPolls + actions.length ≤ t.quietPolls + if s.lastPoll.isSome then 0 else 1 := by
  induction actions generalizing s with
  | nil =>
    obtain rfl := Option.some.inj h
    exact ⟨rfl, Nat.le_add_right _ _⟩
  | cons a actions ih =>
    obtain ⟨u, hsu, hut⟩ := run_cons.mp h
    obtain ⟨hpoll, hrest⟩ := List.forall_mem_cons.mp halone
    cases a with
    | other call => exact hpoll.elim
    | poll now pressureScore checkedAt =>
      dsimp only [asyncStep] at hsu
      split at hsu
      case isFalse => cases hsu
      obtain ⟨system, -, rfl⟩ := Option.map_eq_some_iff.mp hsu
      obtain ⟨hothers, hpolls⟩ := ih hrest rfl hut
      have hfirst : s.isQuiet = s.lastPoll.isSome := by
        rw [isQuiet, hquiet]
        rfl
      refine ⟨hothers, ?_⟩
      rw [List.length_cons]
      rw [hfirst, Option.isSome_some, if_pos rfl] at hpolls
      dsimp only at hpolls
      split_ifs at hpolls ⊢
      · omega
      · omega

end AsyncCall

/-- A call of `acquire_async`, on a throttle in any state, that polls at least ten milliseconds
apart, with any calls of others in between and under any pressure: while it waits for no more than
the bucket can hold, the quiet polls together have gained at most its tokens and those that others
were granted, so that without others it polls at most once more than the minimum rate takes to give
the tokens; it returns `True` only for an amount that the bucket can hold, and is granted this
amount once; and it returns `False` only after its deadline, and is granted nothing. -/
theorem acquireAsync_waits {start : ℚ} {calls : List ThrottleCall} {system : ThrottleSystem}
    (hreached : run (ThrottleSystem.step cfg) (.init cfg start) calls = some system)
    {tokens : ℚ} (htokens : 0 ≤ tokens) {timeout : Option ℚ} {started : ℚ}
    {actions : List AsyncAction} {s : AsyncCall}
    (h : run (asyncStep cfg tokens) (.start system timeout started) actions = some s) :
    (s.result = none → tokens ≤ cfg.bucketCapacity →
      s.quietPolls * (cfg.minRate * pause) ≤ tokens + s.othersGranted ∧
      ((∀ a ∈ actions, a.IsPoll) → (actions.length - 1) * (cfg.minRate * pause) ≤ tokens)) ∧
    (s.result = some true → tokens ≤ cfg.bucketCapacity) ∧
    (s.result = some false → ∃ d ∈ s.deadline, ∃ now ∈ s.checkedAt, d ≤ now) ∧
    s.system.totalGranted = system.totalGranted + s.othersGranted +
      if s.result = some true then tokens else 0 := by
  have hwaiting : s.Waiting cfg tokens :=
    run_induction (fun _ _ _ hs hst => hs.step hst)
      (AsyncCall.waiting_start hreached htokens timeout started) h
  have hsettled : s.Settled tokens system.totalGranted := by
    refine run_induction (fun _ _ _ hs hst => AsyncCall.Settled.step hs hst) ?_ h
    change system.totalGranted = system.totalGranted + 0 + 0
    rw [add_zero, add_zero]
  refine ⟨fun hresult hfits => ?_, hwaiting.acquired, hwaiting.expired, hsettled⟩
  have hshort : s.quietPolls * (cfg.minRate * pause) ≤ tokens + s.othersGranted :=
    (hwaiting.pending hresult hfits).short
  refine ⟨hshort, fun halone => ?_⟩
  obtain ⟨hothers, hpolls⟩ := AsyncCall.quietPolls_of_alone halone rfl h
  change s.othersGranted = 0 at hothers
  change 0 + actions.length ≤ s.quietPolls + 1 at hpolls
  have hcount : (actions.length : ℚ) - 1 ≤ s.quietPolls := by
    have hcast : ((0 + actions.length : ℕ) : ℚ) ≤ ((s.quietPolls + 1 : ℕ) : ℚ) :=
      Nat.cast_le.mpr hpolls
    push_cast at hcast
    linarith
  have hgain : 0 ≤ cfg.minRate * pause := mul_nonneg (AsyncCall.minRate_pos cfg).le pause_pos.le
  have hscaled := mul_le_mul_of_nonneg_right hcount hgain
  rw [hothers, add_zero] at hshort
  exact hscaled.trans hshort

/-- A call for one token of an empty bucket, which another takes a part of before it is there. -/
def disturbedOnce : List AsyncAction :=
  [.poll 0 0 0, .other (.tryAcquire (1 / 4) (1 / 2) 1), .poll 1 1 1, .poll 3 1 3]

/-- `acquireAsync_waits` on it. -/
theorem acquireAsync_waits_disturbedOnce :
    ∃ system s, run (ThrottleSystem.step slowThrottle) (.init slowThrottle 0) [.tryAcquire 2 0 0] =
        some system ∧
      run (asyncStep slowThrottle 1) (.start system (some 5) 0) disturbedOnce = some s ∧
        s.result = some true ∧
        s.system.totalGranted = system.totalGranted + s.othersGranted + 1 := by
  obtain ⟨system, hsystem⟩ := Option.isSome_iff_exists.mp
    (show (run (ThrottleSystem.step slowThrottle) (.init slowThrottle 0)
      [.tryAcquire 2 0 0]).isSome by decide +kernel)
  have hcall : ((run (ThrottleSystem.step slowThrottle) (.init slowThrottle 0)
      [.tryAcquire 2 0 0]).bind fun system => (run (asyncStep slowThrottle 1)
        (.start system (some 5) 0) disturbedOnce).map AsyncCall.result) = some (some true) := by
    decide +kernel
  rw [hsystem] at hcall
  obtain ⟨s, hs, hresult⟩ := Option.map_eq_some_iff.mp hcall
  obtain ⟨-, -, -, htotal⟩ := acquireAsync_waits hsystem zero_le_one hs
  rw [if_pos hresult] at htotal
  exact ⟨system, s, hsystem, hs, hresult, htotal⟩

end MeshRouter.Backpressure
