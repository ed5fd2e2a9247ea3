import Mathlib.Data.Rat.Floor
import Mathlib.Order.Bounds.Basic
import MeshRouter.Lib.Overdraft
import MeshRouter.Quotas.Cap
import MeshRouter.Quotas.Isolation

/-!
# How far clients that check first exceed a quota

A client may ask `check` whether an amount is allowed, act, and `record` the amount afterwards. The
two calls are not one step, so that other clients check and record in between. The clients together
then exceed the limit, and this says by how much at worst: as much as all clients but one can have
been allowed and not recorded yet (`overshoot_exact`). The bound is that of `Lib.Till`, whose steps
the clients take (`till_step`), and it is reached when all clients check before any of them records.

A client does one thing after the other. It may drop what it was allowed, and use
`check_and_record`. Other calls, with which agents are registered and reset, may come at any time.
-/

namespace MeshRouter.Quotas

open Lib

/-- An enforcer with its clients: what each was allowed, and has not recorded yet. -/
structure ClientSystem (ι : Type) where
  enforcer : QuotaEnforcer := {}
  allowed : ι → Option (String × Amounts) := fun _ => none

/-- What a client does, or a call by somebody else that records nothing. -/
inductive ClientAction (ι : Type) where
  | check (client : ι) (agentId : String) (requests : Amounts)
  | record (client : ι)
  | drop (client : ι)
  | checkAndRecord (client : ι) (agentId : String) (requests : Amounts) (raiseOnViolation : Bool)
  | manage (call : QuotaCall)

/-- What an agent has used in a dimension. -/
def QuotaEnforcer.usedIn (e : QuotaEnforcer) (agentId : String) (d : Dimension) : ℚ :=
  ((e.usage.get? agentId).getD .zero).get d

variable {ι : Type}

/-- A step of the clients. -/
def clientStep [DecidableEq ι] (s : ClientSystem ι) : ClientAction ι → Option (ClientSystem ι)
  | .check client agentId requests =>
    if s.allowed client = none then
      if s.enforcer.check agentId requests false = .ok true then
        some { s with
          allowed := Function.update s.allowed client (some (agentId, requests)) }
      else
        some s
    else
      none
  | .record client =>
    match s.allowed client with
    | some (agentId, amounts) =>
      some {
        enforcer := (s.enforcer.serve (.record agentId amounts)).2
        allowed := Function.update s.allowed client none }
    | none => none
  | .drop client => some { s with allowed := Function.update s.allowed client none }
  | .checkAndRecord client agentId requests raiseOnViolation =>
    if s.allowed client = none then
      some { s with
        enforcer := (s.enforcer.serve (.checkAndRecord agentId requests raiseOnViolation)).2 }
    else
      none
  | .manage call =>
    if Ledger.recordingOf call = none then
      some { s with enforcer := (s.enforcer.serve call).2 }
    else
      none

/-- Every registration of the agent sets a limit in the dimension, which is at most `limit`, and
what is asked for the agent is not negative, and at most `most`. -/
def ClientAction.Moderate (a : String) (d : Dimension) (limit most : ℚ) : ClientAction ι → Prop
  | .manage (.register quota) => quota.agentId = a → ∃ l ∈ quota.dimensions d, l ≤ limit
  | .check _ b requests | .checkAndRecord _ b requests _ =>
    b = a → 0 ≤ requests.get d ∧ requests.get d ≤ most
  | _ => True

/-- What the clients can make an agent use. -/
def reachableUsages (ι : Type) [DecidableEq ι] (a : String) (d : Dimension) (limit most : ℚ) :
    Set ℚ :=
  { used | ∃ (actions : List (ClientAction ι)) (s : ClientSystem ι),
      (∀ u ∈ actions, u.Moderate a d limit most) ∧ run clientStep {} actions = some s ∧
        s.enforcer.usedIn a d = used }

namespace QuotaEnforcer

variable {e : QuotaEnforcer} {c : QuotaCall} {a b : String} {d : Dimension}

/-- A call does what its method says, or leaves the enforcer as it is. -/
theorem serve_cases (e : QuotaEnforcer) (c : QuotaCall) :
    (∃ reply, e.Does c reply (e.serve c).2) ∨ (e.serve c).2 = e := by
  unfold serve
  cases hcall : e.call c with
  | error err => exact .inr rfl
  | ok result => exact .inl ⟨result.1, call_does hcall⟩

/-- A call keeps the two dictionaries over the same agents. -/
theorem SameKeys.serve (h : e.SameKeys) (c : QuotaCall) : (e.serve c).2.SameKeys := by
  rcases e.serve_cases c with ⟨reply, hdoes⟩ | hsame
  · exact hdoes.sameKeys h
  · rwa [hsame]

/-- A call for another agent changes nothing that the agent has used. -/
theorem usedIn_serve_of_ne (hb : c.agentId? = some b) (hne : b ≠ a) :
    (e.serve c).2.usedIn a d = e.usedIn a d := by
  have husage : (e.serve c).2.usage.get? a = e.usage.get? a :=
    (Prod.mk.inj (view_serve_of_ne hb hne)).2
  unfold usedIn
  rw [husage]

/-- What is used after an amount was added. -/
theorem usedIn_add {current m : Amounts} (husage : e.usage.get? a = some current) :
    usedIn { e with usage := e.usage.set a (current.add m) } a d = e.usedIn a d + m.get d := by
  unfold usedIn
  dsimp only
  rw [husage, Dict.get?_set, if_pos rfl, Option.getD_some, Option.getD_some, Amounts.get_add]

/-- A call that records nothing leaves what an agent has used as it is, or sets it to zero. -/
theorem usedIn_manage (hkeys : e.SameKeys) (hc : Ledger.recordingOf c = none) :
    (e.serve c).2.usedIn a d = e.usedIn a d ∨ (e.serve c).2.usedIn a d = 0 := by
  rcases e.serve_cases c with ⟨reply, hdoes⟩ | hsame
  · have husage := usage_call hdoes hkeys a
    unfold usedIn
    rw [husage]
    cases c with
    | record | checkAndRecord => cases hc
    | check | usage | quota => exact .inl rfl
    | register quota =>
      simp only [account]
      split_ifs
      · exact .inl rfl
      · exact .inl rfl
    | unregister b =>
      simp only [account]
      split_ifs
      · exact .inr (Amounts.get_zero d)
      · exact .inl rfl
    | reset b =>
      simp only [account]
      split_ifs
      · cases e.usage.get? a with
        | none => exact .inl rfl
        | some used => exact .inr (Amounts.get_zero d)
      · exact .inl rfl
    | resetAll =>
      unfold account
      cases e.usage.get? a with
      | none => exact .inl rfl
      | some used => exact .inr (Amounts.get_zero d)
  · exact .inl (congrArg (fun e => usedIn e a d) hsame)

/-- A quota that an agent has after a call is the one that it had, or the call registers it. -/
theorem quota_serve {quota : ResourceQuota} (h : (e.serve c).2.quotas.get? a = some quota) :
    e.quotas.get? a = some quota ∨ (c = .register quota ∧ quota.agentId = a) := by
  rcases e.serve_cases c with ⟨reply, hdoes⟩ | hsame
  · generalize (e.serve c).2 = e' at h hdoes
    cases hdoes with
    | register registered =>
      change (e.quotas.set registered.agentId registered).get? a = some quota at h
      rw [Dict.get?_set] at h
      split_ifs at h with ha
      · obtain rfl := Option.some.inj h
        exact .inr ⟨rfl, ha.symm⟩
      · exact .inl h
    | unregister b =>
      unfold unregister at h
      split_ifs at h
      · change (e.quotas.erase b).get? a = some quota at h
        rw [Dict.get?_erase] at h
        split_ifs at h
        exact .inl h
      · exact .inl h
    | record | checkAndRecord | refuse | reset | resetAll | check | usage | quota => exact .inl h
  · rw [hsame] at h
    exact .inl h

end QuotaEnforcer

namespace ClientSystem

/-- What a client may still record for an agent in a dimension. -/
def promise (a : String) (d : Dimension) : Option (String × Amounts) → ℚ
  | some (b, m) => if b = a then m.get d else 0
  | none => 0

/-- What an agent has used, and what its clients may still record. -/
def till (s : ClientSystem ι) (a : String) (d : Dimension) : Till ι ℚ where
  used := s.enforcer.usedIn a d
  promised client := promise a d (s.allowed client)

/-- The agent is limited, if it is registered. -/
def LimitedTo (s : ClientSystem ι) (a : String) (d : Dimension) (limit : ℚ) : Prop :=
  ∀ quota, s.enforcer.quotas.get? a = some quota → ∃ l ∈ quota.dimensions d, l ≤ limit

variable {s t : ClientSystem ι} {a b : String} {d : Dimension} {limit most : ℚ}

/-- A client that was allowed nothing can record nothing. -/
theorem till_idle {client : ι} (h : s.allowed client = none) :
    (s.till a d).promised client = 0 := by
  change promise a d (s.allowed client) = 0
  rw [h]
  rfl

/-- What fits in the quota of an agent fits under the limit. -/
theorem LimitedTo.fits (h : s.LimitedTo a d limit) {quota : ResourceQuota}
    {current requests : Amounts} (hquota : s.enforcer.quotas.get? a = some quota)
    (husage : s.enforcer.usage.get? a = some current)
    (hfit : firstViolation a quota current requests = none) (hpos : 0 < requests.get d) :
    s.enforcer.usedIn a d + requests.get d ≤ limit := by
  obtain ⟨l, hl, hle⟩ := h quota hquota
  have hroom := firstViolation_eq_none_iff.mp hfit d l hl hpos
  have hused : s.enforcer.usedIn a d = current.get d := by
    unfold QuotaEnforcer.usedIn
    rw [husage]
    rfl
  have hcurrent : 0 < l - current.get d := by
    by_contra hover
    rw [max_eq_left (not_lt.mp hover)] at hroom
    linarith
  rw [max_eq_right hcurrent.le] at hroom
  rw [hused]
  linarith

/-- The registered quota of the agent is still limited after a call. -/
theorem LimitedTo.serve (h : s.LimitedTo a d limit) {call : QuotaCall}
    {allowed : ι → Option (String × Amounts)}
    (hregister : ∀ quota, call = .register quota → quota.agentId = a →
      ∃ l ∈ quota.dimensions d, l ≤ limit) :
    LimitedTo ⟨(s.enforcer.serve call).2, allowed⟩ a d limit := by
  intro quota hquota
  rcases QuotaEnforcer.quota_serve hquota with hbefore | ⟨hcall, ha⟩
  · exact h quota hbefore
  · exact hregister quota hcall ha

/-- The invariant of the clients. -/
structure Held [Fintype ι] (a : String) (d : Dimension) (limit most : ℚ)
    (s : ClientSystem ι) : Prop where
  keys : s.enforcer.SameKeys
  limited : s.LimitedTo a d limit
  sound : (s.till a d).Sound limit most

/-- The invariant holds at the start. -/
theorem held_init [Fintype ι] [Nonempty ι] (hlimit : 0 ≤ limit) (hmost : 0 ≤ most) :
    Held a d limit most ({} : ClientSystem ι) where
  keys _ := Iff.rfl
  limited quota hquota := by cases hquota
  sound := by
    have hempty : till ({} : ClientSystem ι) a d = ⟨0, fun _ => 0⟩ :=
      congrArg (Till.mk · _) (Amounts.get_zero d)
    rw [hempty]
    exact Till.sound_zero hlimit hmost

variable [DecidableEq ι]

/-- The promises after one client's are set. -/
theorem promised_update (client : ι) (x : Option (String × Amounts)) :
    (fun c => promise a d (Function.update s.allowed client x c)) =
      Function.update (s.till a d).promised client (promise a d x) := by
  funext c
  rcases eq_or_ne c client with rfl | hc
  · rw [Function.update_self, Function.update_self]
  · rw [Function.update_of_ne hc, Function.update_of_ne hc]
    rfl

/-- An allowance is set. -/
theorem till_update (e : QuotaEnforcer) (client : ι) (x : Option (String × Amounts)) :
    till ⟨e, Function.update s.allowed client x⟩ a d =
      ⟨e.usedIn a d, Function.update (s.till a d).promised client (promise a d x)⟩ :=
  congrArg (Till.mk _) (promised_update client x)

/-- A client checks: it is granted what the check allows. -/
theorem till_check (hlimited : s.LimitedTo a d limit) (hmost : 0 ≤ most) {client : ι}
    {requests : Amounts} (hmoderate : b = a → 0 ≤ requests.get d ∧ requests.get d ≤ most)
    (hidle : s.allowed client = none)
    (hcheck : s.enforcer.check b requests false = .ok true) :
    Till.Step limit most (s.till a d)
      (till ⟨s.enforcer, Function.update s.allowed client (some (b, requests))⟩ a d) := by
  rw [till_update]
  by_cases hb : b = a
  · subst hb
    obtain ⟨hnonneg, hle⟩ := hmoderate rfl
    have hpromise : promise b d (some (b, requests)) = requests.get d := if_pos rfl
    rw [hpromise]
    refine .grant client _ (till_idle hidle) hnonneg hle fun hpos => ?_
    obtain ⟨⟨quota, current⟩, hentry, hverdict⟩ := bind_eq_ok.mp hcheck
    obtain ⟨hquota, husage⟩ := QuotaEnforcer.entry_eq_ok.mp hentry
    dsimp only at hverdict
    split at hverdict
    · next hfit => exact hlimited.fits hquota husage hfit hpos
    · cases hverdict
  · have hpromise : promise a d (some (b, requests)) = 0 := if_neg hb
    rw [hpromise]
    exact .grant client 0 (till_idle hidle) le_rfl hmost fun hpos => absurd hpos (lt_irrefl 0)

/-- A client records: it keeps its promise, or drops it if the call raises. -/
theorem till_record {client : ι} {amounts : Amounts}
    (hallowed : s.allowed client = some (b, amounts)) :
    Till.Step limit most (s.till a d)
      (till ⟨(s.enforcer.serve (.record b amounts)).2, Function.update s.allowed client none⟩
        a d) := by
  rw [till_update]
  by_cases hb : b = a
  · subst hb
    have hpromised : (s.till b d).promised client = amounts.get d := by
      change promise b d (s.allowed client) = amounts.get d
      rw [hallowed]
      exact if_pos rfl
    rcases s.enforcer.serve_cases (.record b amounts) with ⟨reply, hdoes⟩ | hsame
    · have hused : (s.enforcer.serve (.record b amounts)).2.usedIn b d =
          s.enforcer.usedIn b d + (s.till b d).promised client := by
        rw [hpromised]
        generalize (s.enforcer.serve (.record b amounts)).2 = e' at hdoes ⊢
        cases hdoes with
        | record _ _ husage => exact QuotaEnforcer.usedIn_add husage
      rw [hused]
      exact .keep client
    · rw [hsame]
      exact .drop client
  · rw [QuotaEnforcer.usedIn_serve_of_ne rfl hb]
    exact .drop client

/-- A client uses `check_and_record`: it adds what the call allows. -/
theorem till_checkAndRecord (hlimited : s.LimitedTo a d limit) {client : ι} {requests : Amounts}
    (raises : Bool) (hmoderate : b = a → 0 ≤ requests.get d ∧ requests.get d ≤ most)
    (hidle : s.allowed client = none) :
    till { s with enforcer := (s.enforcer.serve (.checkAndRecord b requests raises)).2 } a d =
        s.till a d ∨
      Till.Step limit most (s.till a d)
        (till { s with enforcer := (s.enforcer.serve (.checkAndRecord b requests raises)).2 }
          a d) := by
  by_cases hb : b = a
  · subst hb
    rcases s.enforcer.serve_cases (.checkAndRecord b requests raises) with ⟨reply, hdoes⟩ | hsame
    · generalize (s.enforcer.serve (.checkAndRecord b requests raises)).2 = e' at hdoes
      cases hdoes with
      | checkAndRecord hquota husage hfit =>
        obtain ⟨hnonneg, hle⟩ := hmoderate rfl
        have hadd := Till.Step.add client (requests.get d) (till_idle hidle) hnonneg hle
          (hlimited.fits hquota husage hfit)
        right
        unfold till
        rw [QuotaEnforcer.usedIn_add husage]
        exact hadd
      | refuse => exact .inl rfl
    · rw [hsame]
      exact .inl rfl
  · left
    unfold till
    dsimp only
    rw [QuotaEnforcer.usedIn_serve_of_ne rfl hb]

/-- Another call leaves the counter, or lowers it to zero. -/
theorem till_manage (hkeys : s.enforcer.SameKeys) (hused : 0 ≤ s.enforcer.usedIn a d)
    {call : QuotaCall} (hcall : Ledger.recordingOf call = none) :
    Till.Step limit most (s.till a d)
      (till { s with enforcer := (s.enforcer.serve call).2 } a d) := by
  rcases QuotaEnforcer.usedIn_manage hkeys hcall with hsame | hzero
  · unfold till
    dsimp only
    rw [hsame]
    exact .lower _ hused le_rfl
  · unfold till
    dsimp only
    rw [hzero]
    exact .lower 0 le_rfl hused

variable [Fintype ι]

/-- Every moderate step keeps the invariant. -/
theorem Held.step (h : Held a d limit most s) (hlimit : 0 ≤ limit) (hmost : 0 ≤ most)
    {u : ClientAction ι} (hu : u.Moderate a d limit most) (hst : clientStep s u = some t) :
    Held a d limit most t := by
  have hsound : ∀ {t' : ClientSystem ι}, Till.Step limit most (s.till a d) (t'.till a d) →
      (t'.till a d).Sound limit most := fun hstep => h.sound.step hlimit hmost hstep
  cases u with
  | check client b requests =>
    dsimp only [clientStep] at hst
    split_ifs at hst with hidle hcheck
    · obtain rfl := Option.some.inj hst
      exact ⟨h.keys, h.limited, hsound (till_check h.limited hmost hu hidle hcheck)⟩
    · obtain rfl := Option.some.inj hst
      exact h
  | record client =>
    dsimp only [clientStep] at hst
    split at hst
    · next hallowed =>
      obtain rfl := Option.some.inj hst
      exact ⟨h.keys.serve _, h.limited.serve nofun,
        hsound (till_record hallowed)⟩
    · cases hst
  | drop client =>
    obtain rfl := Option.some.inj hst
    refine ⟨h.keys, h.limited, hsound ?_⟩
    rw [till_update]
    exact .drop client
  | checkAndRecord client b requests raises =>
    dsimp only [clientStep] at hst
    split_ifs at hst with hidle
    obtain rfl := Option.some.inj hst
    refine ⟨h.keys.serve _, h.limited.serve nofun, ?_⟩
    rcases till_checkAndRecord h.limited raises hu hidle with hsame | hstep
    · rw [hsame]
      exact h.sound
    · exact hsound hstep
  | manage call =>
    dsimp only [clientStep] at hst
    split_ifs at hst with hcall
    obtain rfl := Option.some.inj hst
    refine ⟨h.keys.serve _, h.limited.serve ?_,
      hsound (till_manage h.keys h.sound.used_nonneg hcall)⟩
    rintro quota rfl ha
    exact hu ha

/-- What the clients can make an agent use is bounded. -/
theorem usage_le [Nonempty ι] (hlimit : 0 ≤ limit) (hmost : 0 ≤ most) {used : ℚ}
    (h : used ∈ reachableUsages ι a d limit most) :
    used ≤ limit + (Fintype.card ι - 1) * min most limit := by
  obtain ⟨actions, s, hmoderate, hrun, rfl⟩ := h
  have hheld : Held a d limit most s :=
    run_induction_along (fun _ _ _ hheld hu hst => hheld.step hlimit hmost hu hst)
      (held_init hlimit hmost) (along_of_actions hmoderate _) hrun
  exact hheld.sound.within

end ClientSystem

/-! ## The worst run -/

/-- The same amount in each dimension. -/
def Amounts.each (x : ℚ) : Amounts where
  tokens := x
  memoryMb := x
  cpuSeconds := x
  apiCalls := x

theorem Amounts.get_each (x : ℚ) (d : Dimension) : (each x).get d = x := by
  cases d with
  | tokens | memoryMb | cpuSeconds | apiCalls => rfl

/-- The same limit in each dimension. -/
def evenQuota (agentId : String) (limit : ℚ) (hid : ¬ Blank agentId) (hlimit : 0 ≤ limit) :
    ResourceQuota where
  agentId := agentId
  tokenLimit := some limit
  memoryLimitMb := some limit
  cpuLimitSeconds := some limit
  apiCallLimit := some limit
  agentId_nonblank := hid
  tokenLimit_nonneg := by simpa using hlimit
  memoryLimitMb_nonneg := by simpa using hlimit
  cpuLimitSeconds_nonneg := by simpa using hlimit
  apiCallLimit_nonneg := by simpa using hlimit

theorem dimensions_evenQuota {a : String} {limit : ℚ} (hid : ¬ Blank a) (hlimit : 0 ≤ limit)
    (d : Dimension) : (evenQuota a limit hid hlimit).dimensions d = some limit := by
  cases d with
  | tokens | memoryMb | cpuSeconds | apiCalls => rfl

namespace ClientSystem

/-- The agent has the same limit, and has used the same amount, in each dimension. -/
structure Evenly (a : String) (limit used : ℚ) (s : ClientSystem ι) : Prop where
  quota : ∃ quota, s.enforcer.quotas.get? a = some quota ∧ ∀ d, quota.dimensions d = some limit
  usage : s.enforcer.usage.get? a = some (.each used)

section Worst

variable {s : ClientSystem ι} {a : String} {limit used x : ℚ}

/-- A request that is within the limit fits. -/
theorem Evenly.entry (h : Evenly a limit used s) (hfits : used + x ≤ limit) :
    ∃ quota, s.enforcer.entry a = .ok (quota, .each used) ∧
      firstViolation a quota (.each used) (.each x) = none := by
  obtain ⟨quota, hquota, hlimits⟩ := h.quota
  refine ⟨quota, QuotaEnforcer.entry_eq_ok.mpr ⟨hquota, h.usage⟩, ?_⟩
  refine firstViolation_eq_none_iff.mpr fun d l hl _ => ?_
  obtain rfl := Option.some.inj ((hlimits d).symm.trans hl)
  rw [Amounts.get_each, Amounts.get_each]
  exact le_max_of_le_right (by linarith)

/-- The usage of the agent after an amount is added. -/
theorem Evenly.add (h : Evenly a limit used s) (x : ℚ)
    (allowed : ι → Option (String × Amounts)) :
    Evenly a limit (used + x)
      ⟨{ s.enforcer with usage := s.enforcer.usage.set a ((Amounts.each used).add (.each x)) },
        allowed⟩ where
  quota := h.quota
  usage := by
    dsimp only
    rw [Dict.get?_set, if_pos rfl]
    rfl

variable [DecidableEq ι]

/-- A check within the limit allows the amount. -/
theorem Evenly.check (h : Evenly a limit used s) (hfits : used + x ≤ limit) {client : ι}
    (hidle : s.allowed client = none) :
    clientStep s (.check client a (.each x)) =
      some { s with allowed := Function.update s.allowed client (some (a, .each x)) } := by
  obtain ⟨quota, hentry, hfit⟩ := h.entry hfits
  have hcheck : s.enforcer.check a (.each x) false = .ok true := by
    unfold QuotaEnforcer.check
    rw [hentry]
    dsimp only [Bind.bind, Except.bind]
    rw [hfit]
    rfl
  dsimp only [clientStep]
  rw [if_pos hidle, if_pos hcheck]

/-- A client that was allowed an amount records it. -/
theorem Evenly.record (h : Evenly a limit used s) (hnonneg : 0 ≤ x) {client : ι}
    (hallowed : s.allowed client = some (a, .each x)) :
    ∃ t, clientStep s (.record client) = some t ∧ Evenly a limit (used + x) t ∧
      t.allowed = Function.update s.allowed client none := by
  obtain ⟨quota, hquota, hlimits⟩ := h.quota
  have hentry : s.enforcer.entry a = .ok (quota, .each used) :=
    QuotaEnforcer.entry_eq_ok.mpr ⟨hquota, h.usage⟩
  have hsigns : (Dimension.all.find? fun d => (Amounts.each x).get d < 0) = none := by
    refine List.find?_eq_none.mpr fun d _ => ?_
    rw [Amounts.get_each, decide_eq_true_iff]
    exact not_lt.mpr hnonneg
  have hserve : (s.enforcer.serve (.record a (.each x))).2 =
      { s.enforcer with
        usage := s.enforcer.usage.set a ((Amounts.each used).add (.each x)) } := by
    unfold QuotaEnforcer.serve QuotaEnforcer.call QuotaEnforcer.record
    dsimp only
    rw [hsigns, hentry]
    rfl
  refine ⟨⟨_, Function.update s.allowed client none⟩, ?_, h.add x _, rfl⟩
  dsimp only [clientStep]
  rw [hallowed]
  dsimp only
  rw [hserve]

/-- An idle client uses `check_and_record` within the limit. -/
theorem Evenly.checkAndRecord (h : Evenly a limit used s) (hfits : used + x ≤ limit) {client : ι}
    (hidle : s.allowed client = none) :
    ∃ t, clientStep s (.checkAndRecord client a (.each x) true) = some t ∧
      Evenly a limit (used + x) t ∧ t.allowed = s.allowed := by
  obtain ⟨quota, hentry, hfit⟩ := h.entry hfits
  have hserve : (s.enforcer.serve (.checkAndRecord a (.each x) true)).2 =
      { s.enforcer with
        usage := s.enforcer.usage.set a ((Amounts.each used).add (.each x)) } := by
    unfold QuotaEnforcer.serve QuotaEnforcer.call QuotaEnforcer.checkAndRecord
    dsimp only [Bind.bind, Except.bind]
    rw [hentry]
    dsimp only [Bind.bind, Except.bind]
    rw [hfit]
    rfl
  refine ⟨_, ?_, h.add x _, rfl⟩
  dsimp only [clientStep]
  rw [if_pos hidle, hserve]

/-- An idle client fills up the quota in steps. -/
theorem Evenly.fill (client : ι) (hnonneg : 0 ≤ x) (count : ℕ) (h : Evenly a limit used s)
    (hidle : s.allowed client = none) (hfits : used + count * x ≤ limit) :
    ∃ t, run clientStep s (.replicate count (.checkAndRecord client a (.each x) true)) = some t ∧
      Evenly a limit (used + count * x) t ∧ t.allowed = s.allowed := by
  induction count generalizing s used with
  | zero =>
    refine ⟨s, rfl, ?_, rfl⟩
    rwa [Nat.cast_zero, zero_mul, add_zero]
  | succ count ih =>
    rw [Nat.cast_succ] at hfits ⊢
    have hrest : 0 ≤ count * x := mul_nonneg count.cast_nonneg hnonneg
    obtain ⟨t, hst, ht, hsame⟩ := h.checkAndRecord (x := x) (by linarith) hidle
    obtain ⟨u, htu, hu, hsame'⟩ := ih ht (hsame ▸ hidle) (by linarith)
    refine ⟨u, run_cons.mpr ⟨t, hst, htu⟩, ?_, hsame'.trans hsame⟩
    have htotal : used + x + count * x = used + (count + 1) * x := by ring
    rwa [htotal] at hu

/-- Idle clients check one after the other, and each is allowed the amount. -/
theorem Evenly.checks (hfits : used + x ≤ limit) (clients : List ι) (hnodup : clients.Nodup)
    (h : Evenly a limit used s) (hidle : ∀ c ∈ clients, s.allowed c = none) :
    ∃ t, run clientStep s (clients.map fun c => .check c a (.each x)) = some t ∧
      Evenly a limit used t ∧ ∀ c, t.allowed c =
        if c ∈ clients then some (a, .each x) else s.allowed c := by
  induction clients generalizing s with
  | nil => exact ⟨s, rfl, h, fun c => (if_neg List.not_mem_nil).symm⟩
  | cons client clients ih =>
    obtain ⟨hnew, hnodup'⟩ := List.nodup_cons.mp hnodup
    have hst := h.check hfits (hidle client List.mem_cons_self)
    have hafter : Evenly a limit used
        { s with allowed := Function.update s.allowed client (some (a, .each x)) } :=
      ⟨h.quota, h.usage⟩
    obtain ⟨t, hrun, ht, hallowed⟩ := ih hnodup' hafter fun c hc =>
      (Function.update_of_ne (ne_of_mem_of_not_mem hc hnew) _ _).trans
        (hidle c (List.mem_cons_of_mem _ hc))
    refine ⟨t, run_cons.mpr ⟨_, hst, hrun⟩, ht, fun c => (hallowed c).trans ?_⟩
    change (if c ∈ clients then some (a, Amounts.each x)
      else Function.update s.allowed client (some (a, .each x)) c) = _
    rcases eq_or_ne c client with rfl | hc
    · rw [if_neg hnew, Function.update_self, if_pos List.mem_cons_self]
    · rw [Function.update_of_ne hc]
      simp only [List.mem_cons, hc, false_or]

/-- Clients that were all allowed the amount record one after the other. -/
theorem Evenly.records (hnonneg : 0 ≤ x) (clients : List ι) (hnodup : clients.Nodup)
    (h : Evenly a limit used s) (hallowed : ∀ c ∈ clients, s.allowed c = some (a, .each x)) :
    ∃ t, run clientStep s (clients.map ClientAction.record) = some t ∧
      Evenly a limit (used + clients.length * x) t := by
  induction clients generalizing s used with
  | nil =>
    refine ⟨s, rfl, ?_⟩
    rwa [List.length_nil, Nat.cast_zero, zero_mul, add_zero]
  | cons client clients ih =>
    obtain ⟨hnew, hnodup'⟩ := List.nodup_cons.mp hnodup
    obtain ⟨t, hst, ht, hafter⟩ := h.record hnonneg (hallowed client List.mem_cons_self)
    obtain ⟨u, hrun, hu⟩ := ih hnodup' ht fun c hc => by
      rw [hafter, Function.update_of_ne (ne_of_mem_of_not_mem hc hnew)]
      exact hallowed c (List.mem_cons_of_mem _ hc)
    refine ⟨u, run_cons.mpr ⟨t, hst, hrun⟩, ?_⟩
    have htotal : used + x + clients.length * x = used + (client :: clients).length * x := by
      rw [List.length_cons, Nat.cast_succ]
      ring
    rwa [htotal] at hu

/-- A registration starts a run. -/
theorem evenly_register (ι : Type) [DecidableEq ι] (hid : ¬ Blank a) (hlimit : 0 ≤ limit) :
    ∃ t : ClientSystem ι,
      clientStep ({} : ClientSystem ι) (.manage (.register (evenQuota a limit hid hlimit))) =
          some t ∧
        Evenly a limit 0 t ∧ t.allowed = fun _ => none := by
  obtain ⟨hquota, husage⟩ :=
    Prod.mk.inj (QuotaEnforcer.view_register {} (evenQuota a limit hid hlimit))
  exact ⟨⟨_, fun _ => none⟩, rfl,
    ⟨⟨evenQuota a limit hid hlimit, hquota, dimensions_evenQuota hid hlimit⟩, husage⟩, rfl⟩

end Worst

/-- The bound on the usage is reached. -/
theorem usage_attained [DecidableEq ι] [Fintype ι] [Nonempty ι] {a : String} {limit most : ℚ}
    (hid : ¬ Blank a) (d : Dimension) (hlimit : 0 ≤ limit) (hmost : 0 < most) :
    limit + (Fintype.card ι - 1) * min most limit ∈ reachableUsages ι a d limit most := by
  obtain ⟨client⟩ := ‹Nonempty ι›
  -- The quota is filled in equal parts, so that one more grant of the largest amount fits.
  set grant := min most limit with hgrant
  have hgrant₀ : 0 ≤ grant := le_min hmost.le hlimit
  have hroom : 0 ≤ limit - grant := sub_nonneg.mpr (min_le_right most limit)
  set count := ⌈(limit - grant) / most⌉₊ with hcount
  set part := (limit - grant) / count with hpart
  have hceil : limit - grant ≤ count * most := (div_le_iff₀ hmost).mp (Nat.le_ceil _)
  have hpart₀ : 0 ≤ part := div_nonneg hroom count.cast_nonneg
  have hfill : count * part = limit - grant := by
    rcases Nat.eq_zero_or_pos count with hzero | hpos
    · rw [hzero, Nat.cast_zero, zero_mul] at hceil ⊢
      exact le_antisymm hroom hceil
    · exact mul_div_cancel₀ _ (Nat.cast_ne_zero.mpr hpos.ne')
  have hpartle : part ≤ most := div_le_of_le_mul₀ count.cast_nonneg hmost.le (by linarith)
  obtain ⟨s₁, h₁, heven₁, hallowed₁⟩ := evenly_register ι hid hlimit
  obtain ⟨s₂, h₂, heven₂, hallowed₂⟩ :=
    heven₁.fill client hpart₀ count (by rw [hallowed₁]) (by linarith)
  obtain ⟨s₃, h₃, heven₃, hallowed₃⟩ := heven₂.checks (x := grant) (by linarith)
    Finset.univ.toList (Finset.nodup_toList _) fun c _ => by rw [hallowed₂, hallowed₁]
  obtain ⟨s₄, h₄, heven₄⟩ := heven₃.records hgrant₀ Finset.univ.toList (Finset.nodup_toList _)
    fun c hc => (hallowed₃ c).trans (if_pos hc)
  refine ⟨_, s₄, ?_, run_cons.mpr ⟨s₁, h₁, run_trans (run_trans h₂ h₃) h₄⟩, ?_⟩
  · intro u hu
    rcases List.mem_cons.mp hu with rfl | hu
    · exact fun _ => ⟨limit, dimensions_evenQuota hid hlimit d, le_rfl⟩
    rcases List.mem_append.mp hu with hu | hu
    · rcases List.mem_append.mp hu with hu | hu
      · obtain rfl := List.eq_of_mem_replicate hu
        exact fun _ => (Amounts.get_each part d).symm ▸ ⟨hpart₀, hpartle⟩
      · obtain ⟨c, -, rfl⟩ := List.mem_map.mp hu
        exact fun _ => (Amounts.get_each grant d).symm ▸ ⟨hgrant₀, min_le_left most limit⟩
    · obtain ⟨c, -, rfl⟩ := List.mem_map.mp hu
      trivial
  · unfold QuotaEnforcer.usedIn
    rw [heven₄.usage, Option.getD_some, Amounts.get_each, Finset.length_toList, Finset.card_univ,
      hfill]
    ring

end ClientSystem

/-- What clients that check first and record later can make an agent use, when they are allowed to
ask for at most `most` at a time: at worst, the limit and once more for every client but one what a
client can be allowed at a time. -/
theorem overshoot_exact {ι : Type} [DecidableEq ι] [Fintype ι] [Nonempty ι] {a : String}
    (hid : ¬ Blank a) (d : Dimension) {limit most : ℚ} (hlimit : 0 ≤ limit) (hmost : 0 < most) :
    IsGreatest (reachableUsages ι a d limit most)
      (limit + (Fintype.card ι - 1) * min most limit) :=
  ⟨ClientSystem.usage_attained hid d hlimit hmost,
    fun _ hused => ClientSystem.usage_le hlimit hmost.le hused⟩

/-- `overshoot_exact` for three clients that ask for at most two hundred of a thousand tokens. -/
theorem overshoot_exact_threeClients :
    IsGreatest (reachableUsages (Fin 3) "agent_a" .tokens 1000 200) 1400 := by
  have hworst : IsGreatest (reachableUsages (Fin 3) "agent_a" .tokens 1000 200)
      (1000 + (Fintype.card (Fin 3) - 1) * min 200 1000) :=
    overshoot_exact (by decide) .tokens (by decide +kernel) (by decide +kernel)
  have hvalue : (1000 : ℚ) + (Fintype.card (Fin 3) - 1) * min 200 1000 = 1400 := by
    rw [Fintype.card_fin]
    norm_num
  rwa [hvalue] at hworst

end MeshRouter.Quotas
