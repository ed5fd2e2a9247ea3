import Mathlib.Tactic.Linarith
import MeshRouter.Quotas.Accounting

/-!
# Limits and signs

What the two recording methods guarantee about the counters.

* `check_and_record` checks all dimensions before it adds to any, so that a run that records with
  nothing else stays within its limits (`cap_never_exceeded`), if no registration sets a limit below
  what is used.
* `record` refuses a negative amount. `check_and_record` has no such check, and its loop skips what
  is not positive: a negative amount is taken from the counter, unless the call is refused for
  another reason. `unforged_iff` says that the counters are safe in the runs in which it always is.
-/

namespace MeshRouter.Quotas

open Lib

variable {b : String} {quota : ResourceQuota} {current requests : Amounts}

/-- A positive amount fits in what remains of the limit of a dimension. -/
def Fits (quota : ResourceQuota) (current requests : Amounts) (d : Dimension) : Prop :=
  ∀ limit, quota.dimensions d = some limit → 0 < requests.get d →
    requests.get d ≤ max 0 (limit - current.get d)

theorem exceeds_eq_none_iff {d : Dimension} :
    exceeds b quota current requests d = none ↔ Fits quota current requests d := by
  unfold exceeds Fits
  dsimp only
  by_cases hpos : requests.get d ≤ 0
  · rw [if_pos hpos]
    exact iff_of_true rfl fun limit _ hlt => absurd hpos (not_le.mpr hlt)
  · rw [if_neg hpos]
    cases quota.dimensions d with
    | none => simp
    | some limit =>
      dsimp only
      split_ifs with hover
      · refine iff_of_false (by simp) fun hfits => ?_
        exact absurd (hfits limit rfl (not_le.mp hpos)) (not_le.mpr hover)
      · refine iff_of_true rfl ?_
        rintro _ ⟨⟩ -
        exact not_lt.mp hover

/-- Nothing is exceeded exactly when the request fits in each dimension. -/
theorem firstViolation_eq_none_iff :
    firstViolation b quota current requests = none ↔ ∀ d, Fits quota current requests d := by
  unfold firstViolation
  rw [List.findSome?_eq_none_iff]
  exact ⟨fun h d => exceeds_eq_none_iff.mp (h d d.mem_all), fun h d _ =>
    exceeds_eq_none_iff.mpr (h d)⟩

namespace Ledger

variable {s t : Ledger} {c : QuotaCall} {calls : List QuotaCall}

/-! ## Limits -/

/-- The usage is within the limits of the quota. -/
def Within (quota : ResourceQuota) (used : Amounts) : Prop :=
  ∀ d, ∀ limit ∈ quota.dimensions d, used.get d ≤ limit

instance (quota : ResourceQuota) (used : Amounts) : Decidable (Within quota used) := by
  unfold Within
  infer_instance

/-- Zero is within all limits, since none is negative. -/
theorem within_zero (quota : ResourceQuota) : Within quota .zero := by
  intro d limit hlimit
  rw [Amounts.get_zero]
  exact quota.dimensions_nonneg hlimit

/-- What fits keeps the usage within the limits. -/
theorem Within.add (h : Within quota current)
    (hfit : firstViolation b quota current requests = none) :
    Within quota (current.add requests) := by
  intro d limit hlimit
  have hused := h d limit hlimit
  rw [Amounts.get_add]
  rcases le_or_gt (requests.get d) 0 with hneg | hpos
  · linarith
  · have hle := firstViolation_eq_none_iff.mp hfit d limit hlimit hpos
    rw [max_eq_right (by linarith)] at hle
    linarith

/-- The usage of every agent is within its limits. -/
def Capped (s : Ledger) : Prop :=
  ∀ a quota used, s.enforcer.quotas.get? a = some quota → s.enforcer.usage.get? a = some used →
    Within quota used

/-- The call is not `record`, and does not register a limit below what the agent has used. -/
def Limited (s : Ledger) (c : QuotaCall) : Prop :=
  match c with
  | .register quota => ∀ used ∈ s.enforcer.usage.get? quota.agentId, Within quota used
  | .record _ _ => False
  | _ => True

instance (s : Ledger) (c : QuotaCall) : Decidable (s.Limited c) := by
  cases c <;> unfold Limited <;> infer_instance

/-- A usage record that is replaced by one within the limits. -/
theorem Capped.set (hs : Capped s) {m : Amounts} {h : List Event}
    (hm : ∀ quota, s.enforcer.quotas.get? b = some quota → Within quota m) :
    Capped ⟨{ s.enforcer with usage := s.enforcer.usage.set b m }, h⟩ := by
  intro a quota used hquota hused
  dsimp only at hquota hused
  rw [Dict.get?_set] at hused
  split_ifs at hused with ha
  · subst ha
    obtain rfl := Option.some.inj hused
    exact hm quota hquota
  · exact hs a quota used hquota hused

/-- A call that respects the limits keeps the usage within them. -/
theorem Capped.step (hs : Capped s) (hok : s.Limited c) (h : Ledger.step s c = some t) :
    Capped t := by
  obtain ⟨e, hist⟩ := t
  rcases step_cases h with ⟨reply, hdoes, -, -⟩ | ⟨err, -, henforcer, -, -⟩
  · dsimp only at hdoes
    cases hdoes with
    | register quota =>
      intro a quota' used hquota hused
      unfold QuotaEnforcer.register at hquota hused
      dsimp only at hquota hused
      rw [Dict.get?_set] at hquota
      split_ifs at hquota with ha
      · -- The agent of the new quota has its old usage, or none.
        subst ha
        obtain rfl := Option.some.inj hquota
        split_ifs at hused with hmem
        · exact hok used hused
        · rw [Dict.get?_set, if_pos rfl] at hused
          obtain rfl := Option.some.inj hused
          exact within_zero quota
      · split_ifs at hused with hmem
        · exact hs a quota' used hquota hused
        · rw [Dict.get?_set, if_neg ha] at hused
          exact hs a quota' used hquota hused
    | unregister b =>
      intro a quota used hquota hused
      unfold QuotaEnforcer.unregister at hquota hused
      split_ifs at hquota hused with hmem
      · dsimp only at hquota hused
        rw [Dict.get?_erase] at hquota hused
        split_ifs at hquota hused with ha
        exact hs a quota used hquota hused
      · exact hs a quota used hquota hused
    | record => exact hok.elim
    | checkAndRecord hquota husage hfit =>
      refine hs.set fun quota' hquota' => ?_
      obtain rfl := Option.some.inj (hquota.symm.trans hquota')
      exact (hs _ _ _ hquota husage).add hfit
    | reset => exact hs.set fun quota _ => within_zero quota
    | resetAll =>
      intro a quota used hquota hused
      unfold QuotaEnforcer.resetAll at hused
      dsimp only at hused
      rw [Dict.get?_mapValues] at hused
      obtain ⟨m, -, rfl⟩ := Option.map_eq_some_iff.mp hused
      exact within_zero quota
    | refuse | check | usage | quota => exact hs
  · dsimp only at henforcer
    rw [henforcer]
    exact hs

/-- In every run without `record` in which no registration sets a limit below what is used, the
usage of every registered agent is within its limits. -/
theorem cap_never_exceeded (hok : Along step Limited {} calls) (h : run step {} calls = some s) :
    ∀ a quota, s.enforcer.quotas.get? a = some quota →
      ∃ used, s.enforcer.usage.get? a = some used ∧
        ∀ d limit, quota.dimensions d = some limit → used.get d ≤ limit := by
  have hcapped : Capped s := by
    refine run_induction_along (fun s c t hs hok hst => hs.step hok hst) ?_ hok h
    intro a quota used hquota
    cases hquota
  intro a quota hquota
  have hmem := ((accounted_of_run h).keys a).mp (Dict.mem_keys_of_get? hquota)
  obtain ⟨used, hused⟩ := Dict.mem_keys_iff.mp hmem
  exact ⟨used, hused, hcapped a quota used hquota hused⟩

/-- Two requests, of which the second would exceed the limit. -/
def twoRequests : List QuotaCall :=
  [.register thousandTokens, .checkAndRecord "agent_a" { tokens := 700 } false,
    .checkAndRecord "agent_a" { tokens := 400 } false]

/-- `cap_never_exceeded` on these calls. -/
theorem cap_never_exceeded_twoRequests :
    ∃ s, run step {} twoRequests = some s ∧
      ∃ used, s.enforcer.usage.get? "agent_a" = some used ∧ used.get .tokens ≤ 1000 := by
  have hquota : (run step {} twoRequests).bind (fun s => s.enforcer.quotas.get? "agent_a") =
      some thousandTokens := by decide +kernel
  obtain ⟨s, hs, hquota⟩ := Option.bind_eq_some_iff.mp hquota
  obtain ⟨used, hused, hle⟩ := cap_never_exceeded (by decide +kernel) hs "agent_a" _ hquota
  exact ⟨s, hs, used, hused, hle .tokens 1000 rfl⟩

/-! ## Signs -/

/-- No counter is negative. -/
def NonNeg (s : Ledger) : Prop :=
  ∀ a used, s.enforcer.usage.get? a = some used → ∀ d, 0 ≤ used.get d

/-- The call may lower counters. -/
def Lowers : QuotaCall → Prop
  | .reset _ | .resetAll | .unregister _ => True
  | _ => False

/-- The agent and the amounts of a recording call. -/
def recordingOf : QuotaCall → Option (String × Amounts)
  | .record b amounts | .checkAndRecord b amounts _ => some (b, amounts)
  | _ => none

/-- The call raises or returns `False`, and leaves the enforcer as it is. -/
def Refused (s : Ledger) (c : QuotaCall) : Prop :=
  (∃ err, s.enforcer.call c = .error err) ∨ s.enforcer.call c = .ok (.flag false, s.enforcer)

/-- Nothing is forged by the call: no counter is negative before it, it lowers none unless it is a
reset or unregisters, and it is refused if it is to record a negative amount. -/
structure Unforged (s : Ledger) (c : QuotaCall) : Prop where
  nonneg : NonNeg s
  grows : ¬ Lowers c → ∀ t, step s c = some t → ∀ a used, s.enforcer.usage.get? a = some used →
    ∃ used', t.enforcer.usage.get? a = some used' ∧ ∀ d, used.get d ≤ used'.get d
  refused : ∀ b amounts, recordingOf c = some (b, amounts) → (∃ d, amounts.get d < 0) → Refused s c

/-- If the call is `check_and_record` with a negative amount, the agent is not registered, or a
positive amount exceeds what remains of its limit. -/
def NegativeRefused (s : Ledger) (c : QuotaCall) : Prop :=
  match c with
  | .checkAndRecord b requests _ => (∃ d, requests.get d < 0) →
      b ∉ s.enforcer.quotas.keys ∨
      ∃ quota current, s.enforcer.quotas.get? b = some quota ∧
        s.enforcer.usage.get? b = some current ∧ ∃ d limit, quota.dimensions d = some limit ∧
          0 < requests.get d ∧ max 0 (limit - current.get d) < requests.get d
  | _ => True

/-- What is recorded for an agent under the condition is not negative. -/
theorem nonneg_of_fits (hok : s.NegativeRefused (.checkAndRecord b requests false))
    (hquota : s.enforcer.quotas.get? b = some quota)
    (husage : s.enforcer.usage.get? b = some current)
    (hfit : firstViolation b quota current requests = none) (d : Dimension) :
    0 ≤ requests.get d := by
  by_contra hneg
  rcases hok ⟨d, not_le.mp hneg⟩ with hnot | ⟨quota', current', hquota', husage', d', limit, hlimit,
    hpos, hexceeds⟩
  · exact hnot (Dict.mem_keys_of_get? hquota)
  · obtain rfl := Option.some.inj (hquota.symm.trans hquota')
    obtain rfl := Option.some.inj (husage.symm.trans husage')
    exact absurd hexceeds (not_lt.mpr (firstViolation_eq_none_iff.mp hfit d' limit hlimit hpos))

/-- Under the condition, no call that returns adds anything negative. -/
theorem addedTo_nonneg (hok : s.NegativeRefused c) {reply : Reply} {e : QuotaEnforcer}
    (hdoes : s.enforcer.Does c reply e) (a : String) (d : Dimension) :
    0 ≤ (Event.addedTo a ⟨c, .ok reply⟩).get d := by
  have hadded : ∀ {b : String} {amounts : Amounts}, (∀ d, 0 ≤ amounts.get d) →
      0 ≤ (if b = a then amounts else Amounts.zero).get d := by
    intro b amounts hnonneg
    split_ifs
    · exact hnonneg d
    · rw [Amounts.get_zero]
  cases hdoes with
  | record hnonneg => exact hadded hnonneg
  | checkAndRecord hquota husage hfit => exact hadded (nonneg_of_fits hok hquota husage hfit)
  | register | unregister | refuse | reset | resetAll | check | usage | quota =>
    exact (Amounts.get_zero d).ge

/-- What a call does to the usage of an agent, under the condition: it adds to it nothing negative,
unless the call is one that may lower it. -/
theorem usage_step (hs : Accounted s) (hok : s.NegativeRefused c) (h : step s c = some t)
    (a : String) :
    Lowers c ∧ (∀ used', t.enforcer.usage.get? a = some used' → used' = .zero) ∨
    t.enforcer.usage.get? a = some ((s.enforcer.usage.get? a).getD .zero) ∨
    ∃ amounts : Amounts, (∀ d, 0 ≤ amounts.get d) ∧
      t.enforcer.usage.get? a = (s.enforcer.usage.get? a).map (·.add amounts) := by
  obtain ⟨outcome, -, hdoes, husage⟩ := step_event hs.keys h
  rw [husage]
  rcases account_cases a ⟨c, outcome⟩ with ⟨-, -, hopen⟩ | ⟨hunreg, hclose⟩ | ⟨hreset, hempty⟩ |
    ⟨-, -, -, hadd⟩
  · exact .inr (.inl (hopen _))
  · obtain rfl : c = .unregister a := hunreg
    refine .inl ⟨trivial, fun used' hused' => ?_⟩
    rw [hclose] at hused'
    cases hused'
  · refine .inl ⟨?_, fun used' hused' => ?_⟩
    · obtain rfl | rfl := hreset
      · trivial
      · trivial
    · rw [hempty] at hused'
      obtain ⟨_, -, rfl⟩ := Option.map_eq_some_iff.mp hused'
      rfl
  · refine .inr (.inr ⟨_, fun d => ?_, hadd _⟩)
    cases outcome with
    | ok reply => exact addedTo_nonneg hok (hdoes reply rfl) a d
    | error err =>
      have hnone : Event.addedTo a ⟨c, .error err⟩ = .zero := by
        cases c <;> rfl
      rw [hnone, Amounts.get_zero]

/-- Under the condition, counters stay nonnegative. -/
theorem NonNeg.step (hs : NonNeg s) (haccounted : Accounted s) (hok : s.NegativeRefused c)
    (h : Ledger.step s c = some t) : NonNeg t := by
  intro a used' hused' d
  rcases usage_step haccounted hok h a with ⟨-, hlower⟩ | hkeep | ⟨amounts, hnonneg, hadd⟩
  · rw [hlower used' hused', Amounts.get_zero]
  · obtain rfl := Option.some.inj (hkeep.symm.trans hused')
    cases hused : s.enforcer.usage.get? a with
    | none => exact (Amounts.get_zero d).ge
    | some used => exact hs a used hused d
  · obtain ⟨used, hused, rfl⟩ := Option.map_eq_some_iff.mp (hadd.symm.trans hused')
    rw [Amounts.get_add]
    exact add_nonneg (hs a used hused d) (hnonneg d)

/-- Under the condition, nothing is forged by a step. -/
theorem unforged_of_refused (hs : NonNeg s) (haccounted : Accounted s)
    (hok : s.NegativeRefused c) : Unforged s c := by
  refine ⟨hs, fun hlower t hst a used hused => ?_, fun b amounts hrecording ⟨d, hneg⟩ => ?_⟩
  · rcases usage_step haccounted hok hst a with ⟨hlower', -⟩ | hkeep | ⟨amounts, hnonneg, hadd⟩
    · exact absurd hlower' hlower
    · rw [hused] at hkeep
      exact ⟨used, hkeep, fun _ => le_rfl⟩
    · rw [hused] at hadd
      refine ⟨_, hadd, fun d => ?_⟩
      rw [Amounts.get_add]
      linarith [hnonneg d]
  · cases hcall : s.enforcer.call c with
    | error err => exact .inl ⟨err, hcall⟩
    | ok result =>
      obtain ⟨reply, e⟩ := result
      cases QuotaEnforcer.call_does hcall with
      | record hnonneg =>
        obtain ⟨rfl, rfl⟩ := Prod.mk.inj (Option.some.inj hrecording)
        exact absurd hneg (not_lt.mpr (hnonneg d))
      | checkAndRecord hquota husage hfit =>
        obtain ⟨rfl, rfl⟩ := Prod.mk.inj (Option.some.inj hrecording)
        exact absurd hneg (not_lt.mpr (nonneg_of_fits hok hquota husage hfit d))
      | refuse => exact .inr hcall
      | register | unregister | reset | resetAll | check | usage | quota => cases hrecording

/-- A step that forges nothing meets the condition. -/
theorem Unforged.negativeRefused (hs : Accounted s) (h : Unforged s c) : s.NegativeRefused c := by
  cases c with
  | checkAndRecord b requests raises =>
    intro hneg
    by_contra hnot
    rw [not_or, not_not] at hnot
    obtain ⟨hmem, hfits⟩ := hnot
    obtain ⟨quota, current, hentry⟩ := QuotaEnforcer.entry_of_mem hs.keys hmem
    obtain ⟨hquota, husage⟩ := QuotaEnforcer.entry_eq_ok.mp hentry
    have hfit : firstViolation b quota current requests = none := by
      refine firstViolation_eq_none_iff.mpr fun d limit hlimit hpos => ?_
      by_contra hexceeds
      exact hfits ⟨quota, current, hquota, husage, d, limit, hlimit, hpos, not_le.mp hexceeds⟩
    -- The agent has an entry and nothing is exceeded: the call records.
    rcases h.refused b requests rfl hneg with ⟨err, herr⟩ | hflag
    · cases QuotaEnforcer.call_raises herr with
      | notRegistered hb hnotMem =>
        obtain rfl := Option.some.inj hb
        exact hnotMem hmem
      | keyError hb _ hnotMem =>
        obtain rfl := Option.some.inj hb
        exact hnotMem ((hs.keys _).mp hmem)
      | violation hquota' husage' hviolation =>
        obtain rfl := Option.some.inj (hquota.symm.trans hquota')
        obtain rfl := Option.some.inj (husage.symm.trans husage')
        rw [hfit] at hviolation
        cases hviolation
    · cases QuotaEnforcer.call_does hflag with
      | refuse hquota' husage' hviolation =>
        obtain rfl := Option.some.inj (hquota.symm.trans hquota')
        obtain rfl := Option.some.inj (husage.symm.trans husage')
        exact hviolation hfit
  | register | unregister | check | record | reset | resetAll | usage | quota => trivial

/-- In a run, no counter is ever negative, only resets and unregistrations lower counters, and every
negative amount is refused, exactly when every `check_and_record` with a negative amount is refused
for another reason. -/
theorem unforged_iff (calls : List QuotaCall) :
    (Along step Unforged {} calls ∧ ∀ s, run step {} calls = some s → NonNeg s) ↔
      Along step NegativeRefused {} calls := by
  constructor
  · rintro ⟨hunforged, -⟩
    exact along_of_invariant (fun s c t hs _ hst => hs.step hst)
      (fun s c hs hc => hc.negativeRefused hs) ⟨fun _ => Iff.rfl, fun _ => rfl⟩ hunforged
  · intro hok
    have hinit : NonNeg {} ∧ Accounted {} := by
      refine ⟨fun a used hused => ?_, fun _ => Iff.rfl, fun _ => rfl⟩
      cases hused
    have hstep : ∀ s c t, NonNeg s ∧ Accounted s → NegativeRefused s c → step s c = some t →
        NonNeg t ∧ Accounted t :=
      fun s c t hs hc hst => ⟨hs.1.step hs.2 hc hst, hs.2.step hst⟩
    exact ⟨along_of_invariant hstep (fun s c hs hc => unforged_of_refused hs.1 hs.2 hc) hinit hok,
      fun s h => (run_induction_along hstep hinit hok h).1⟩

/-- A negative amount given to `check_and_record` for an agent without limits. -/
def negativeTokens : List QuotaCall :=
  [.register unlimited, .checkAndRecord "agent_a" { tokens := -5 } true]

/-- The call returns `True`, and the counter is negative. -/
theorem negative_recorded :
    ∃ s used, run step {} negativeTokens = some s ∧ s.enforcer.usage.get? "agent_a" = some used ∧
      used.get .tokens = -5 ∧ (s.history.map (·.outcome)).getLast? = some (.ok (.flag true)) ∧
      ¬ (Along step Unforged {} negativeTokens ∧
        ∀ s, run step {} negativeTokens = some s → NonNeg s) := by
  have hused : ((run step {} negativeTokens).bind fun s =>
      (s.enforcer.usage.get? "agent_a").map fun used =>
        (used, (s.history.map (·.outcome)).getLast?)) =
      some ({ tokens := -5 }, some (.ok (.flag true))) := by decide +kernel
  obtain ⟨s, hs, hused⟩ := Option.bind_eq_some_iff.mp hused
  obtain ⟨used, hget, hpair⟩ := Option.map_eq_some_iff.mp hused
  obtain ⟨rfl, hlast⟩ := Prod.mk.inj hpair
  refine ⟨s, _, hs, hget, rfl, hlast, ?_⟩
  rintro ⟨-, hnonneg⟩
  exact absurd (hnonneg s hs "agent_a" _ hget .tokens) (by decide +kernel)

end Ledger

end MeshRouter.Quotas
