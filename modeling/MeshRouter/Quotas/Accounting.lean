import MeshRouter.Lib.Fallible
import MeshRouter.Lib.History
import MeshRouter.Lib.Runs
import MeshRouter.Quotas.ResourceQuota

/-!
# What the counters count

The counters of one agent are an account: nothing for an agent without a usage record, and a call
changes it in a way that is said without the dictionaries (`account`). `usage_call` is the
refinement, over an enforcer whose two dictionaries hold the same agents (`SameKeys`), and
`usage_refused` says that a call that raises changes no account.

What an account holds is then a question about the history alone (`accountOf_spec`): an agent has
one if it was registered and not unregistered since, and it holds the sum of what was added after
the last event that started it at zero. `usage_accounted` puts this together for every run.
-/

namespace MeshRouter.Quotas

open Lib

/-! ## Events and accounts -/

/-- A call and what came of it. -/
structure Event where
  call : QuotaCall
  outcome : Except QuotaError Reply
deriving DecidableEq

/-- The agent and the amounts that a successful recording call adds. -/
def Event.added : Event → Option (String × Amounts)
  | ⟨.record agentId amounts, .ok _⟩ => some (agentId, amounts)
  | ⟨.checkAndRecord agentId requests _, .ok (.flag true)⟩ => some (agentId, requests)
  | _ => none

/-- The agent that a call is for. `reset_all` is for all of them. -/
def QuotaCall.agentId? : QuotaCall → Option String
  | .register q => some q.agentId
  | .unregister b | .check b _ _ | .record b _ | .checkAndRecord b _ _ | .reset b | .usage b
  | .quota b => some b
  | .resetAll => none

/-- What an event does to the account of an agent. -/
def account (agentId : String) : Event → Option Amounts → Option Amounts
  | ⟨.register quota, _⟩, used =>
    if quota.agentId = agentId then some (used.getD .zero) else used
  | ⟨.unregister b, _⟩, used => if b = agentId then none else used
  | ⟨.reset b, _⟩, used => if b = agentId then used.map fun _ => .zero else used
  | ⟨.resetAll, _⟩, used => used.map fun _ => .zero
  | ⟨.record b amounts, .ok _⟩, used => if b = agentId then used.map (·.add amounts) else used
  | ⟨.checkAndRecord b requests _, .ok (.flag true)⟩, used =>
    if b = agentId then used.map (·.add requests) else used
  | _, used => used

/-- An event of a call for another agent does not change the account. -/
theorem account_of_ne {a b : String} {ev : Event} (hb : ev.call.agentId? = some b) (hne : b ≠ a)
    (used : Option Amounts) : account a ev used = used := by
  fun_cases account a ev used <;> simp_all [QuotaCall.agentId?]

/-! ## Calls and accounts -/

namespace QuotaEnforcer

/-- What a call that returns does. -/
inductive Does (e : QuotaEnforcer) : QuotaCall → Reply → QuotaEnforcer → Prop where
  | register (quota : ResourceQuota) : Does e (.register quota) .done (e.register quota)
  | unregister (b : String) : Does e (.unregister b) (.flag (e.unregister b).1) (e.unregister b).2
  | record {b : String} {quota : ResourceQuota} {current amounts : Amounts} :
      (∀ d, 0 ≤ amounts.get d) → e.quotas.get? b = some quota → e.usage.get? b = some current →
      Does e (.record b amounts) .done { e with usage := e.usage.set b (current.add amounts) }
  | checkAndRecord {b : String} {quota : ResourceQuota} {current requests : Amounts}
      {raises : Bool} :
      e.quotas.get? b = some quota → e.usage.get? b = some current →
      firstViolation b quota current requests = none →
      Does e (.checkAndRecord b requests raises) (.flag true)
        { e with usage := e.usage.set b (current.add requests) }
  | refuse {b : String} {quota : ResourceQuota} {current requests : Amounts} :
      e.quotas.get? b = some quota → e.usage.get? b = some current →
      firstViolation b quota current requests ≠ none →
      Does e (.checkAndRecord b requests false) (.flag false) e
  | reset {b : String} : b ∈ e.quotas.keys →
      Does e (.reset b) .done { e with usage := e.usage.set b .zero }
  | resetAll : Does e .resetAll .done e.resetAll
  | check (b : String) (requests : Amounts) (raises allowed : Bool) :
      Does e (.check b requests raises) (.flag allowed) e
  | usage (b : String) (used : Amounts) : Does e (.usage b) (.usage used) e
  | quota (b : String) (quota : ResourceQuota) : Does e (.quota b) (.quota quota) e

/-- What a call that raises has found. -/
inductive Raises (e : QuotaEnforcer) : QuotaCall → QuotaError → Prop where
  | notRegistered {c : QuotaCall} {b : String} : c.agentId? = some b → b ∉ e.quotas.keys →
      (∀ q, c ≠ .register q) → c ≠ .unregister b → Raises e c (.notRegistered b)
  | keyError {c : QuotaCall} {b : String} : c.agentId? = some b → b ∈ e.quotas.keys →
      b ∉ e.usage.keys → Raises e c (.keyError b)
  | negative {b : String} {amounts : Amounts} {d : Dimension} : amounts.get d < 0 →
      Raises e (.record b amounts) (.negative d (amounts.get d))
  | checkViolation (b : String) (requests : Amounts) (violation : QuotaViolation) :
      Raises e (.check b requests true) (.violation violation)
  | violation {b : String} {quota : ResourceQuota} {current requests : Amounts}
      {violation : QuotaViolation} :
      e.quotas.get? b = some quota → e.usage.get? b = some current →
      firstViolation b quota current requests = some violation →
      Raises e (.checkAndRecord b requests true) (.violation violation)

variable {e e' : QuotaEnforcer} {reply : Reply} {err : QuotaError} {c : QuotaCall} {a b : String}
  {quota : ResourceQuota} {current amounts : Amounts}

/-- The two dictionaries hold the same agents. -/
def SameKeys (e : QuotaEnforcer) : Prop := ∀ a, a ∈ e.quotas.keys ↔ a ∈ e.usage.keys

/-- An entry is a quota with its usage. -/
theorem entry_eq_ok :
    e.entry a = .ok (quota, current) ↔
      e.quotas.get? a = some quota ∧ e.usage.get? a = some current := by
  unfold entry
  cases e.quotas.get? a with
  | none => simp
  | some q =>
    cases e.usage.get? a with
    | none => simp
    | some m => simp

/-- An agent has no entry when a dictionary does not hold it. -/
theorem entry_eq_error :
    e.entry a = .error err ↔
      (err = .notRegistered a ∧ a ∉ e.quotas.keys) ∨
      (err = .keyError a ∧ a ∈ e.quotas.keys ∧ a ∉ e.usage.keys) := by
  unfold entry
  cases hquota : e.quotas.get? a with
  | none =>
    have hnot := Dict.get?_eq_none_iff.mp hquota
    simp [hnot, eq_comm]
  | some q =>
    have hmem := Dict.mem_keys_of_get? hquota
    cases husage : e.usage.get? a with
    | none =>
      have hnot := Dict.get?_eq_none_iff.mp husage
      simp [hmem, hnot, eq_comm]
    | some m =>
      have hmem' := Dict.mem_keys_of_get? husage
      simp [hmem, hmem']

/-- An agent that is registered has an entry. -/
theorem entry_of_mem (hkeys : e.SameKeys) (ha : a ∈ e.quotas.keys) :
    ∃ quota current, e.entry a = .ok (quota, current) := by
  obtain ⟨quota, hquota⟩ := Dict.mem_keys_iff.mp ha
  obtain ⟨current, hcurrent⟩ := Dict.mem_keys_iff.mp ((hkeys a).mp ha)
  exact ⟨quota, current, entry_eq_ok.mpr ⟨hquota, hcurrent⟩⟩

/-- A call that returns does what its method says. -/
theorem call_does (h : e.call c = .ok (reply, e')) : Does e c reply e' := by
  cases c with
  | register quota =>
    obtain ⟨rfl, rfl⟩ := Prod.mk.inj (Except.ok.inj h)
    exact .register quota
  | unregister b =>
    obtain ⟨rfl, rfl⟩ := Prod.mk.inj (Except.ok.inj h)
    exact .unregister b
  | check b requests raises =>
    obtain ⟨allowed, -, hreply⟩ := bind_eq_ok.mp h
    obtain ⟨rfl, rfl⟩ := Prod.mk.inj (Except.ok.inj hreply)
    exact .check b requests raises allowed
  | record b amounts =>
    obtain ⟨e'', hrecord, hreply⟩ := bind_eq_ok.mp h
    obtain ⟨rfl, rfl⟩ := Prod.mk.inj (Except.ok.inj hreply)
    unfold record at hrecord
    split at hrecord
    · cases hrecord
    · next hfind =>
      obtain ⟨entry, hentry, hset⟩ := bind_eq_ok.mp hrecord
      obtain ⟨hquota, husage⟩ := entry_eq_ok.mp hentry
      obtain rfl := Except.ok.inj hset
      refine .record (fun d => ?_) hquota husage
      simpa using List.find?_eq_none.mp hfind d d.mem_all
  | checkAndRecord b requests raises =>
    obtain ⟨⟨allowed, e''⟩, hcheck, hreply⟩ := bind_eq_ok.mp h
    obtain ⟨rfl, rfl⟩ := Prod.mk.inj (Except.ok.inj hreply)
    obtain ⟨⟨quota, current⟩, hentry, hrest⟩ := bind_eq_ok.mp hcheck
    obtain ⟨hquota, husage⟩ := entry_eq_ok.mp hentry
    dsimp only at hrest
    split at hrest
    · next hfit =>
      obtain ⟨rfl, rfl⟩ := Prod.mk.inj (Except.ok.inj hrest)
      exact .checkAndRecord hquota husage hfit
    · next hviolation =>
      cases raises with
      | true => cases hrest
      | false =>
        obtain ⟨rfl, rfl⟩ := Prod.mk.inj (Except.ok.inj hrest)
        exact .refuse hquota husage (by simp [hviolation])
  | reset b =>
    obtain ⟨e'', hreset, hreply⟩ := bind_eq_ok.mp h
    obtain ⟨rfl, rfl⟩ := Prod.mk.inj (Except.ok.inj hreply)
    unfold reset at hreset
    split_ifs at hreset with hb
    obtain rfl := Except.ok.inj hreset
    exact .reset hb
  | resetAll =>
    obtain ⟨rfl, rfl⟩ := Prod.mk.inj (Except.ok.inj h)
    exact .resetAll
  | usage b =>
    obtain ⟨entry, -, hreply⟩ := bind_eq_ok.mp h
    obtain ⟨rfl, rfl⟩ := Prod.mk.inj (Except.ok.inj hreply)
    exact .usage b entry.2
  | quota b =>
    unfold call at h
    dsimp only at h
    split at h
    · cases h
    · obtain ⟨rfl, rfl⟩ := Prod.mk.inj (Except.ok.inj h)
      exact .quota b _

/-- An agent without an entry makes the methods that look it up raise. -/
theorem raises_of_entry (hentry : e.entry b = .error err) (hb : c.agentId? = some b)
    (hregister : ∀ q, c ≠ .register q) (hunregister : c ≠ .unregister b) : Raises e c err := by
  rcases entry_eq_error.mp hentry with ⟨rfl, hnot⟩ | ⟨rfl, hmem, hnot⟩
  · exact .notRegistered hb hnot hregister hunregister
  · exact .keyError hb hmem hnot

/-- A call that raises has found what its method says. -/
theorem call_raises (h : e.call c = .error err) : Raises e c err := by
  cases c with
  | register quota => cases h
  | unregister b => cases h
  | check b requests raises =>
    rcases bind_eq_error.mp h with hcheck | ⟨allowed, -, hreply⟩
    · rcases bind_eq_error.mp hcheck with hentry | ⟨entry, -, hrest⟩
      · exact raises_of_entry hentry rfl (by simp) (by simp)
      · dsimp only at hrest
        split at hrest
        · cases hrest
        · cases raises with
          | true =>
            obtain rfl := Except.error.inj hrest
            exact .checkViolation b requests _
          | false => cases hrest
    · cases hreply
  | record b amounts =>
    rcases bind_eq_error.mp h with hrecord | ⟨e'', -, hreply⟩
    · unfold record at hrecord
      split at hrecord
      · next d hfind =>
        obtain rfl := Except.error.inj hrecord
        exact .negative (by simpa using List.find?_some hfind)
      · rcases bind_eq_error.mp hrecord with hentry | ⟨entry, -, hset⟩
        · exact raises_of_entry hentry rfl (by simp) (by simp)
        · cases hset
    · cases hreply
  | checkAndRecord b requests raises =>
    rcases bind_eq_error.mp h with hcheck | ⟨result, -, hreply⟩
    · rcases bind_eq_error.mp hcheck with hentry | ⟨⟨quota, current⟩, hentry, hrest⟩
      · exact raises_of_entry hentry rfl (by simp) (by simp)
      · obtain ⟨hquota, husage⟩ := entry_eq_ok.mp hentry
        dsimp only at hrest
        split at hrest
        · cases hrest
        · next hviolation =>
          cases raises with
          | true =>
            obtain rfl := Except.error.inj hrest
            exact .violation hquota husage hviolation
          | false => cases hrest
    · cases hreply
  | reset b =>
    rcases bind_eq_error.mp h with hreset | ⟨e'', -, hreply⟩
    · unfold reset at hreset
      split_ifs at hreset with hb
      obtain rfl := Except.error.inj hreset
      exact .notRegistered rfl hb (by simp) (by simp)
    · cases hreply
  | resetAll => cases h
  | usage b =>
    rcases bind_eq_error.mp h with hentry | ⟨entry, -, hreply⟩
    · exact raises_of_entry hentry rfl (by simp) (by simp)
    · cases hreply
  | quota b =>
    unfold call at h
    dsimp only at h
    split at h
    · next hnone =>
      obtain rfl := Except.error.inj h
      exact .notRegistered rfl (Dict.get?_eq_none_iff.mp hnone) (by simp) (by simp)
    · cases h

/-- A call that returns keeps the two dictionaries over the same agents. -/
theorem Does.sameKeys (h : Does e c reply e') (hkeys : e.SameKeys) : e'.SameKeys := by
  -- A usage record is only replaced for an agent that has one.
  have hset : ∀ {b : String} {m : Amounts}, b ∈ e.usage.keys →
      SameKeys { e with usage := e.usage.set b m } := by
    intro b m hb a
    rw [Dict.keys_set_of_mem hb]
    exact hkeys a
  cases h with
  | register quota =>
    intro a
    unfold QuotaEnforcer.register
    rw [Dict.mem_keys_set, hkeys a]
    split_ifs with hmem
    · constructor
      · rintro (rfl | ha)
        · exact hmem
        · exact ha
      · exact Or.inr
    · rw [Dict.mem_keys_set]
  | unregister b =>
    unfold QuotaEnforcer.unregister
    split_ifs with hb
    · intro a
      rw [Dict.keys_erase, Dict.keys_erase, List.mem_filter, List.mem_filter, hkeys a]
    · exact hkeys
  | record _ _ husage => exact hset (Dict.mem_keys_of_get? husage)
  | checkAndRecord _ husage _ => exact hset (Dict.mem_keys_of_get? husage)
  | reset hb => exact hset ((hkeys _).mp hb)
  | resetAll =>
    intro a
    unfold QuotaEnforcer.resetAll
    rw [Dict.keys_mapValues]
    exact hkeys a
  | refuse | check | usage | quota => exact hkeys

/-- A call that returns changes the accounts as its event does. -/
theorem usage_call (h : Does e c reply e') (hkeys : e.SameKeys) (a : String) :
    e'.usage.get? a = account a ⟨c, .ok reply⟩ (e.usage.get? a) := by
  cases h with
  | register quota =>
    unfold register account
    dsimp only
    split_ifs with hmem ha ha
    · subst ha
      obtain ⟨m, hm⟩ := Dict.mem_keys_iff.mp hmem
      rw [hm]
      rfl
    · rfl
    · subst ha
      rw [Dict.get?_set, if_pos rfl, Dict.get?_eq_none_iff.mpr hmem]
      rfl
    · rw [Dict.get?_set, if_neg (Ne.symm ha)]
  | unregister b =>
    unfold unregister account
    dsimp only
    split_ifs with hb ha ha
    · subst ha
      rw [Dict.get?_erase, if_pos rfl]
    · rw [Dict.get?_erase, if_neg (Ne.symm ha)]
    · subst ha
      exact Dict.get?_eq_none_iff.mpr fun hmem => hb ((hkeys b).mpr hmem)
    · rfl
  | record _ _ husage | checkAndRecord _ husage _ => exact Dict.get?_set_of_get? husage (·.add _) a
  | reset hb =>
    obtain ⟨m, hm⟩ := Dict.mem_keys_iff.mp ((hkeys _).mp hb)
    exact Dict.get?_set_of_get? hm (fun _ => .zero) a
  | resetAll => exact Dict.get?_mapValues _ _ _
  | refuse | check | usage | quota => rfl

/-- The event of a call that raises changes no account. -/
theorem usage_refused (h : Raises e c err) (hkeys : e.SameKeys) (a : String) :
    account a ⟨c, .error err⟩ (e.usage.get? a) = e.usage.get? a := by
  cases h with
  | notRegistered hb hnot hregister hunregister =>
    cases c with
    | register quota => exact absurd rfl (hregister quota)
    | unregister b =>
      obtain rfl := Option.some.inj hb
      exact absurd rfl hunregister
    | reset b =>
      obtain rfl := Option.some.inj hb
      unfold account
      dsimp only
      split_ifs with ha
      · subst ha
        rw [Dict.get?_eq_none_iff.mpr fun hmem => hnot ((hkeys b).mpr hmem)]
        rfl
      · rfl
    | resetAll => cases hb
    | check | record | checkAndRecord | usage | quota => rfl
  | keyError hb hmem hnot => exact absurd ((hkeys _).mp hmem) hnot
  | negative | checkViolation | violation => rfl

end QuotaEnforcer

/-! ## What an account holds -/

section Account

variable {a : String} {h : List Event} {ev : Event} {used : Option Amounts}

/-- The event registers the agent. -/
def Registers (a : String) (ev : Event) : Prop :=
  ∃ quota, ev.call = .register quota ∧ quota.agentId = a

/-- The event unregisters the agent. -/
def Unregisters (a : String) (ev : Event) : Prop := ev.call = .unregister a

/-- The agent was registered, and not unregistered since. -/
def RegisteredIn (a : String) (h : List Event) : Prop := Since (Registers a) (Unregisters a) h

/-- The event starts the counters of the agent at zero: a reset of the agent or of all agents, or
the first registration after the last time that it was unregistered. -/
def Starts (a : String) (before : List Event) (ev : Event) : Prop :=
  ev.call = .reset a ∨ ev.call = .resetAll ∨ (Registers a ev ∧ ¬ RegisteredIn a before)

/-- What a successful recording call adds to the counters of the agent. -/
def Event.addedTo (a : String) (ev : Event) : Amounts :=
  match ev.added with
  | some (b, amounts) => if b = a then amounts else .zero
  | none => .zero

/-- The sum of the amounts of the successful recording calls for the agent. -/
def recorded (a : String) (d : Dimension) (h : List Event) : ℚ :=
  (h.map fun ev => (ev.addedTo a).get d).sum

theorem recorded_concat (d : Dimension) :
    recorded a d (h ++ [ev]) = recorded a d h + (ev.addedTo a).get d := by
  unfold recorded
  rw [List.map_append, List.sum_append, List.map_singleton, List.sum_singleton]

/-- The account of an agent after a history. -/
def accountOf (a : String) (h : List Event) : Option Amounts :=
  h.foldl (fun used ev => account a ev used) none

theorem accountOf_concat : accountOf a (h ++ [ev]) = account a ev (accountOf a h) := by
  rw [accountOf, List.foldl_append]
  rfl

/-- An event that neither registers the agent, nor unregisters it, nor resets it, adds to the
account what it records. -/
theorem account_of_other (hreg : ¬ Registers a ev) (hunreg : ¬ Unregisters a ev)
    (hreset : ¬ (ev.call = .reset a ∨ ev.call = .resetAll)) (used : Option Amounts) :
    account a ev used = used.map (·.add (ev.addedTo a)) := by
  have hzero : ∀ m : Amounts, m.add .zero = m := by
    intro m
    simp [Amounts.add, Amounts.zero]
  obtain ⟨call, outcome⟩ := ev
  cases call with
  | register quota =>
    have ha : quota.agentId ≠ a := fun heq => hreg ⟨quota, rfl, heq⟩
    simp [account, ha, Event.addedTo, Event.added, hzero]
  | unregister b =>
    have hb : b ≠ a := fun heq => hunreg (congrArg _ heq)
    simp [account, hb, Event.addedTo, Event.added, hzero]
  | reset b =>
    have hb : b ≠ a := fun heq => hreset (.inl (congrArg _ heq))
    simp [account, hb, Event.addedTo, Event.added, hzero]
  | resetAll => exact absurd (.inr rfl) hreset
  | record b amounts =>
    cases outcome with
    | error err => simp [account, Event.addedTo, Event.added, hzero]
    | ok reply =>
      by_cases hb : b = a
      · simp [account, hb, Event.addedTo, Event.added]
      · simp [account, hb, Event.addedTo, Event.added, hzero]
  | checkAndRecord b requests raises =>
    by_cases hok : outcome = .ok (.flag true)
    · subst hok
      by_cases hb : b = a
      · simp [account, hb, Event.addedTo, Event.added]
      · simp [account, hb, Event.addedTo, Event.added, hzero]
    · unfold account Event.addedTo Event.added
      split <;> simp_all
  | check | usage | quota => simp [account, Event.addedTo, Event.added, hzero]

/-- What the event does to the account: it opens it, closes it, empties it, or adds to it. -/
theorem account_cases (a : String) (ev : Event) :
    (Registers a ev ∧ (ev.addedTo a) = .zero ∧ ∀ used, account a ev used = some (used.getD .zero)) ∨
    (Unregisters a ev ∧ ∀ used, account a ev used = none) ∨
    ((ev.call = .reset a ∨ ev.call = .resetAll) ∧
      ∀ used, account a ev used = used.map fun _ => .zero) ∨
    (¬ Registers a ev ∧ ¬ Unregisters a ev ∧ ¬ (ev.call = .reset a ∨ ev.call = .resetAll) ∧
      ∀ used, account a ev used = used.map (·.add (ev.addedTo a))) := by
  by_cases hreg : Registers a ev
  · obtain ⟨call, outcome⟩ := ev
    obtain ⟨quota, rfl, ha⟩ := id hreg
    exact .inl ⟨hreg, rfl, fun used => if_pos ha⟩
  by_cases hunreg : Unregisters a ev
  · obtain ⟨call, outcome⟩ := ev
    obtain rfl : call = .unregister a := hunreg
    exact .inr (.inl ⟨rfl, fun used => if_pos rfl⟩)
  by_cases hreset : ev.call = .reset a ∨ ev.call = .resetAll
  · refine .inr (.inr (.inl ⟨hreset, fun used => ?_⟩))
    obtain ⟨call, outcome⟩ := ev
    obtain rfl | rfl := hreset
    · exact if_pos rfl
    · rfl
  · exact .inr (.inr (.inr ⟨hreg, hunreg, hreset, account_of_other hreg hunreg hreset⟩))

/-- What an account is, over the history: there is one for a registered agent, and it holds what was
recorded since it was last started at zero. -/
structure AccountSpec (a : String) (h : List Event) (used : Option Amounts) : Prop where
  registered : used.isSome = true ↔ RegisteredIn a h
  holds : ∀ m, used = some m → ∃ after, LastAt (Starts a) h after ∧
    ∀ d, m.get d = recorded a d after

/-- An event that starts the counters leaves them at zero. -/
theorem AccountSpec.start (hstart : Starts a h ev)
    (hregistered : used.isSome = true ↔ RegisteredIn a (h ++ [ev]))
    (hzero : ∀ m, used = some m → m = .zero) : AccountSpec a (h ++ [ev]) used := by
  refine ⟨hregistered, fun m hm => ⟨[], lastAt_concat.mpr (.inl ⟨hstart, rfl⟩), fun d => ?_⟩⟩
  rw [hzero m hm, Amounts.get_zero]
  rfl

/-- Any other event adds to them. -/
theorem AccountSpec.goOn (hspec : AccountSpec a h used) (hstart : ¬ Starts a h ev)
    {used' : Option Amounts} (hregistered : used'.isSome = true ↔ RegisteredIn a (h ++ [ev]))
    (hadd : ∀ m', used' = some m' → ∃ m, used = some m ∧
      ∀ d, m'.get d = m.get d + (ev.addedTo a).get d) :
    AccountSpec a (h ++ [ev]) used' := by
  refine ⟨hregistered, fun m' hm' => ?_⟩
  obtain ⟨m, hm, hget⟩ := hadd m' hm'
  obtain ⟨after, hlast, hsum⟩ := hspec.holds m hm
  refine ⟨after ++ [ev], lastAt_concat.mpr (.inr ⟨hstart, after, rfl, hlast⟩), fun d => ?_⟩
  rw [hget, hsum, recorded_concat]

/-- One more event. -/
theorem AccountSpec.step (hspec : AccountSpec a h used) (ev : Event) :
    AccountSpec a (h ++ [ev]) (account a ev used) := by
  have hsince : RegisteredIn a (h ++ [ev]) ↔
      Registers a ev ∨ RegisteredIn a h ∧ ¬ Unregisters a ev := since_concat
  rcases account_cases a ev with ⟨hreg, hzero, hopen⟩ | ⟨hunreg, hclose⟩ | ⟨hreset, hempty⟩ |
    ⟨hreg, hunreg, hreset, hadd⟩
  · have hregistered : (some (used.getD .zero)).isSome = true ↔ RegisteredIn a (h ++ [ev]) :=
      iff_of_true rfl (hsince.mpr (.inl hreg))
    have hcall : ¬ (ev.call = .reset a ∨ ev.call = .resetAll) := by
      obtain ⟨quota, hquota, -⟩ := hreg
      simp [hquota]
    rw [hopen]
    by_cases hold : RegisteredIn a h
    · -- The agent is registered already, and keeps its usage.
      refine hspec.goOn ?_ hregistered ?_
      · rintro (hr | hr | ⟨-, hnot⟩)
        · exact hcall (.inl hr)
        · exact hcall (.inr hr)
        · exact hnot hold
      · rintro m' ⟨⟩
        obtain ⟨m, rfl⟩ := Option.isSome_iff_exists.mp (hspec.registered.mpr hold)
        exact ⟨m, rfl, fun d => by simp [hzero]⟩
    · refine AccountSpec.start (.inr (.inr ⟨hreg, hold⟩)) hregistered ?_
      have hnone : used = none := by
        simpa using fun hsome => hold (hspec.registered.mp hsome)
      rintro m ⟨⟩
      rw [hnone]
      rfl
  · have hnot : ¬ RegisteredIn a (h ++ [ev]) := by
      rw [hsince]
      rintro (⟨quota, hquota, -⟩ | ⟨-, hnot⟩)
      · rw [Unregisters, hquota] at hunreg
        cases hunreg
      · exact hnot hunreg
    rw [hclose]
    exact ⟨iff_of_false (by simp) hnot, nofun⟩
  · rw [hempty]
    refine AccountSpec.start (hreset.imp_right .inl) ?_ ?_
    · have hreg : ¬ Registers a ev := by
        rintro ⟨quota, hquota, -⟩
        simp [hquota] at hreset
      have hunreg : ¬ Unregisters a ev := by
        intro hcall
        rw [Unregisters] at hcall
        simp [hcall] at hreset
      rw [hsince, Option.isSome_map, hspec.registered]
      tauto
    · intro m hm
      obtain ⟨_, -, rfl⟩ := Option.map_eq_some_iff.mp hm
      rfl
  · rw [hadd]
    refine hspec.goOn ?_ ?_ ?_
    · rintro (hr | hr | ⟨hr, -⟩)
      · exact hreset (.inl hr)
      · exact hreset (.inr hr)
      · exact hreg hr
    · rw [hsince, Option.isSome_map, hspec.registered]
      tauto
    · intro m' hm'
      obtain ⟨m, rfl, rfl⟩ := Option.map_eq_some_iff.mp hm'
      exact ⟨m, rfl, fun d => Amounts.get_add m _ d⟩

/-- The account of an agent is what its specification says. -/
theorem accountOf_spec (a : String) (h : List Event) : AccountSpec a h (accountOf a h) := by
  induction h using List.reverseRecOn with
  | nil => exact ⟨iff_of_false (by simp [accountOf]) not_since_nil, nofun⟩
  | append_singleton h ev ih =>
    rw [accountOf_concat]
    exact ih.step ev

end Account

/-! ## Runs -/

/-- An enforcer and the history of its calls. -/
structure Ledger where
  enforcer : QuotaEnforcer := {}
  history : List Event := []

namespace Ledger

variable {s t : Ledger} {c : QuotaCall} {calls : List QuotaCall}

/-- One call. A call that raises leaves the enforcer as it is. -/
def step (s : Ledger) (c : QuotaCall) : Option Ledger :=
  match s.enforcer.call c with
  | .ok (reply, e) => some ⟨e, s.history ++ [⟨c, .ok reply⟩]⟩
  | .error err => some ⟨s.enforcer, s.history ++ [⟨c, .error err⟩]⟩

/-- A call does what its method says, or raises. -/
theorem step_cases (h : step s c = some t) :
    (∃ reply, s.enforcer.Does c reply t.enforcer ∧ t.history = s.history ++ [⟨c, .ok reply⟩] ∧
      s.enforcer.call c = .ok (reply, t.enforcer)) ∨
    (∃ err, s.enforcer.Raises c err ∧ t.enforcer = s.enforcer ∧
      t.history = s.history ++ [⟨c, .error err⟩] ∧ s.enforcer.call c = .error err) := by
  unfold step at h
  cases hcall : s.enforcer.call c with
  | ok result =>
    rw [hcall] at h
    obtain rfl := Option.some.inj h
    exact .inl ⟨result.1, QuotaEnforcer.call_does hcall, rfl, rfl⟩
  | error err =>
    rw [hcall] at h
    obtain rfl := Option.some.inj h
    exact .inr ⟨err, QuotaEnforcer.call_raises hcall, rfl, rfl, rfl⟩

/-- The invariant of a run: both dictionaries hold the same agents, and the usage records are the
accounts of the history. -/
structure Accounted (s : Ledger) : Prop where
  keys : s.enforcer.SameKeys
  usage : ∀ a, s.enforcer.usage.get? a = accountOf a s.history

/-- A step appends its event to the history, and changes the usage records as the event changes the
accounts. -/
theorem step_event (hkeys : s.enforcer.SameKeys) (h : step s c = some t) :
    ∃ outcome, t.history = s.history ++ [⟨c, outcome⟩] ∧
      (∀ reply, outcome = .ok reply → s.enforcer.Does c reply t.enforcer) ∧
      ∀ a, t.enforcer.usage.get? a = account a ⟨c, outcome⟩ (s.enforcer.usage.get? a) := by
  rcases step_cases h with ⟨reply, hdoes, hhistory, -⟩ | ⟨err, hraises, henforcer, hhistory, -⟩
  · refine ⟨.ok reply, hhistory, ?_, QuotaEnforcer.usage_call hdoes hkeys⟩
    rintro _ ⟨⟩
    exact hdoes
  · refine ⟨.error err, hhistory, nofun, fun a => ?_⟩
    rw [henforcer, QuotaEnforcer.usage_refused hraises hkeys]

/-- A step keeps the two dictionaries over the same agents. -/
theorem sameKeys_step (hkeys : s.enforcer.SameKeys) (h : step s c = some t) :
    t.enforcer.SameKeys := by
  rcases step_cases h with ⟨reply, hdoes, -, -⟩ | ⟨err, -, henforcer, -, -⟩
  · exact hdoes.sameKeys hkeys
  · rwa [henforcer]

/-- Every step is accounted for. -/
theorem Accounted.step (hs : Accounted s) (h : Ledger.step s c = some t) : Accounted t := by
  obtain ⟨outcome, hhistory, -, husage⟩ := step_event hs.keys h
  refine ⟨sameKeys_step hs.keys h, fun a => ?_⟩
  rw [husage, hhistory, accountOf_concat, hs.usage]

/-- Every run is accounted for. -/
theorem accounted_of_run (h : run step {} calls = some s) : Accounted s :=
  run_induction (fun _ _ _ hs hst => hs.step hst) ⟨fun _ => Iff.rfl, fun _ => rfl⟩ h

/-- The history holds the calls of the run, in order. -/
theorem history_of_run (h : run step {} calls = some s) : s.history.map (·.call) = calls := by
  have hgeneral : ∀ {u : Ledger}, u.enforcer.SameKeys → run step u calls = some s →
      s.history.map (·.call) = u.history.map (·.call) ++ calls := by
    clear h
    induction calls with
    | nil =>
      rintro u - ⟨⟩
      simp
    | cons c calls ih =>
      intro u hkeys hu
      obtain ⟨v, huv, hvs⟩ := run_cons.mp hu
      obtain ⟨outcome, hhistory, -, -⟩ := step_event hkeys huv
      rw [ih (sameKeys_step hkeys huv) hvs, hhistory, List.map_append, List.append_assoc]
      rfl
  simpa using hgeneral (fun _ => Iff.rfl) h

/-- A call for another agent leaves the usage of an agent as it is. -/
theorem usage_of_ne {a b : String} (hs : Accounted s) (h : step s c = some t)
    (hb : c.agentId? = some b) (hne : b ≠ a) :
    t.enforcer.usage.get? a = s.enforcer.usage.get? a := by
  obtain ⟨outcome, -, -, husage⟩ := step_event hs.keys h
  rw [husage, account_of_ne hb hne]

/-- A `KeyError` is about an agent that is not registered. -/
theorem keyError_unregistered {err : QuotaError} (hs : Accounted s)
    (h : s.enforcer.call c = .error err) (hkey : err.IsKeyError) :
    ∃ b, c.agentId? = some b ∧ b ∉ s.enforcer.quotas.keys := by
  cases QuotaEnforcer.call_raises h with
  | notRegistered hb hnot => exact ⟨_, hb, hnot⟩
  | keyError hb hmem hnot => exact absurd ((hs.keys _).mp hmem) hnot
  | negative | checkViolation | violation => exact hkey.elim

/-- After every run, the usage of a registered agent is the sum of what was recorded for it since
its counters were last started at zero; the two dictionaries hold the same agents, those registered
and not unregistered since; and no call changes the usage of another agent, or raises a `KeyError`
for a registered one. -/
theorem usage_accounted (h : run step {} calls = some s) :
    s.history.map (·.call) = calls ∧
    (∀ a, a ∈ s.enforcer.quotas.keys ↔ a ∈ s.enforcer.usage.keys) ∧
    (∀ a, a ∈ s.enforcer.quotas.keys ↔ RegisteredIn a s.history) ∧
    (∀ a used, s.enforcer.usage.get? a = some used →
      (∃ after, LastAt (Starts a) s.history after) ∧
      ∀ after, LastAt (Starts a) s.history after → ∀ d, used.get d = recorded a d after) ∧
    ∀ c t, step s c = some t →
      (∀ a b, c.agentId? = some b → b ≠ a →
        t.enforcer.usage.get? a = s.enforcer.usage.get? a) ∧
      ∀ err, s.enforcer.call c = .error err → err.IsKeyError →
        ∃ b, c.agentId? = some b ∧ b ∉ s.enforcer.quotas.keys := by
  have hs := accounted_of_run h
  refine ⟨history_of_run h, hs.keys, fun a => ?_, fun a used hused => ?_, fun c t hst => ?_⟩
  · rw [hs.keys a, ← (accountOf_spec a s.history).registered, ← hs.usage, Dict.mem_keys_iff,
      Option.isSome_iff_exists]
  · rw [hs.usage] at hused
    obtain ⟨after, hlast, hsum⟩ := (accountOf_spec a s.history).holds used hused
    refine ⟨⟨after, hlast⟩, fun after' hlast' => ?_⟩
    rwa [hlast'.unique hlast]
  · exact ⟨fun a b hb hne => usage_of_ne hs hst hb hne,
      fun err herr => keyError_unregistered hs herr⟩

/-- A quota without limits. -/
def unlimited : ResourceQuota where
  agentId := "agent_a"
  agentId_nonblank := by decide
  tokenLimit_nonneg := nonneg_of_unlimited
  memoryLimitMb_nonneg := nonneg_of_unlimited
  cpuLimitSeconds_nonneg := nonneg_of_unlimited
  apiCallLimit_nonneg := nonneg_of_unlimited

/-- A quota of a thousand tokens. -/
def thousandTokens : ResourceQuota :=
  { unlimited with
    tokenLimit := some 1000
    tokenLimit_nonneg := by
      rintro _ ⟨⟩
      decide +kernel }

/-- A registration, two recordings, and a recording that is refused. -/
def threeRecordings : List QuotaCall :=
  [.register thousandTokens, .record "agent_a" { tokens := 200 },
    .checkAndRecord "agent_a" { tokens := 300, apiCalls := 1 } true,
    .checkAndRecord "agent_a" { tokens := 600 } true]

/-- `usage_accounted` on these calls: the refused tokens are not counted. -/
theorem usage_accounted_threeRecordings :
    ∃ s after, run step {} threeRecordings = some s ∧ LastAt (Starts "agent_a") s.history after ∧
      recorded "agent_a" .tokens after = 500 := by
  have hused : (run step {} threeRecordings).bind (fun s => s.enforcer.usage.get? "agent_a") =
      some { tokens := 500, apiCalls := 1 } := by decide +kernel
  obtain ⟨s, hs, hused⟩ := Option.bind_eq_some_iff.mp hused
  obtain ⟨⟨after, hlast⟩, hsum⟩ := (usage_accounted hs).2.2.2.1 "agent_a" _ hused
  exact ⟨s, after, hs, hlast, (hsum after hlast .tokens).symm⟩

end Ledger

end MeshRouter.Quotas
