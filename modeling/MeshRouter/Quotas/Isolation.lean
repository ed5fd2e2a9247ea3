import MeshRouter.Lib.Isolation
import MeshRouter.Quotas.Accounting

/-!
# Agents do not notice each other

One enforcer serves the clients of all agents. A call for an agent looks up the quota and the usage
of this agent only, and writes them only (`view`), while `reset_all` concerns every agent. So what
the clients of an agent are told, and what remains of its quota, is what it would be if the enforcer
served this agent alone (`agents_isolated`).
-/

namespace MeshRouter.Quotas

open Lib

/-- The reply of a call, returned or raised, and the enforcer after it. -/
def QuotaEnforcer.serve (e : QuotaEnforcer) (c : QuotaCall) :
    Except QuotaError Reply × QuotaEnforcer :=
  match e.call c with
  | .ok (reply, e') => (.ok reply, e')
  | .error err => (.error err, e)

/-- The call is for the agent, or for all agents. -/
def QuotaCall.concerns (agentId : String) (c : QuotaCall) : Bool :=
  match c.agentId? with
  | some b => b = agentId
  | none => true

/-- The quota and the usage of an agent. -/
def QuotaEnforcer.view (agentId : String) (e : QuotaEnforcer) :
    Option ResourceQuota × Option Amounts :=
  (e.quotas.get? agentId, e.usage.get? agentId)

namespace QuotaEnforcer

variable {e f : QuotaEnforcer} {a b : String} {c : QuotaCall}

/-- Two enforcers with the same quota and the same usage of an agent have the same entry for it. -/
theorem entry_congr (h : e.view a = f.view a) : e.entry a = f.entry a := by
  obtain ⟨hquota, husage⟩ := Prod.mk.inj h
  unfold entry
  rw [hquota, husage]

/-- A usage record that is written. -/
theorem view_set (h : e.view a = f.view a) (used : Amounts) :
    view a { e with usage := e.usage.set a used } =
      view a { f with usage := f.usage.set a used } := by
  obtain ⟨hquota, -⟩ := Prod.mk.inj h
  unfold view
  dsimp only
  rw [hquota, Dict.get?_set, Dict.get?_set, if_pos rfl, if_pos rfl]

/-- A registration keeps the usage of the agent, or starts it. -/
theorem view_register (e : QuotaEnforcer) (quota : ResourceQuota) :
    (e.register quota).view quota.agentId =
      (some quota, some ((e.usage.get? quota.agentId).getD .zero)) := by
  unfold view register
  dsimp only
  rw [Dict.get?_set, if_pos rfl]
  cases husage : e.usage.get? quota.agentId with
  | none =>
    rw [if_neg (Dict.get?_eq_none_iff.mp husage), Dict.get?_set, if_pos rfl]
    rfl
  | some used =>
    rw [if_pos (Dict.mem_keys_of_get? husage), husage]
    rfl

/-- Membership of an agent is seen in its view. -/
theorem mem_quotas_congr (h : e.view a = f.view a) : a ∈ e.quotas.keys ↔ a ∈ f.quotas.keys := by
  obtain ⟨hquota, -⟩ := Prod.mk.inj h
  rw [← not_iff_not, ← Dict.get?_eq_none_iff, ← Dict.get?_eq_none_iff, hquota]

/-- A call for another agent leaves the quota and the usage alone. -/
theorem view_serve_of_ne (hb : c.agentId? = some b) (hne : b ≠ a) :
    (e.serve c).2.view a = e.view a := by
  have hset : ∀ used, view a { e with usage := e.usage.set b used } = e.view a := by
    intro used
    unfold view
    dsimp only
    rw [Dict.get?_set, if_neg (Ne.symm hne)]
  unfold serve
  cases hcall : e.call c with
  | error err => rfl
  | ok result =>
    obtain ⟨reply, e'⟩ := result
    change e'.view a = e.view a
    cases call_does hcall with
    | register quota =>
      obtain rfl := Option.some.inj hb
      unfold view register
      dsimp only
      rw [Dict.get?_set, if_neg (Ne.symm hne)]
      split_ifs
      · rfl
      · rw [Dict.get?_set, if_neg (Ne.symm hne)]
    | unregister =>
      obtain rfl := Option.some.inj hb
      unfold unregister view
      split_ifs
      · dsimp only
        rw [Dict.get?_erase, Dict.get?_erase, if_neg (Ne.symm hne), if_neg (Ne.symm hne)]
      · rfl
    | record | checkAndRecord | reset =>
      obtain rfl := Option.some.inj hb
      exact hset _
    | resetAll => cases hb
    | refuse | check | usage | quota => rfl

/-- A call for the agent, or for all agents, is answered by the quota and the usage of the agent,
and writes what they say. -/
theorem serve_congr (hc : c.concerns a = true) (h : e.view a = f.view a) :
    (e.serve c).1 = (f.serve c).1 ∧ (e.serve c).2.view a = (f.serve c).2.view a := by
  have hentry := entry_congr h
  obtain ⟨hquota, husage⟩ := Prod.mk.inj h
  unfold serve
  cases c with
  | register quota =>
    obtain rfl := of_decide_eq_true hc
    refine ⟨rfl, ?_⟩
    change (e.register quota).view _ = (f.register quota).view _
    rw [view_register, view_register, husage]
  | unregister b =>
    obtain rfl := of_decide_eq_true hc
    dsimp only [call]
    unfold unregister
    by_cases hmem : b ∈ e.quotas.keys
    · rw [if_pos hmem, if_pos ((mem_quotas_congr h).mp hmem)]
      refine ⟨rfl, ?_⟩
      unfold view
      simp only [Dict.get?_erase, if_pos]
    · rw [if_neg hmem, if_neg fun hmem' => hmem ((mem_quotas_congr h).mpr hmem')]
      exact ⟨rfl, h⟩
  | check b requests raises =>
    obtain rfl := of_decide_eq_true hc
    have hcheck : e.check b requests raises = f.check b requests raises := by
      unfold check
      rw [hentry]
    dsimp only [call]
    rw [hcheck]
    cases f.check b requests raises with
    | error err => exact ⟨rfl, h⟩
    | ok allowed => exact ⟨rfl, h⟩
  | record b amounts =>
    obtain rfl := of_decide_eq_true hc
    dsimp only [call]
    unfold record
    cases Dimension.all.find? fun d => amounts.get d < 0 with
    | some d => exact ⟨rfl, h⟩
    | none =>
      dsimp only
      rw [hentry]
      cases f.entry b with
      | error err => exact ⟨rfl, h⟩
      | ok found => exact ⟨rfl, view_set h _⟩
  | checkAndRecord b requests raises =>
    obtain rfl := of_decide_eq_true hc
    dsimp only [call]
    unfold checkAndRecord
    rw [hentry]
    cases f.entry b with
    | error err => exact ⟨rfl, h⟩
    | ok found =>
      obtain ⟨quota, current⟩ := found
      dsimp only [bind, Except.bind]
      cases firstViolation b quota current requests with
      | none => exact ⟨rfl, view_set h _⟩
      | some violation =>
        cases raises with
        | true => exact ⟨rfl, h⟩
        | false => exact ⟨rfl, h⟩
  | reset b =>
    obtain rfl := of_decide_eq_true hc
    dsimp only [call]
    unfold reset
    by_cases hmem : b ∈ e.quotas.keys
    · rw [if_pos hmem, if_pos ((mem_quotas_congr h).mp hmem)]
      exact ⟨rfl, view_set h _⟩
    · rw [if_neg hmem, if_neg fun hmem' => hmem ((mem_quotas_congr h).mpr hmem')]
      exact ⟨rfl, h⟩
  | resetAll =>
    refine ⟨rfl, ?_⟩
    change (e.quotas.get? a, (e.usage.mapValues _).get? a) =
      (f.quotas.get? a, (f.usage.mapValues _).get? a)
    rw [Dict.get?_mapValues, Dict.get?_mapValues, hquota, husage]
  | usage b =>
    obtain rfl := of_decide_eq_true hc
    dsimp only [call]
    rw [hentry]
    cases f.entry b with
    | error err => exact ⟨rfl, h⟩
    | ok found => exact ⟨rfl, h⟩
  | quota b =>
    obtain rfl := of_decide_eq_true hc
    dsimp only [call]
    rw [hquota]
    cases f.quotas.get? b with
    | none => exact ⟨rfl, h⟩
    | some quota => exact ⟨rfl, h⟩

/-- The enforcer isolates the clients of an agent. -/
theorem isolates (a : String) : Isolates serve (view a) (QuotaCall.concerns a) where
  others e c hc := by
    unfold QuotaCall.concerns at hc
    split at hc
    · next b hb => exact view_serve_of_ne hb (of_decide_eq_false hc)
    · cases hc
  own e f c hc h := serve_congr hc h

end QuotaEnforcer

/-- In every interleaving of the calls of any number of clients, for any agents: the replies to the
calls for one agent, returned or raised, and the quota and the usage that it is left with, are what
they would be if only its own calls and the `reset_all`s had been made. So two interleavings with
the same calls for the agent cannot be told apart by its clients. -/
theorem agents_isolated (a : String) (e : QuotaEnforcer) (cs : List QuotaCall) :
    (replies QuotaEnforcer.serve (QuotaCall.concerns a) e cs =
        replies QuotaEnforcer.serve (QuotaCall.concerns a) e (cs.filter (QuotaCall.concerns a)) ∧
      (afterCalls QuotaEnforcer.serve e cs).view a =
        (afterCalls QuotaEnforcer.serve e (cs.filter (QuotaCall.concerns a))).view a) ∧
    ∀ ds : List QuotaCall, cs.filter (QuotaCall.concerns a) = ds.filter (QuotaCall.concerns a) →
      replies QuotaEnforcer.serve (QuotaCall.concerns a) e cs =
          replies QuotaEnforcer.serve (QuotaCall.concerns a) e ds ∧
        (afterCalls QuotaEnforcer.serve e cs).view a =
          (afterCalls QuotaEnforcer.serve e ds).view a :=
  ⟨(QuotaEnforcer.isolates a).alone e cs,
    fun _ hcalls => (QuotaEnforcer.isolates a).congr rfl hcalls⟩

end MeshRouter.Quotas
