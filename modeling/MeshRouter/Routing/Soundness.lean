import Mathlib.Data.List.Perm.Subperm
import MeshRouter.Lib.Fallible
import MeshRouter.Routing.Resolver

/-!
# Soundness of routing

Every ranking is a part of the healthy agents in some order: each router filters, sorts, or rotates
the list that the table gives it, and a composite sorts and filters that list by scores. The ids of
that list are distinct, so those of the ranking are, and so are those of the primary agent and of
the fallbacks, which are the first ones of the ranking.
-/

namespace MeshRouter.Routing

open Lib Messages
open scoped List

variable {conv : TextConversions} {table : RoutingTable} {envelope : MessageEnvelope}
  {ranked : List AgentRecord}

/-! ## Rankings of the healthy agents -/

/-- A sorted part of a list is a part of it. -/
theorem sortedBy_subperm {α β : Type} [LE β] [DecidableLE β] {key : α → β} {l l' : List α}
    (h : l <+ l') : sortedBy key l <+~ l' :=
  (sortedBy_perm key l).subperm.trans h.subperm

theorem rankByCapability_subperm {requireAll tieBreakByLoad : Bool}
    (h : rankByCapability requireAll tieBreakByLoad table envelope = .ok ranked) :
    ranked <+~ table.listAgents (some true) := by
  obtain ⟨required, -, hranked⟩ := bind_eq_ok.mp h
  have hcandidates : (if required = [] then table.listAgents (some true)
      else table.findByCapabilities required (some true) requireAll) <+
        table.listAgents (some true) := by
    split_ifs
    · exact List.Sublist.refl _
    · exact table.findByCapabilities_sublist required _ _
  revert hranked hcandidates
  generalize (if required = [] then table.listAgents (some true)
      else table.findByCapabilities required (some true) requireAll) = candidates
  intro hranked hcandidates
  obtain rfl := Except.ok.inj hranked
  split_ifs
  · exact List.nil_subperm
  · exact sortedBy_subperm hcandidates
  · exact hcandidates.subperm

theorem rankByCost_subperm {margin : SafetyMargin}
    (h : rankByCost conv margin table envelope = .ok ranked) :
    ranked <+~ table.listAgents (some true) := by
  unfold rankByCost at h
  dsimp only at h
  split_ifs at h
  · obtain rfl := Except.ok.inj h
    exact List.nil_subperm
  · cases hbudget : envelope.costBudgetUsd with
    | none =>
      rw [hbudget] at h
      obtain rfl := Except.ok.inj h
      exact (sortedBy_perm _ _).subperm
    | some budget =>
      rw [hbudget] at h
      obtain ⟨tokens, -, hranked⟩ := bind_eq_ok.mp h
      obtain rfl := Except.ok.inj hranked
      split_ifs
      · exact List.nil_subperm
      · exact sortedBy_subperm List.filter_sublist

/-- The healthy agents in turn are all of them. -/
theorem rankInTurn_perm (router : ℕ) (table : RoutingTable) (counters : Counters) :
    (rankInTurn router table counters).1 ~ table.listAgents (some true) := by
  unfold rankInTurn
  dsimp only
  split_ifs with hnone
  · rw [hnone]
  · refine (List.perm_append_comm).trans ?_
    rw [List.take_append_drop]
    exact sortedBy_perm _ _

theorem rankByLoad_subperm (ceiling : LoadCeiling) (table : RoutingTable) :
    rankByLoad ceiling table <+~ table.listAgents (some true) := by
  unfold rankByLoad
  dsimp only
  split_ifs
  · exact List.nil_subperm
  · exact sortedBy_subperm List.filter_sublist

theorem entries_allCandidates (table : RoutingTable) :
    (allCandidates table).entries =
      (table.listAgents (some true)).map fun r => (r.agentId, r) := by
  have hfresh : ((Dict.empty : Dict String AgentRecord).keys ++
      (table.listAgents (some true)).map AgentRecord.agentId).Nodup :=
    table.nodup_listAgents _
  exact Dict.entries_setAll hfresh

/-- The candidates of a composite are the healthy agents, in their order. -/
theorem values_allCandidates (table : RoutingTable) :
    (allCandidates table).values = table.listAgents (some true) := by
  rw [Dict.values, entries_allCandidates, List.map_map]
  exact List.map_id _

/-- They are under their ids. -/
theorem keys_allCandidates (table : RoutingTable) :
    (allCandidates table).keys = (table.listAgents (some true)).map AgentRecord.agentId := by
  rw [Dict.keys, entries_allCandidates, List.map_map]
  rfl

theorem bestScored_subperm (candidates : List AgentRecord) (scores : Dict String ℚ) :
    bestScored candidates scores <+~ candidates :=
  List.filter_sublist.subperm.trans (sortedByDesc_perm _ candidates).subperm

/-- A ranking is a part of the healthy agents, in some order. -/
theorem rankCandidates_subperm {strategy : RoutingStrategy} {counters after : Counters}
    (h : strategy.rankCandidates conv table envelope counters = (.ok ranked, after)) :
    ranked <+~ table.listAgents (some true) := by
  cases strategy with
  | capabilityMatchRouter requireAll tieBreakByLoad =>
    exact rankByCapability_subperm (Prod.mk.inj h).1
  | costAwareRouter margin => exact rankByCost_subperm (Prod.mk.inj h).1
  | roundRobinRouter router =>
    obtain rfl := Except.ok.inj (Prod.mk.inj h).1
    exact (rankInTurn_perm router table counters).subperm
  | leastLoadedRouter ceiling =>
    obtain rfl := Except.ok.inj (Prod.mk.inj h).1
    exact rankByLoad_subperm ceiling table
  | compositeRouter strategies =>
    unfold RoutingStrategy.rankCandidates at h
    dsimp only at h
    rw [values_allCandidates] at h
    split_ifs at h
    · obtain rfl := Except.ok.inj (Prod.mk.inj h).1
      exact List.nil_subperm
    · split at h
      · obtain rfl := Except.ok.inj (Prod.mk.inj h).1
        exact bestScored_subperm _ _
      · cases (Prod.mk.inj h).1

/-- The agents of a part of the healthy agents are distinct. -/
theorem nodup_of_subperm (h : ranked <+~ table.listAgents (some true)) :
    (ranked.map AgentRecord.agentId).Nodup := by
  obtain ⟨l, hperm, hsublist⟩ := h
  exact (hperm.map _).nodup_iff.mp ((table.nodup_listAgents _).sublist (hsublist.map _))

/-! ## The resolver -/

namespace RouteResolver

variable {resolver : RouteResolver} {counters after : Counters} {result : RoutingResult}

/-- The fast path finds an agent that is registered and healthy. -/
theorem receiverAvailable_iff {receiver : String} :
    resolver.receiverAvailable receiver = true ↔ resolver.table.Available receiver := by
  unfold receiverAvailable RoutingTable.getAgent RoutingTable.Available
  cases resolver.table.agents.get? receiver with
  | none => simp
  | some record => simp

theorem direct_iff :
    resolver.Direct envelope ↔ envelope.receiver ≠ "" ∧ envelope.receiver ≠ "*" ∧
      resolver.receiverAvailable envelope.receiver = true := by
  rw [receiverAvailable_iff]
  exact Iff.rfl

/-- With an available receiver, the strategy is not asked. -/
theorem resolve_of_direct (h : resolver.Direct envelope) :
    resolver.resolve conv envelope counters = (.ok (resolver.directResult envelope), counters) :=
  if_pos (direct_iff.mp h)

/-- Without one, the outcome is that of the strategy. -/
theorem resolve_of_not_direct (h : ¬ resolver.Direct envelope) :
    resolver.resolve conv envelope counters =
      ((resolver.strategy.rankCandidates conv resolver.table envelope counters).1.map
          resolver.rankedResult,
        (resolver.strategy.rankCandidates conv resolver.table envelope counters).2) := by
  unfold resolve
  rw [if_neg (direct_iff.not.mp h)]
  rcases resolver.strategy.rankCandidates conv resolver.table envelope counters with ⟨_ | _, _⟩
  · rfl
  · rfl

/-- The two ways to a result. -/
theorem resolve_cases (h : resolver.resolve conv envelope counters = (.ok result, after)) :
    (resolver.Direct envelope ∧ result = resolver.directResult envelope ∧ after = counters) ∨
    (¬ resolver.Direct envelope ∧ ∃ ranked,
      resolver.strategy.rankCandidates conv resolver.table envelope counters = (.ok ranked, after) ∧
      result = resolver.rankedResult ranked) := by
  by_cases hdirect : resolver.Direct envelope
  · rw [resolve_of_direct hdirect] at h
    obtain ⟨hresult, hafter⟩ := Prod.mk.inj h
    exact .inl ⟨hdirect, (Except.ok.inj hresult).symm, hafter.symm⟩
  · rw [resolve_of_not_direct hdirect] at h
    rcases hrank : resolver.strategy.rankCandidates conv resolver.table envelope counters with
      ⟨outcome, rest⟩
    rw [hrank] at h
    obtain ⟨hresult, hafter⟩ := Prod.mk.inj h
    cases outcome with
    | error e => cases hresult
    | ok ranked =>
      obtain rfl := hafter
      exact .inr ⟨hdirect, ranked, rfl, (Except.ok.inj hresult).symm⟩

/-- The agents of a ranked result are the first ones of the ranking. -/
theorem allCandidates_rankedResult (resolver : RouteResolver) (ranked : List AgentRecord) :
    (resolver.rankedResult ranked).allCandidates =
      (ranked.take (1 + resolver.maxFallbacks)).map AgentRecord.agentId := by
  cases ranked with
  | nil => simp [rankedResult, RoutingResult.allCandidates]
  | cons primary rest =>
    rw [Nat.add_comm, List.take_succ_cons]
    rfl

theorem primaryAgentId_rankedResult (resolver : RouteResolver) (ranked : List AgentRecord) :
    (resolver.rankedResult ranked).primaryAgentId = ranked.head?.map AgentRecord.agentId := by
  cases ranked with
  | nil => rfl
  | cons primary rest => rfl

theorem fallbackAgentIds_rankedResult (resolver : RouteResolver) (ranked : List AgentRecord) :
    (resolver.rankedResult ranked).fallbackAgentIds =
      (ranked.tail.take resolver.maxFallbacks).map AgentRecord.agentId := by
  cases ranked with
  | nil => simp [rankedResult]
  | cons primary rest => rfl

/-- A result is routed when it has a primary agent. -/
theorem routed_rankedResult (resolver : RouteResolver) (ranked : List AgentRecord) :
    (resolver.rankedResult ranked).routed =
      (resolver.rankedResult ranked).primaryAgentId.isSome := by
  cases ranked with
  | nil => rfl
  | cons primary rest => rfl

/-- Rankings list distinct, healthy, registered agents. A result is routed when it has a primary
agent, its agents are distinct, healthy, and registered, and they are the receiver that is available
or the first ones of the ranking. -/
theorem routing_sound (conv : TextConversions) (resolver : RouteResolver)
    (envelope : MessageEnvelope) (counters : Counters) :
    (∀ ranked after,
      resolver.strategy.rankCandidates conv resolver.table envelope counters =
        (.ok ranked, after) →
      (ranked.map AgentRecord.agentId).Nodup ∧
        (∀ r ∈ ranked, resolver.table.agents.get? r.agentId = some r ∧ r.healthy = true) ∧
        ∃ result after', resolver.resolve conv envelope counters = (.ok result, after')) ∧
    ∀ result after, resolver.resolve conv envelope counters = (.ok result, after) →
      (result.routed = true ↔ result.primaryAgentId.isSome = true) ∧
      result.allCandidates.Nodup ∧
      (∀ agentId ∈ result.allCandidates, resolver.table.Available agentId) ∧
      result.fallbackAgentIds.length ≤ resolver.maxFallbacks ∧
      ((resolver.Direct envelope ∧ result = resolver.directResult envelope ∧ after = counters) ∨
        ¬ resolver.Direct envelope ∧ ∃ ranked,
          resolver.strategy.rankCandidates conv resolver.table envelope counters =
            (.ok ranked, after) ∧
          result.strategyName = resolver.strategy.className ∧
          result.primaryAgentId = ranked.head?.map AgentRecord.agentId ∧
          result.fallbackAgentIds =
            (ranked.tail.take resolver.maxFallbacks).map AgentRecord.agentId) := by
  constructor
  · intro ranked after hranked
    have hsubperm := rankCandidates_subperm hranked
    refine ⟨nodup_of_subperm hsubperm, fun r hr =>
      RoutingTable.mem_listAgents_healthy.mp (hsubperm.subset hr), ?_⟩
    by_cases hdirect : resolver.Direct envelope
    · exact ⟨_, _, resolve_of_direct hdirect⟩
    · rw [resolve_of_not_direct hdirect, hranked]
      exact ⟨_, _, rfl⟩
  · intro result after hresolve
    rcases resolve_cases hresolve with ⟨hdirect, rfl, rfl⟩ | ⟨hdirect, ranked, hranked, rfl⟩
    · refine ⟨⟨fun _ => rfl, fun _ => rfl⟩, List.nodup_singleton _, ?_, Nat.zero_le _,
        .inl ⟨hdirect, rfl, rfl⟩⟩
      intro agentId hmem
      rw [List.mem_singleton.mp hmem]
      exact hdirect.2.2
    · have hsubperm := rankCandidates_subperm hranked
      have hname : (resolver.rankedResult ranked).strategyName = resolver.strategy.className := by
        cases ranked with
        | nil => rfl
        | cons primary rest => rfl
      refine ⟨by rw [routed_rankedResult], ?_, ?_, ?_, .inr ⟨hdirect, ranked, hranked, hname,
        primaryAgentId_rankedResult resolver ranked, fallbackAgentIds_rankedResult resolver ranked⟩⟩
      · rw [allCandidates_rankedResult]
        exact (nodup_of_subperm hsubperm).sublist ((List.take_sublist _ _).map _)
      · intro agentId hmem
        rw [allCandidates_rankedResult] at hmem
        obtain ⟨r, hr, rfl⟩ := List.mem_map.mp hmem
        exact RoutingTable.available_of_mem (hsubperm.subset (List.mem_of_mem_take hr))
      · rw [fallbackAgentIds_rankedResult, List.length_map]
        exact List.length_take_le _ _

/-- An idle and a busy agent, and a failed one. -/
def threeAgents : RoutingTable :=
  let idle : AgentRecord := { agentId := "idle", registeredAt := 0, lastHeartbeatAt := 0 }
  let busy : AgentRecord :=
    { agentId := "busy", currentLoad := 1, registeredAt := 0, lastHeartbeatAt := 0 }
  let failed : AgentRecord :=
    { agentId := "failed", healthy := false, registeredAt := 0, lastHeartbeatAt := 0 }
  [failed, busy, idle].foldl (fun table record =>
    { table with
      agents := table.agents.set record.agentId record
      named := table.named_set record }) RoutingTable.init

/-- A composite in a composite. -/
def nestedComposite : RoutingStrategy :=
  .compositeRouter
    [(.roundRobinRouter 0, 1),
      (.compositeRouter [(.leastLoadedRouter .all, 1), (.capabilityMatchRouter, 1)], 1)]

/-- `routing_sound` for a message to anyone: two agents with equal scores, in the order of their
registration. -/
theorem routing_sound_nested :
    ∃ result : RoutingResult, result.allCandidates = ["busy", "idle"] ∧
      result.allCandidates.Nodup ∧
      ∀ agentId ∈ result.allCandidates, threeAgents.Available agentId := by
  have hresolve : RouteResolver.resolve ⟨fun _ => none, fun _ => none, fun _ => .error .typeError⟩
      { table := threeAgents, strategy := nestedComposite }
      { sender := "a", receiver := "*", messageId := "m", createdAt := 0 } (fun _ => 0) =
        (.ok { primaryAgentId := some "busy", fallbackAgentIds := ["idle"],
               strategyName := "CompositeRouter", candidatesEvaluated := 2, routed := true },
          Function.update (fun _ => 0) 0 1) := by
    refine Prod.ext ?_ ?_
    · decide +kernel
    · rfl
  have hsound := (routing_sound _ _ _ _).2 _ _ hresolve
  exact ⟨_, rfl, hsound.2.1, hsound.2.2.1⟩

end RouteResolver

end MeshRouter.Routing
