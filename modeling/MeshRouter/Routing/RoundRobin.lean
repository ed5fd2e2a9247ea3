import Mathlib.Data.Finset.Sort
import MeshRouter.Lib.Rotation
import MeshRouter.Routing.Soundness

/-!
# The turns of a round robin

The calls of a `RoundRobinRouter`, one after the other, each on a table of its own. Between the
calls the agents may change as they like, as long as the same ones are healthy: each call sorts them
by their ids and rotates the list once more, so the router is even (`roundRobinRouter_even`).
-/

namespace MeshRouter.Routing

open Lib Messages
open scoped List

-- The order in which `sort` lists the ids.
local instance isTrans_agentId : IsTrans String fun a b => a ≤ b := ⟨fun _ _ _ => le_trans⟩
local instance antisymm_agentId : Std.Antisymm fun a b : String => a ≤ b :=
  ⟨fun _ _ => le_antisymm⟩

/-- The ids of the healthy agents. -/
def healthyIds (table : RoutingTable) : Finset String :=
  ((table.listAgents (some true)).map AgentRecord.agentId).toFinset

section Sorting

variable {table table' : RoutingTable}

theorem pairwise_sortedBy (candidates : List AgentRecord) :
    (sortedBy AgentRecord.agentId candidates).Pairwise fun a b => a.agentId ≤ b.agentId :=
  List.pairwise_insertionSort _ _

/-- The agents in their order are the ids in theirs. -/
theorem map_agentId_sortedBy (table : RoutingTable) :
    (sortedBy AgentRecord.agentId (table.listAgents (some true))).map AgentRecord.agentId =
      (healthyIds table).sort := by
  refine List.Perm.eq_of_pairwise (fun a b _ _ => le_antisymm)
    (List.pairwise_map.mpr (pairwise_sortedBy _)) (Finset.pairwise_sort _ _) ?_
  calc (sortedBy AgentRecord.agentId (table.listAgents (some true))).map AgentRecord.agentId
    _ ~ (table.listAgents (some true)).map AgentRecord.agentId := (sortedBy_perm _ _).map _
    _ ~ (healthyIds table).toList := (List.toFinset_toList (table.nodup_listAgents _)).symm
    _ ~ _ := (Finset.sort_perm_toList _ _).symm

/-- The order of the agents is not that of their registration. -/
theorem sortedBy_agentId_eq
    (hsame : ∀ r, r ∈ table.listAgents (some true) ↔ r ∈ table'.listAgents (some true)) :
    sortedBy AgentRecord.agentId (table.listAgents (some true)) =
      sortedBy AgentRecord.agentId (table'.listAgents (some true)) := by
  have hperm : table.listAgents (some true) ~ table'.listAgents (some true) :=
    (List.perm_ext_iff_of_nodup (.of_map _ (table.nodup_listAgents _))
      (.of_map _ (table'.nodup_listAgents _))).mpr hsame
  refine List.Perm.eq_of_pairwise (fun a b ha hb hab hba => ?_) (pairwise_sortedBy _)
    (pairwise_sortedBy _) ((sortedBy_perm _ _).trans (hperm.trans (sortedBy_perm _ _).symm))
  -- Two healthy agents with the same id are the same.
  exact List.inj_on_of_nodup_map (table.nodup_listAgents _) ((sortedBy_perm _ _).subset ha)
    (hperm.symm.subset ((sortedBy_perm _ _).subset hb)) (le_antisymm hab hba)

end Sorting

/-! ## One call -/

/-- A call returns the healthy agents by id, rotated by the counter. -/
theorem rankInTurn_fst (router : ℕ) (table : RoutingTable) (counters : Counters) :
    (rankInTurn router table counters).1 =
      (sortedBy AgentRecord.agentId (table.listAgents (some true))).rotate (counters router) := by
  unfold rankInTurn
  dsimp only
  split_ifs with hnone
  · rw [hnone]
    rfl
  · rw [List.rotate_eq_drop_append_take_mod]

/-- A call on a table with a healthy agent is counted. -/
theorem rankInTurn_snd (router : ℕ) {table : RoutingTable} (hagents : (healthyIds table).Nonempty)
    (counters : Counters) :
    (rankInTurn router table counters).2 router = counters router + 1 := by
  have hne : table.listAgents (some true) ≠ [] := by
    rintro hnone
    rw [healthyIds, hnone] at hagents
    exact Finset.not_nonempty_empty hagents
  unfold rankInTurn
  dsimp only
  rw [if_neg hne]
  exact Function.update_self _ _ _

/-! ## Calls in turn -/

section Calls

variable (conv : TextConversions) (router : ℕ) (tables : ℕ → RoutingTable)
  (envelopes : ℕ → MessageEnvelope) (counters : Counters)

/-- The counters after some calls of a router, one on each table. -/
def countersAfter : ℕ → Counters
  | 0 => counters
  | k + 1 =>
    ((RoutingStrategy.roundRobinRouter router).rankCandidates conv (tables k) (envelopes k)
      (countersAfter k)).2

/-- What a call returns, after those on the tables before. -/
def callAfter (k : ℕ) : Except PyError (List AgentRecord) :=
  ((RoutingStrategy.roundRobinRouter router).rankCandidates conv (tables k) (envelopes k)
    (countersAfter conv router tables envelopes counters k)).1

/-- The agents in the order of a call. -/
def rankedAfter (k : ℕ) : List AgentRecord :=
  (sortedBy AgentRecord.agentId ((tables k).listAgents (some true))).rotate
    (countersAfter conv router tables envelopes counters k router)

theorem callAfter_eq (k : ℕ) :
    callAfter conv router tables envelopes counters k =
      .ok (rankedAfter conv router tables envelopes counters k) :=
  congrArg Except.ok (rankInTurn_fst router (tables k) _)

variable {tables} {ids : Finset String}

/-- The calls count up, as long as there are healthy agents. -/
theorem countersAfter_eq (hfixed : ∀ k, healthyIds (tables k) = ids) (hids : ids.Nonempty)
    (k : ℕ) :
    countersAfter conv router tables envelopes counters k router = counters router + k := by
  induction k with
  | zero => rfl
  | succ k ih =>
    have hstep := rankInTurn_snd router (hfixed k ▸ hids)
      (countersAfter conv router tables envelopes counters k)
    rw [ih] at hstep
    exact hstep

/-- The ids in the order of a call. -/
theorem map_agentId_rankedAfter (hfixed : ∀ k, healthyIds (tables k) = ids) (k : ℕ) :
    (rankedAfter conv router tables envelopes counters k).map AgentRecord.agentId =
      ids.sort.rotate (counters router + k) := by
  unfold rankedAfter
  rw [List.map_rotate, map_agentId_sortedBy, hfixed k]
  rcases ids.eq_empty_or_nonempty with rfl | hids
  · simp
  · rw [countersAfter_eq conv router envelopes counters hfixed hids]

/-- A round robin is even. Let the calls of a router find the same agents healthy, whatever else
changes. Each returns all of them, a rotation of the order of their ids. In as many calls in a row
as there are agents, each is first exactly once, and after any number of calls no agent was first
two times more than another. What a call returns does not depend on the order of the registrations.
-/
theorem roundRobinRouter_even (hfixed : ∀ k, healthyIds (tables k) = ids) :
    (∃ ranked : ℕ → List AgentRecord,
      (∀ k, callAfter conv router tables envelopes counters k = .ok (ranked k) ∧
        ranked k ~ (tables k).listAgents (some true) ∧
        (ranked k).map AgentRecord.agentId = ids.sort.rotate (counters router + k)) ∧
      (∀ k, ∀ a ∈ ids, ∃! i, k ≤ i ∧ i < k + ids.card ∧
        (ranked i).head?.map AgentRecord.agentId = some a) ∧
      ∀ k, ∀ a ∈ ids, ∀ b ∈ ids,
        Nat.count (fun i => (ranked i).head?.map AgentRecord.agentId = some a) k ≤
          Nat.count (fun i => (ranked i).head?.map AgentRecord.agentId = some b) k + 1) ∧
    ∀ (table table' : RoutingTable) (envelope envelope' : MessageEnvelope) (counters : Counters),
      (∀ r, r ∈ table.listAgents (some true) ↔ r ∈ table'.listAgents (some true)) →
        (RoutingStrategy.roundRobinRouter router).rankCandidates conv table envelope counters =
          (RoutingStrategy.roundRobinRouter router).rankCandidates conv table' envelope'
            counters := by
  have hhead : ∀ k, (rankedAfter conv router tables envelopes counters k).head?.map
      AgentRecord.agentId = (ids.sort.rotate (counters router + k)).head? := fun k => by
    rw [← List.head?_map, map_agentId_rankedAfter conv router envelopes counters hfixed]
  have hnodup : ids.sort.Nodup := Finset.sort_nodup _ _
  refine ⟨⟨rankedAfter conv router tables envelopes counters, fun k => ⟨?_, ?_, ?_⟩, ?_, ?_⟩, ?_⟩
  · exact callAfter_eq conv router tables envelopes counters k
  · exact (List.rotate_perm _ _).trans (sortedBy_perm _ _)
  · exact map_agentId_rankedAfter conv router envelopes counters hfixed k
  · intro k a ha
    have hturn := existsUnique_turn hnodup ((Finset.mem_sort _).mpr ha) (counters router) k
    simpa only [hhead, Finset.length_sort] using hturn
  · intro k a ha b hb
    simp only [hhead]
    refine turns_le_turns_add_one hnodup ?_ ?_ _ _
    · exact (Finset.mem_sort _).mpr ha
    · exact (Finset.mem_sort _).mpr hb
  · intro table table' envelope envelope' counters hsame
    have hlists := sortedBy_agentId_eq hsame
    have hempty : table.listAgents (some true) = [] ↔ table'.listAgents (some true) = [] := by
      simp only [List.eq_nil_iff_forall_not_mem, hsame]
    have hturn : rankInTurn router table counters = rankInTurn router table' counters := by
      unfold rankInTurn
      simp only [hlists, hempty]
    rw [RoutingStrategy.rankCandidates, RoutingStrategy.rankCandidates, hturn]

end Calls

/-- The same agents at every call. -/
def unchanged (_ : ℕ) : RoutingTable := RouteResolver.threeAgents

/-- `roundRobinRouter_even` for two healthy agents and a counter that starts at three. -/
theorem roundRobinRouter_even_unchanged :
    ∃ ranked : ℕ → List AgentRecord,
      (∀ k, (ranked k).map AgentRecord.agentId = ["busy", "idle"].rotate (3 + k)) ∧
      ∀ k, Nat.count (fun i => (ranked i).head?.map AgentRecord.agentId = some "idle") k ≤
        Nat.count (fun i => (ranked i).head?.map AgentRecord.agentId = some "busy") k + 1 := by
  have hids : healthyIds RouteResolver.threeAgents = {"busy", "idle"} := by decide
  have hfixed : ∀ k, healthyIds (unchanged k) = {"busy", "idle"} := fun _ => hids
  obtain ⟨⟨ranked, hranked, -, hcount⟩, -⟩ :=
    roundRobinRouter_even ⟨fun _ => none, fun _ => none, fun _ => .error .typeError⟩ 0
      (fun _ => { sender := "a", receiver := "*", messageId := "m", createdAt := 0 }) (fun _ => 3)
      hfixed
  have hsort : ({"busy", "idle"} : Finset String).sort = ["busy", "idle"] := by
    rw [← hids, ← map_agentId_sortedBy]
    decide
  refine ⟨ranked, fun k => ?_, fun k => hcount k _ (by decide) _ (by decide)⟩
  rw [(hranked k).2.2, hsort]

end MeshRouter.Routing
