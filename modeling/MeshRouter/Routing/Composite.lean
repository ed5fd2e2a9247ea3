import MeshRouter.Lib.Positional
import MeshRouter.Routing.Soundness

/-!
# Composites

A composite adds up what the rankings of its strategies give each healthy agent: its scores are
totals of positional points with weights. The agents are sorted by the totals, and those with a
positive total are kept.

So a composite respects unanimity: an agent that is preferred to another by the rankings that have a
weight is kept, and comes before it. A composite of one strategy returns what this returns, and the
weights count up to a positive constant.
-/

namespace MeshRouter.Routing

open Lib Messages
open scoped List

/-! ## Adding to the scores -/

/-- An addition to the score of a candidate. -/
theorem get?_addScore (scores : Dict String ℚ) (k a : String) (x : ℚ) :
    (if k ∈ scores.keys then scores.set k (scores.getD k 0 + x) else scores).get? a =
      (scores.get? a).map (· + if a = k then x else 0) := by
  by_cases hk : k ∈ scores.keys
  · rw [if_pos hk, Dict.get?_set]
    by_cases heq : a = k
    · obtain ⟨score, hscore⟩ := Dict.mem_keys_iff.mp hk
      rw [heq, if_pos rfl, if_pos rfl, Dict.getD, hscore]
      rfl
    · rw [if_neg heq, if_neg heq]
      simp
  · rw [if_neg hk]
    by_cases heq : a = k
    · rw [heq, Dict.get?_eq_none_iff.mpr hk]
      rfl
    · simp [heq]

/-- Additions in turn: the score of a candidate grows by the sum of those that are its own. -/
theorem get?_foldl_addScore (term : ℕ → ℚ) (ranked : List (AgentRecord × ℕ))
    (scores : Dict String ℚ) (a : String) :
    (ranked.foldl (fun scores p =>
      if p.1.agentId ∈ scores.keys then
        scores.set p.1.agentId (scores.getD p.1.agentId 0 + term p.2)
      else scores) scores).get? a =
      (scores.get? a).map
        (· + (ranked.map fun p => if a = p.1.agentId then term p.2 else 0).sum) := by
  induction ranked generalizing scores with
  | nil => simp
  | cons p ranked ih =>
    rw [List.foldl_cons, ih, get?_addScore, Option.map_map, List.map_cons, List.sum_cons]
    refine congrArg (fun f => (scores.get? a).map f) (funext fun score => ?_)
    exact add_assoc _ _ _

/-- A ranking adds its points to the scores. -/
theorem get?_addScores {ranked : List AgentRecord}
    (hnodup : (ranked.map AgentRecord.agentId).Nodup) (weight : ℚ) (scores : Dict String ℚ)
    (a : String) :
    (addScores ranked weight scores).get? a =
      (scores.get? a).map (· + points ℚ (ranked.map AgentRecord.agentId) a * weight) := by
  unfold addScores
  by_cases hempty : ranked.length = 0
  · rw [if_pos hempty, List.eq_nil_of_length_eq_zero hempty, List.map_nil,
      points_of_notMem List.not_mem_nil]
    simp
  · let term : ℕ → ℚ := fun index => (ranked.length - index) / ranked.length * weight
    rw [if_neg hempty, get?_foldl_addScore term, sum_zipIdx_eq term ranked 0 a hnodup, points,
      List.length_map, Nat.zero_add, ite_mul, zero_mul]

/-! ## The rankings of one call -/

variable {conv : TextConversions} {table : RoutingTable} {envelope : MessageEnvelope}
  {strategies : List (RoutingStrategy × NNRat)} {counters after : Counters}
  {rankings : List (List AgentRecord × NNRat)}

/-- What the strategies of a composite return in one call, with their weights. Each is asked with
the counters that the ones before it leave. -/
def rankEach (conv : TextConversions) (table : RoutingTable) (envelope : MessageEnvelope) :
    List (RoutingStrategy × NNRat) → Counters →
      Except PyError (List (List AgentRecord × NNRat)) × Counters
  | [], counters => (.ok [], counters)
  | (strategy, weight) :: rest, counters =>
    match strategy.rankCandidates conv table envelope counters with
    | (.ok ranked, counters) =>
      ((rankEach conv table envelope rest counters).1.map ((ranked, weight) :: ·),
        (rankEach conv table envelope rest counters).2)
    | (.error e, counters) => (.error e, counters)

/-- The rankings as lists of ids. -/
def byId (rankings : List (List AgentRecord × NNRat)) : List (List String × ℚ) :=
  rankings.map fun p => (p.1.map AgentRecord.agentId, p.2)

/-- The scores after some rankings. -/
def addRankings (rankings : List (List AgentRecord × NNRat)) (scores : Dict String ℚ) :
    Dict String ℚ :=
  rankings.foldl (fun scores p => addScores p.1 p.2 scores) scores

/-- The loop over the strategies adds up their rankings. -/
theorem accumulateScores_eq (scores : Dict String ℚ) (counters : Counters) :
    RoutingStrategy.accumulateScores conv table envelope strategies scores counters =
      ((rankEach conv table envelope strategies counters).1.map (addRankings · scores),
        (rankEach conv table envelope strategies counters).2) := by
  induction strategies generalizing scores counters with
  | nil => rw [RoutingStrategy.accumulateScores]; rfl
  | cons first rest ih =>
    obtain ⟨strategy, weight⟩ := first
    rw [RoutingStrategy.accumulateScores, rankEach]
    rcases strategy.rankCandidates conv table envelope counters with ⟨_ | ranked, next⟩
    · rfl
    · dsimp only
      rw [ih]
      rcases rankEach conv table envelope rest next with ⟨_ | rankings, last⟩
      · rfl
      · rfl

/-- With a healthy agent, a composite sorts and filters by the scores of its rankings. -/
theorem rankCandidates_compositeRouter (hagents : table.listAgents (some true) ≠ []) :
    (RoutingStrategy.compositeRouter strategies).rankCandidates conv table envelope counters =
      ((rankEach conv table envelope strategies counters).1.map fun rankings =>
          bestScored (table.listAgents (some true))
            (addRankings rankings ((allCandidates table).mapValues fun _ => 0)),
        (rankEach conv table envelope strategies counters).2) := by
  rw [RoutingStrategy.rankCandidates, values_allCandidates, if_neg hagents, accumulateScores_eq]
  rcases rankEach conv table envelope strategies counters with ⟨_ | rankings, last⟩
  · rfl
  · rfl

/-- Every ranking of a call is a part of the healthy agents. -/
theorem rankEach_subperm
    (h : rankEach conv table envelope strategies counters = (.ok rankings, after)) :
    ∀ p ∈ rankings, p.1 <+~ table.listAgents (some true) := by
  induction strategies generalizing counters rankings after with
  | nil =>
    obtain rfl := Except.ok.inj (Prod.mk.inj h).1
    exact fun p hp => absurd hp List.not_mem_nil
  | cons first rest ih =>
    obtain ⟨strategy, weight⟩ := first
    rw [rankEach] at h
    rcases hranked : strategy.rankCandidates conv table envelope counters with ⟨_ | ranked, next⟩
    · rw [hranked] at h
      cases (Prod.mk.inj h).1
    · rw [hranked] at h
      dsimp only at h
      rcases hrest : rankEach conv table envelope rest next with ⟨_ | rankings', last⟩
      · rw [hrest] at h
        cases (Prod.mk.inj h).1
      · rw [hrest] at h
        obtain rfl := Except.ok.inj (Prod.mk.inj h).1
        exact List.forall_mem_cons.mpr ⟨rankCandidates_subperm hranked, ih hrest⟩

/-! ## The scores are totals -/

theorem get?_addRankings (hnodup : ∀ p ∈ rankings, (p.1.map AgentRecord.agentId).Nodup)
    (scores : Dict String ℚ) (a : String) :
    (addRankings rankings scores).get? a =
      (scores.get? a).map (· + total (byId rankings) a) := by
  induction rankings generalizing scores with
  | nil => simp [addRankings, byId, total]
  | cons first rest ih =>
    obtain ⟨hfirst, hrest⟩ := List.forall_mem_cons.mp hnodup
    have hstep : addRankings (first :: rest) scores =
        addRankings rest (addScores first.1 first.2 scores) := rfl
    rw [hstep, ih hrest, get?_addScores hfirst, Option.map_map]
    have htotal : total (byId (first :: rest)) a =
        points ℚ (first.1.map AgentRecord.agentId) a * first.2 + total (byId rest) a :=
      total_cons _ _ _ _
    rw [htotal]
    refine congrArg (fun f => (scores.get? a).map f) (funext fun score => ?_)
    exact add_assoc _ _ _

/-- The id of a healthy agent is in a ranking if the agent is. -/
theorem mem_map_agentId_iff {ranked : List AgentRecord} {a : AgentRecord}
    (hranked : ranked <+~ table.listAgents (some true)) (ha : a ∈ table.listAgents (some true)) :
    a.agentId ∈ ranked.map AgentRecord.agentId ↔ a ∈ ranked := by
  constructor
  · intro hmem
    obtain ⟨r, hr, hid⟩ := List.mem_map.mp hmem
    have heq := List.inj_on_of_nodup_map (table.nodup_listAgents _) (hranked.subset hr) ha hid
    exact heq ▸ hr
  · exact List.mem_map_of_mem

/-- The scores after a call are the totals of what its rankings give. -/
theorem getD_addRankings (hsubperm : ∀ p ∈ rankings, p.1 <+~ table.listAgents (some true))
    (a : String) :
    (addRankings rankings ((allCandidates table).mapValues fun _ => 0)).getD a 0 =
      total (byId rankings) a := by
  rw [Dict.getD, get?_addRankings fun p hp => nodup_of_subperm (hsubperm p hp), Dict.get?_mapValues]
  by_cases hmem : a ∈ (allCandidates table).keys
  · obtain ⟨r, hr⟩ := Dict.mem_keys_iff.mp hmem
    rw [hr]
    exact zero_add _
  · -- No ranking lists an agent that is not healthy.
    have hnone : ∀ p ∈ byId rankings, a ∉ p.1 := by
      intro p hp hlisted
      obtain ⟨q, hq, rfl⟩ := List.mem_map.mp hp
      rw [keys_allCandidates] at hmem
      exact hmem (List.map_subset _ (hsubperm q hq).subset hlisted)
    rw [total_of_notMem hnone, Dict.get?_eq_none_iff.mpr hmem]
    rfl

/-- The candidates with a positive score, by descending score. -/
def bestBy (score : String → ℚ) (candidates : List AgentRecord) : List AgentRecord :=
  (sortedByDesc (fun r => score r.agentId) candidates).filter fun r => 0 < score r.agentId

/-- A composite ranks the healthy agents by their totals. -/
theorem rankCandidates_of_rankEach (hagents : table.listAgents (some true) ≠ [])
    (h : rankEach conv table envelope strategies counters = (.ok rankings, after)) :
    (RoutingStrategy.compositeRouter strategies).rankCandidates conv table envelope counters =
      (.ok (bestBy (total (byId rankings)) (table.listAgents (some true))), after) := by
  have hscores : (fun a =>
      (addRankings rankings ((allCandidates table).mapValues fun _ => 0)).getD a 0) =
        total (byId rankings) :=
    funext (getD_addRankings (rankEach_subperm h))
  rw [rankCandidates_compositeRouter hagents, h, ← hscores]
  rfl

/-- What has a positive score is kept. -/
theorem mem_bestBy {score : String → ℚ} {candidates : List AgentRecord} {a : AgentRecord} :
    a ∈ bestBy score candidates ↔ a ∈ candidates ∧ 0 < score a.agentId := by
  rw [bestBy, List.mem_filter, (sortedByDesc_perm _ _).mem_iff, decide_eq_true_iff]

theorem pairwise_sortedByDesc {α : Type} (key : α → ℚ) (l : List α) :
    (sortedByDesc key l).Pairwise fun x y => key y ≤ key x :=
  List.pairwise_insertionSort _ _

theorem pairwise_bestBy (score : String → ℚ) (candidates : List AgentRecord) :
    (bestBy score candidates).Pairwise fun a b => score b.agentId ≤ score a.agentId :=
  (pairwise_sortedByDesc (fun r : AgentRecord => score r.agentId) candidates).sublist
    List.filter_sublist

/-- Of two kept candidates, the one with the greater score comes first. -/
theorem ahead_bestBy {score : String → ℚ} {candidates : List AgentRecord} {a b : AgentRecord}
    (ha : a ∈ bestBy score candidates) (hb : b ∈ bestBy score candidates)
    (hlt : score b.agentId < score a.agentId) : Ahead (bestBy score candidates) a b := by
  exact ahead_of_pairwise (pairwise_bestBy score candidates) ha hb hlt

/-! ## Unanimity -/

/-- The weights of a composite are not negative. -/
theorem weight_byId_nonneg (rankings : List (List AgentRecord × NNRat)) :
    ∀ p ∈ byId rankings, 0 ≤ p.2 := by
  intro p hp
  obtain ⟨q, -, rfl⟩ := List.mem_map.mp hp
  exact q.2.coe_nonneg

/-- A ranking lists each id once. -/
theorem nodup_byId (hsubperm : ∀ p ∈ rankings, p.1 <+~ table.listAgents (some true)) :
    ∀ p ∈ byId rankings, p.1.Nodup := by
  intro p hp
  obtain ⟨q, hq, rfl⟩ := List.mem_map.mp hp
  exact nodup_of_subperm (hsubperm q hq)

/-- A preference among healthy agents is one among their ids. -/
theorem prefers_byId {ranked : List AgentRecord} {a b : AgentRecord}
    (hranked : ranked <+~ table.listAgents (some true)) (hb : b ∈ table.listAgents (some true))
    (h : Prefers ranked a b) :
    Prefers (ranked.map AgentRecord.agentId) a.agentId b.agentId := by
  rcases h with hahead | ⟨ha, hnot⟩
  · exact .inl (hahead.map _)
  · exact .inr ⟨List.mem_map_of_mem ha, (mem_map_agentId_iff hranked hb).not.mpr hnot⟩

/-- An agent that every ranking with a weight prefers to another, if it lists one of them, has the
greater total. -/
theorem total_byId_lt {a b : AgentRecord}
    (hsubperm : ∀ p ∈ rankings, p.1 <+~ table.listAgents (some true))
    (ha : a ∈ table.listAgents (some true)) (hb : b ∈ table.listAgents (some true))
    (hall : ∀ p ∈ rankings, 0 < p.2 → Prefers p.1 a b ∨ a ∉ p.1 ∧ b ∉ p.1)
    (hsome : ∃ p ∈ rankings, 0 < p.2 ∧ Prefers p.1 a b) :
    total (byId rankings) b.agentId < total (byId rankings) a.agentId := by
  refine total_lt_total (nodup_byId hsubperm) (weight_byId_nonneg rankings) ?_ ?_
  · intro p hp hpos
    obtain ⟨q, hq, rfl⟩ := List.mem_map.mp hp
    have hranked := hsubperm q hq
    rw [mem_map_agentId_iff hranked ha, mem_map_agentId_iff hranked hb]
    exact (hall q hq (NNRat.coe_pos.mp hpos)).imp_left (prefers_byId hranked hb)
  · obtain ⟨q, hq, hpos, hprefers⟩ := hsome
    exact ⟨_, List.mem_map_of_mem hq, NNRat.coe_pos.mpr hpos,
      prefers_byId (hsubperm q hq) hb hprefers⟩

/-- A composite respects unanimity. Let each ranking with a positive weight that its strategies
return in a call prefer a healthy agent to another or list neither, and one such ranking prefer it.
Then the composite ranks this agent, and ahead of the other if it ranks both. -/
theorem composite_respects_unanimity (conv : TextConversions) (table : RoutingTable)
    (envelope : MessageEnvelope) (strategies : List (RoutingStrategy × NNRat))
    (counters after : Counters) (rankings : List (List AgentRecord × NNRat)) (a b : AgentRecord)
    (hrankings : rankEach conv table envelope strategies counters = (.ok rankings, after))
    (ha : a ∈ table.listAgents (some true)) (hb : b ∈ table.listAgents (some true))
    (hall : ∀ p ∈ rankings, 0 < p.2 → Prefers p.1 a b ∨ a ∉ p.1 ∧ b ∉ p.1)
    (hsome : ∃ p ∈ rankings, 0 < p.2 ∧ Prefers p.1 a b) :
    ∃ output,
      (RoutingStrategy.compositeRouter strategies).rankCandidates conv table envelope counters =
        (.ok output, after) ∧
      a ∈ output ∧ (b ∈ output → Ahead output a b) := by
  have hlt := total_byId_lt (rankEach_subperm hrankings) ha hb hall hsome
  have hpos := (total_nonneg (weight_byId_nonneg rankings) b.agentId).trans_lt hlt
  have hkept : a ∈ bestBy (total (byId rankings)) (table.listAgents (some true)) :=
    mem_bestBy.mpr ⟨ha, hpos⟩
  exact ⟨_, rankCandidates_of_rankEach (List.ne_nil_of_mem ha) hrankings, hkept,
    fun hlisted => ahead_bestBy hkept hlisted hlt⟩

/-- A healthy agent. -/
def agentWithLoad (agentId : String) (currentLoad : ℚ) : AgentRecord :=
  { agentId := agentId, currentLoad := currentLoad, registeredAt := 0, lastHeartbeatAt := 0 }

theorem halfLoad_nonneg : (0 : ℚ) ≤ 0.5 := by decide +kernel

theorem halfLoad_le : (0.5 : ℚ) ≤ 1 := by decide +kernel

/-- A router whose turn it is to prefer the busy agent has no weight. The other two prefer the idle
one, and the second of them does not rank the busy one. -/
def ratedByLoad : List (RoutingStrategy × NNRat) :=
  [(.capabilityMatchRouter, 1), (.roundRobinRouter 0, 0),
    (.leastLoadedRouter ⟨0.5, halfLoad_nonneg, halfLoad_le⟩, 1)]

/-- `composite_respects_unanimity` where the loads decide. -/
theorem composite_respects_unanimity_ratedByLoad :
    ∃ output,
      (RoutingStrategy.compositeRouter ratedByLoad).rankCandidates
          ⟨fun _ => none, fun _ => none, fun _ => .error .typeError⟩ RouteResolver.threeAgents
          { sender := "a", receiver := "*", messageId := "m", createdAt := 0 } (fun _ => 0) =
        (.ok output, Function.update (fun _ => 0) 0 1) ∧
      agentWithLoad "idle" 0 ∈ output ∧
      (agentWithLoad "busy" 1 ∈ output →
        Ahead output (agentWithLoad "idle" 0) (agentWithLoad "busy" 1)) := by
  refine composite_respects_unanimity _ _ _ _ _ _
    [([agentWithLoad "idle" 0, agentWithLoad "busy" 1], 1),
      ([agentWithLoad "busy" 1, agentWithLoad "idle" 0], 0), ([agentWithLoad "idle" 0], 1)] _ _
    (Prod.ext ?_ rfl) ?_ ?_ ?_ ?_
  · decide +kernel
  · decide +kernel
  · decide +kernel
  · decide +kernel
  · exact ⟨_, List.mem_cons_self, by decide, .inl (List.Sublist.refl _)⟩

/-! ## One strategy -/

/-- Candidates that have a score if they are ranked, and a greater one than those ranked after them,
are sorted into the ranking. -/
theorem bestBy_eq {score : String → ℚ} {candidates ranked : List AgentRecord}
    (hnodup : candidates.Nodup) (hranked : ranked <+~ candidates)
    (hpos : ∀ r ∈ candidates, 0 < score r.agentId ↔ r ∈ ranked)
    (hfalls : ranked.Pairwise fun a b => score b.agentId < score a.agentId) :
    bestBy score candidates = ranked := by
  have hsame : ∀ r, r ∈ bestBy score candidates ↔ r ∈ ranked := fun r => by
    rw [mem_bestBy]
    exact ⟨fun h => (hpos r h.1).mp h.2, fun h =>
      ⟨hranked.subset h, (hpos r (hranked.subset h)).mpr h⟩⟩
  have hbest : (bestBy score candidates).Nodup :=
    ((sortedByDesc_perm _ _).nodup_iff.mpr hnodup).filter _
  have hdistinct : ranked.Nodup := hfalls.imp fun hlt heq => hlt.ne (by rw [heq])
  have hperm : bestBy score candidates ~ ranked :=
    (List.perm_ext_iff_of_nodup hbest hdistinct).mpr hsame
  refine List.Perm.eq_of_pairwise (fun a b ha hb hab hba => ?_) (pairwise_bestBy score candidates)
    (hfalls.imp le_of_lt) hperm
  -- Of two ranked candidates, the first has the greater score.
  by_contra hne
  rcases ahead_or_ahead ((hsame a).mp ha) hb hne with hahead | hahead
  · exact absurd hba (not_le.mpr (List.pairwise_iff_forall_sublist.mp hfalls hahead))
  · exact absurd hab (not_le.mpr (List.pairwise_iff_forall_sublist.mp hfalls hahead))

/-- Without a healthy agent, no router counts a call. -/
theorem rankCandidates_of_no_agents {strategy : RoutingStrategy} {ranked : List AgentRecord}
    (hnone : table.listAgents (some true) = [])
    (h : strategy.rankCandidates conv table envelope counters = (.ok ranked, after)) :
    ranked = [] ∧ after = counters := by
  refine ⟨List.subperm_nil.mp (hnone ▸ rankCandidates_subperm h), ?_⟩
  cases strategy with
  | capabilityMatchRouter | costAwareRouter | leastLoadedRouter => exact (Prod.mk.inj h).2.symm
  | roundRobinRouter router =>
    have hturn : (rankInTurn router table counters).2 = counters := by
      rw [rankInTurn]
      dsimp only
      rw [if_pos hnone]
    exact (Prod.mk.inj h).2.symm.trans hturn
  | compositeRouter strategies =>
    rw [RoutingStrategy.rankCandidates, values_allCandidates, if_pos hnone] at h
    exact (Prod.mk.inj h).2.symm

/-- A composite of one strategy ranks as this does. -/
theorem composite_singleton {strategy : RoutingStrategy} {weight : NNRat}
    {ranked : List AgentRecord} (hweight : 0 < weight)
    (h : strategy.rankCandidates conv table envelope counters = (.ok ranked, after)) :
    (RoutingStrategy.compositeRouter [(strategy, weight)]).rankCandidates conv table envelope
      counters = (.ok ranked, after) := by
  by_cases hagents : table.listAgents (some true) = []
  · obtain ⟨rfl, rfl⟩ := rankCandidates_of_no_agents hagents h
    rw [RoutingStrategy.rankCandidates, values_allCandidates, if_pos hagents]
  · have heach : rankEach conv table envelope [(strategy, weight)] counters =
        (.ok [(ranked, weight)], after) := by
      rw [rankEach, h]
      rfl
    have hranked := rankCandidates_subperm h
    have hpos : (0 : ℚ) < weight := NNRat.coe_pos.mpr hweight
    have htotal : ∀ a, total (byId [(ranked, weight)]) a =
        points ℚ (ranked.map AgentRecord.agentId) a * weight := total_singleton _ _
    rw [rankCandidates_of_rankEach hagents heach]
    refine congrArg (fun output => (Except.ok output, after)) (bestBy_eq ?_ hranked ?_ ?_)
    · exact List.Nodup.of_map _ (table.nodup_listAgents _)
    · intro r hr
      rw [htotal, mul_pos_iff_of_pos_right hpos, points_pos_iff, mem_map_agentId_iff hranked hr]
    · have hfalls := List.pairwise_map.mp (pairwise_points (𝕜 := ℚ) (nodup_of_subperm hranked))
      refine hfalls.imp fun hlt => ?_
      rw [htotal, htotal]
      exact mul_lt_mul_of_pos_right hlt hpos

/-! ## Scaled weights -/

/-- Scores are compared with each other and with zero only. -/
theorem bestBy_scaled {c : ℚ} (hc : 0 < c) (score : String → ℚ) (candidates : List AgentRecord) :
    bestBy (fun a => c * score a) candidates = bestBy score candidates := by
  unfold bestBy sortedByDesc
  simp only [mul_le_mul_iff_of_pos_left hc, mul_pos_iff_of_pos_left hc]

/-- The strategies are asked in the same way whatever their weights are. -/
theorem rankEach_scaled (conv : TextConversions) (table : RoutingTable)
    (envelope : MessageEnvelope) (c : NNRat) (strategies : List (RoutingStrategy × NNRat))
    (counters : Counters) :
    rankEach conv table envelope (strategies.map fun p => (p.1, c * p.2)) counters =
      ((rankEach conv table envelope strategies counters).1.map fun rankings =>
          rankings.map fun p => (p.1, c * p.2),
        (rankEach conv table envelope strategies counters).2) := by
  induction strategies generalizing counters with
  | nil => rfl
  | cons first rest ih =>
    obtain ⟨strategy, weight⟩ := first
    rw [List.map_cons, rankEach, rankEach]
    rcases strategy.rankCandidates conv table envelope counters with ⟨_ | ranked, next⟩
    · rfl
    · dsimp only
      rw [ih]
      rcases rankEach conv table envelope rest next with ⟨_ | rankings, last⟩
      · rfl
      · rfl

/-- The totals of scaled rankings are scaled. -/
theorem total_byId_scaled (c : NNRat) (rankings : List (List AgentRecord × NNRat)) (a : String) :
    total (byId (rankings.map fun p => (p.1, c * p.2))) a = c * total (byId rankings) a := by
  have hscaled : byId (rankings.map fun p => (p.1, c * p.2)) =
      (byId rankings).map fun p => (p.1, (c : ℚ) * p.2) := by
    unfold byId
    rw [List.map_map, List.map_map]
    refine List.map_congr_left fun p _ => ?_
    exact congrArg (Prod.mk _) (NNRat.coe_mul c p.2)
  rw [hscaled, total_scaled]

/-- The ranking of a composite depends on the ratios of the weights only. -/
theorem composite_scaled {c : NNRat} (hc : 0 < c) (strategies : List (RoutingStrategy × NNRat)) :
    (RoutingStrategy.compositeRouter (strategies.map fun p => (p.1, c * p.2))).rankCandidates conv
        table envelope counters =
      (RoutingStrategy.compositeRouter strategies).rankCandidates conv table envelope counters := by
  by_cases hagents : table.listAgents (some true) = []
  · rw [RoutingStrategy.rankCandidates, RoutingStrategy.rankCandidates, values_allCandidates,
      if_pos hagents, if_pos hagents]
  · have hscaled := rankEach_scaled conv table envelope c strategies counters
    rcases heach : rankEach conv table envelope strategies counters with ⟨e | rankings, after⟩
    · rw [heach] at hscaled
      rw [rankCandidates_compositeRouter hagents, rankCandidates_compositeRouter hagents, hscaled,
        heach]
      rfl
    · rw [heach] at hscaled
      have htotal : total (byId (rankings.map fun p => (p.1, c * p.2))) =
          fun a => c * total (byId rankings) a := funext (total_byId_scaled c rankings)
      rw [rankCandidates_of_rankEach hagents heach, rankCandidates_of_rankEach hagents hscaled,
        htotal, bestBy_scaled (NNRat.coe_pos.mpr hc)]

/-- A composite is transparent and scale-free. A composite of one strategy with a positive weight
returns the list that the strategy returns in the same state, and leaves the same counters; and a
composite returns the same whatever positive constant all its weights are multiplied by. -/
theorem composite_transparent_and_scale_free (conv : TextConversions) (table : RoutingTable)
    (envelope : MessageEnvelope) (counters : Counters) :
    (∀ (strategy : RoutingStrategy) (weight : NNRat) (ranked : List AgentRecord) (after : Counters),
      0 < weight →
      strategy.rankCandidates conv table envelope counters = (.ok ranked, after) →
        (RoutingStrategy.compositeRouter [(strategy, weight)]).rankCandidates conv table envelope
          counters = (.ok ranked, after)) ∧
    ∀ (strategies : List (RoutingStrategy × NNRat)) (c : NNRat), 0 < c →
      (RoutingStrategy.compositeRouter (strategies.map fun p => (p.1, c * p.2))).rankCandidates conv
          table envelope counters =
        (RoutingStrategy.compositeRouter strategies).rankCandidates conv table envelope counters :=
  ⟨fun _ _ _ _ hweight h => composite_singleton hweight h,
    fun strategies _ hc => composite_scaled hc strategies⟩

/-- `composite_transparent_and_scale_free` for a router in turn, and for tripled weights. -/
theorem composite_transparent_and_scale_free_ratedByLoad :
    (RoutingStrategy.compositeRouter [(.roundRobinRouter 0, 0.5)]).rankCandidates
        ⟨fun _ => none, fun _ => none, fun _ => .error .typeError⟩ RouteResolver.threeAgents
        { sender := "a", receiver := "*", messageId := "m", createdAt := 0 } (fun _ => 0) =
      (.ok [agentWithLoad "busy" 1, agentWithLoad "idle" 0],
        Function.update (fun _ => 0) 0 1) ∧
    (RoutingStrategy.compositeRouter (ratedByLoad.map fun p => (p.1, 3.0 * p.2))).rankCandidates
        ⟨fun _ => none, fun _ => none, fun _ => .error .typeError⟩ RouteResolver.threeAgents
        { sender := "a", receiver := "*", messageId := "m", createdAt := 0 } (fun _ => 0) =
      (RoutingStrategy.compositeRouter ratedByLoad).rankCandidates
        ⟨fun _ => none, fun _ => none, fun _ => .error .typeError⟩ RouteResolver.threeAgents
        { sender := "a", receiver := "*", messageId := "m", createdAt := 0 } (fun _ => 0) := by
  refine ⟨(composite_transparent_and_scale_free _ _ _ _).1 _ _ _ _ (by decide +kernel) ?_,
    (composite_transparent_and_scale_free _ _ _ _).2 _ _ (by decide +kernel)⟩
  refine Prod.ext ?_ rfl
  decide +kernel

end MeshRouter.Routing
