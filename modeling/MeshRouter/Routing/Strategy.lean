import Mathlib.Data.List.Sort
import Mathlib.Data.NNRat.Defs
import Mathlib.Data.String.Basic
import MeshRouter.Builtins
import MeshRouter.Messages.Envelope
import MeshRouter.Routing.Table

/-!
# The routing strategies

The five routers of `routing/strategy.py`. A `CompositeRouter` holds other routers with their
weights, so that a strategy is a tree with the four other routers at its leaves. The bounds that the
constructors of the routers check are fields of their parameters, except that a `CompositeRouter`
without routers is refused by the source and ranks no agent here.

A `RoundRobinRouter` counts its calls. The same router can occur several times in a tree, so the
routers have numbers, and their counters are a state of the ranking. It is kept when a ranking
raises. Scores, loads, costs, and weights are exact rationals.
-/

namespace MeshRouter.Routing

open Lib Messages

/-- A `budget_safety_margin` that `CostAwareRouter` accepts. -/
structure SafetyMargin where
  value : ℚ := 0
  nonneg : 0 ≤ value
  lt_one : value < 1
deriving DecidableEq

/-- A `load_ceiling` that `LeastLoadedRouter` accepts. -/
structure LoadCeiling where
  value : ℚ := 1
  nonneg : 0 ≤ value
  le_one : value ≤ 1
deriving DecidableEq

/-- The default ceiling includes all agents. -/
def LoadCeiling.all : LoadCeiling where
  nonneg := zero_le_one
  le_one := le_rfl

/-- A routing strategy. -/
inductive RoutingStrategy where
  | capabilityMatchRouter (requireAll : Bool := true) (tieBreakByLoad : Bool := true)
  | costAwareRouter (budgetSafetyMargin : SafetyMargin)
  /-- The router's number. -/
  | roundRobinRouter (router : ℕ)
  | leastLoadedRouter (loadCeiling : LoadCeiling)
  | compositeRouter (strategies : List (RoutingStrategy × NNRat))

/-- The counters of the `RoundRobinRouter`s. -/
abbrev Counters := ℕ → ℕ

/-- `sort` and `sorted` by a key, which keep the order of elements with equal keys. -/
def sortedBy {α β : Type} [LE β] [DecidableLE β] (key : α → β) (l : List α) : List α :=
  l.insertionSort fun a b => key a ≤ key b

/-- `sorted` by a key with `reverse`, which also keeps the order of elements with equal keys. -/
def sortedByDesc {α β : Type} [LE β] [DecidableLE β] (key : α → β) (l : List α) : List α :=
  l.insertionSort fun a b => key b ≤ key a

/-- Sorting rearranges. -/
theorem sortedBy_perm {α β : Type} [LE β] [DecidableLE β] (key : α → β) (l : List α) :
    (sortedBy key l).Perm l :=
  List.perm_insertionSort _ l

theorem sortedByDesc_perm {α β : Type} [LE β] [DecidableLE β] (key : α → β) (l : List α) :
    (sortedByDesc key l).Perm l :=
  List.perm_insertionSort _ l

/-! ## The routers at the leaves -/

/-- The set of the required capabilities: of the list in the payload, if it is a list. -/
def requiredCapabilities (envelope : MessageEnvelope) : Except PyError (List Value) :=
  match (envelope.payload.get? "required_capabilities").getD (.list []) with
  | .list raw => Value.setOf raw
  | _ => .ok []

/-- `CapabilityMatchRouter.rank_candidates`. -/
def rankByCapability (requireAll tieBreakByLoad : Bool) (table : RoutingTable)
    (envelope : MessageEnvelope) : Except PyError (List AgentRecord) := do
  let required ← requiredCapabilities envelope
  let candidates :=
    if required = [] then table.listAgents (some true)
    else table.findByCapabilities required (some true) requireAll
  return if candidates = [] then []
    else if tieBreakByLoad then sortedBy AgentRecord.currentLoad candidates
    else candidates

/-- The number of tokens that a cost is estimated for, as a factor of a float. -/
def estimatedTokens (conv : TextConversions) (envelope : MessageEnvelope) : Except PyError ℚ := do
  let tokens ← ((envelope.payload.get? "estimated_tokens").getD (.int 1000)).toInt conv
  floatOfInt tokens

/-- `CostAwareRouter.rank_candidates`. The tokens are read if there is a budget and an agent whose
cost is to be compared with it. -/
def rankByCost (conv : TextConversions) (margin : SafetyMargin) (table : RoutingTable)
    (envelope : MessageEnvelope) : Except PyError (List AgentRecord) :=
  let candidates := table.listAgents (some true)
  if candidates = [] then
    .ok []
  else
    match envelope.costBudgetUsd with
    | none => .ok (sortedBy AgentRecord.costPerToken candidates)
    | some budget => do
      let effectiveBudget := budget * (1 - margin.value)
      let tokens ← estimatedTokens conv envelope
      let affordable := candidates.filter fun r => r.costPerToken * tokens ≤ effectiveBudget
      return if affordable = [] then [] else sortedBy AgentRecord.costPerToken affordable

/-- `RoundRobinRouter.rank_candidates`: the healthy agents by id, rotated by the counter. -/
def rankInTurn (router : ℕ) (table : RoutingTable) (counters : Counters) :
    List AgentRecord × Counters :=
  let candidates := table.listAgents (some true)
  if candidates = [] then
    ([], counters)
  else
    let candidates := sortedBy AgentRecord.agentId candidates
    let index := counters router % candidates.length
    (candidates.drop index ++ candidates.take index,
      Function.update counters router (counters router + 1))

/-- `LeastLoadedRouter.rank_candidates`. -/
def rankByLoad (ceiling : LoadCeiling) (table : RoutingTable) : List AgentRecord :=
  let candidates := (table.listAgents (some true)).filter fun r => r.currentLoad ≤ ceiling.value
  if candidates = [] then [] else sortedBy AgentRecord.currentLoad candidates

/-! ## The scores of a composite -/

/-- The healthy agents under their ids. -/
def allCandidates (table : RoutingTable) : Dict String AgentRecord :=
  Dict.setAll AgentRecord.agentId id (table.listAgents (some true)) .empty

/-- The scores with those of one ranking added: `(total - rank_index) / total * weight` for the
agent at each index. -/
def addScores (ranked : List AgentRecord) (weight : ℚ) (scores : Dict String ℚ) : Dict String ℚ :=
  if ranked.length = 0 then
    scores
  else
    ranked.zipIdx.foldl (fun scores p =>
      if p.1.agentId ∈ scores.keys then
        scores.set p.1.agentId
          (scores.getD p.1.agentId 0 + (ranked.length - p.2 : ℚ) / ranked.length * weight)
      else scores) scores

/-- The candidates with a positive score, by descending score. -/
def bestScored (candidates : List AgentRecord) (scores : Dict String ℚ) : List AgentRecord :=
  (sortedByDesc (fun r => scores.getD r.agentId 0) candidates).filter fun r =>
    0 < scores.getD r.agentId 0

namespace RoutingStrategy

variable (conv : TextConversions) (table : RoutingTable) (envelope : MessageEnvelope)

mutual

/-- `rank_candidates`: the candidates from best to worst, and the counters after the call. -/
def rankCandidates : RoutingStrategy → Counters → Except PyError (List AgentRecord) × Counters
  | .capabilityMatchRouter requireAll tieBreakByLoad, counters =>
    (rankByCapability requireAll tieBreakByLoad table envelope, counters)
  | .costAwareRouter margin, counters => (rankByCost conv margin table envelope, counters)
  | .roundRobinRouter router, counters =>
    let (ranked, counters) := rankInTurn router table counters
    (.ok ranked, counters)
  | .leastLoadedRouter ceiling, counters => (.ok (rankByLoad ceiling table), counters)
  | .compositeRouter strategies, counters =>
    let candidates := allCandidates table
    if candidates.values = [] then
      (.ok [], counters)
    else
      match accumulateScores strategies (candidates.mapValues fun _ => 0) counters with
      | (.ok scores, counters) => (.ok (bestScored candidates.values scores), counters)
      | (.error e, counters) => (.error e, counters)

/-- The loop of `CompositeRouter.rank_candidates` over its strategies. -/
def accumulateScores : List (RoutingStrategy × NNRat) → Dict String ℚ → Counters →
    Except PyError (Dict String ℚ) × Counters
  | [], scores, counters => (.ok scores, counters)
  | (strategy, weight) :: rest, scores, counters =>
    match rankCandidates strategy counters with
    | (.ok ranked, counters) => accumulateScores rest (addScores ranked weight scores) counters
    | (.error e, counters) => (.error e, counters)

end

/-- `type(strategy).__name__`. -/
def className : RoutingStrategy → String
  | .capabilityMatchRouter _ _ => "CapabilityMatchRouter"
  | .costAwareRouter _ => "CostAwareRouter"
  | .roundRobinRouter _ => "RoundRobinRouter"
  | .leastLoadedRouter _ => "LeastLoadedRouter"
  | .compositeRouter _ => "CompositeRouter"

end RoutingStrategy

end MeshRouter.Routing
