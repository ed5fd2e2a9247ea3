import MeshRouter.Routing.Strategy

/-!
# The route resolver

`RoutingResult` and `RouteResolver` of `routing/resolver.py`: an available receiver is taken
directly, and otherwise the strategy ranks the candidates.
-/

namespace MeshRouter.Routing

open Lib Messages

/-- The outcome of a routing resolution attempt. -/
structure RoutingResult where
  primaryAgentId : Option String
  fallbackAgentIds : List String := []
  strategyName : String := ""
  candidatesEvaluated : ℕ := 0
  routed : Bool := false
deriving DecidableEq

/-- Primary and fallbacks as an ordered list. -/
def RoutingResult.allCandidates (result : RoutingResult) : List String :=
  match result.primaryAgentId with
  | none => result.fallbackAgentIds
  | some primary => primary :: result.fallbackAgentIds

/-- Combines a routing table and a strategy into a resolution service. -/
structure RouteResolver where
  table : RoutingTable
  strategy : RoutingStrategy
  maxFallbacks : ℕ := 3

namespace RouteResolver

/-- The receiver of an envelope is named and available. -/
def Direct (resolver : RouteResolver) (envelope : MessageEnvelope) : Prop :=
  envelope.receiver ≠ "" ∧ envelope.receiver ≠ "*" ∧ resolver.table.Available envelope.receiver

/-- The result of the fast path. -/
def directResult (resolver : RouteResolver) (envelope : MessageEnvelope) : RoutingResult where
  primaryAgentId := some envelope.receiver
  strategyName := "direct:" ++ resolver.strategy.className
  candidatesEvaluated := 1
  routed := true

/-- The result of a ranking: its first agent, and the next ones as fallbacks. -/
def rankedResult (resolver : RouteResolver) (ranked : List AgentRecord) : RoutingResult :=
  match ranked with
  | [] =>
    { primaryAgentId := none
      strategyName := resolver.strategy.className
      candidatesEvaluated := 0
      routed := false }
  | primary :: rest =>
    { primaryAgentId := some primary.agentId
      fallbackAgentIds := (rest.take resolver.maxFallbacks).map AgentRecord.agentId
      strategyName := resolver.strategy.className
      candidatesEvaluated := (primary :: rest).length
      routed := true }

/-- The lookup of the fast path: whether the receiver is registered and its record healthy. -/
def receiverAvailable (resolver : RouteResolver) (receiver : String) : Bool :=
  match resolver.table.getAgent receiver with
  | .ok record => record.healthy
  | .error _ => false

variable (conv : TextConversions)

/-- `resolve`. -/
def resolve (resolver : RouteResolver) (envelope : MessageEnvelope) (counters : Counters) :
    Except PyError RoutingResult × Counters :=
  if envelope.receiver ≠ "" ∧ envelope.receiver ≠ "*" ∧
      resolver.receiverAvailable envelope.receiver = true then
    (.ok (resolver.directResult envelope), counters)
  else
    match resolver.strategy.rankCandidates conv resolver.table envelope counters with
    | (.ok ranked, counters) => (.ok (resolver.rankedResult ranked), counters)
    | (.error e, counters) => (.error e, counters)

end RouteResolver

end MeshRouter.Routing
