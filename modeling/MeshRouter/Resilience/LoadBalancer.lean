import Mathlib.Data.List.MinMax
import MeshRouter.Lib.BinaryFloat
import MeshRouter.Lib.Dict

/-!
# The load balancer

`LoadBalancer` of `resilience/load_balancer.py`: the endpoints, their health and connection counts,
and the selection by four strategies. A selection gives its result and the balancer that it leaves.
The `RANDOM` strategy takes the number that the generator draws. The weights and the accumulators of
the `WEIGHTED_ROUND_ROBIN` strategy are of any kind of numbers `N`: floats in the source, and exact
rationals where the shares of the endpoints are counted.

The loop of this strategy changes the accumulators while it looks for the greatest one.
`foldl_growWeight` says what comes of it: all have grown, and the best endpoint is what `better`
finds by the grown ones.
-/

namespace MeshRouter.Resilience

open Lib

/-- Available load-balancing strategies. -/
inductive LoadBalancerStrategy where
  | ROUND_ROBIN
  | WEIGHTED_ROUND_ROBIN
  | LEAST_CONNECTIONS
  | RANDOM
deriving DecidableEq

/-- What a selection can raise. -/
inductive SelectError where
  /-- `NoHealthyEndpointError`: "No healthy endpoints are available." -/
  | noHealthyEndpoint
  /-- `assert best is not None` fails. -/
  | assertionError
  /-- An index is out of range. -/
  | indexError
  /-- `min` of an empty sequence. -/
  | valueError
deriving DecidableEq

/-- What the weighted selection does with its numbers, besides adding and comparing them. -/
class Accumulates (N : Type) where
  /-- The built-in `sum`. -/
  total : List N → N
  /-- `x > float("-inf")`. -/
  AboveNegInf : N → Prop
  decidable : DecidablePred AboveNegInf

instance {N : Type} [Accumulates N] : DecidablePred (Accumulates.AboveNegInf (N := N)) :=
  Accumulates.decidable

/-- The floats of the source, which are summed from the left. -/
instance : Accumulates Binary64 where
  total weights := weights.foldl (· + ·) 0
  AboveNegInf x := BinaryFloat.negInf < x
  decidable _ := inferInstance

/-- The default weight is admitted, and a port of HTTP. -/
theorem one_valid : ¬ (1 : Binary64) ≤ 0 := by decide +kernel

theorem httpPort_pos : 0 < 8080 := Nat.succ_pos 8079

theorem httpPort_le : 8080 ≤ 65535 := Nat.le_of_ble_eq_true rfl

/-- Immutable descriptor for a service endpoint, with the bounds that `__post_init__` checks. -/
structure ServiceEndpoint (N : Type) [Zero N] [One N] [LE N] where
  name : String
  host : String
  port : ℕ
  weight : N := 1
  healthy : Bool := true
  weight_valid : ¬ weight ≤ 0
  port_pos : 0 < port
  port_le : port ≤ 65535

variable {N : Type} [Zero N] [One N] [LE N]

namespace ServiceEndpoint

/-- Endpoints with the same data are equal. -/
theorem eq_iff {a b : ServiceEndpoint N} :
    a.name = b.name ∧ a.host = b.host ∧ a.port = b.port ∧ a.weight = b.weight ∧
      a.healthy = b.healthy ↔ a = b := by
  cases a
  cases b
  simp

instance [DecidableEq N] : DecidableEq (ServiceEndpoint N) := fun _ _ => decidable_of_iff _ eq_iff

end ServiceEndpoint

/-- Distribute requests across a pool of service endpoints. -/
structure LoadBalancer (N : Type) [Zero N] [One N] [LE N] where
  endpoints : Dict String (ServiceEndpoint N) := .empty
  health : Dict String Bool := .empty
  connections : Dict String ℕ := .empty
  rrCounter : ℕ := 0
  wrrCurrentWeights : Dict String N := .empty
  /-- Every endpoint is registered under its name. -/
  named : ∀ name ep, endpoints.get? name = some ep → ep.name = name
deriving DecidableEq

/-- "Endpoint … is not registered." -/
structure EndpointKeyError where
  name : String
deriving DecidableEq

namespace LoadBalancer

/-- No endpoint is registered under another name. -/
theorem named_empty (name : String) (ep : ServiceEndpoint N)
    (h : (Dict.empty : Dict String (ServiceEndpoint N)).get? name = some ep) : ep.name = name := by
  cases h

/-- Registering an endpoint under its name. -/
theorem named_set (lb : LoadBalancer N) (endpoint : ServiceEndpoint N) (name : String)
    (ep : ServiceEndpoint N) (h : (lb.endpoints.set endpoint.name endpoint).get? name = some ep) :
    ep.name = name := by
  have hnamed : lb.endpoints.All fun name ep => ep.name = name := lb.named
  exact hnamed.set rfl name ep h

/-- Removing an endpoint. -/
theorem named_erase (lb : LoadBalancer N) (removed name : String) (ep : ServiceEndpoint N)
    (h : (lb.endpoints.erase removed).get? name = some ep) : ep.name = name := by
  have hnamed : lb.endpoints.All fun name ep => ep.name = name := lb.named
  exact hnamed.erase removed name ep h

/-- `__init__`. -/
def init : LoadBalancer N := { named := named_empty }

/-- `add_endpoint`: an endpoint that is registered again keeps its connection count. -/
def addEndpoint (lb : LoadBalancer N) (endpoint : ServiceEndpoint N) : LoadBalancer N :=
  let existingConnections := lb.connections.getD endpoint.name 0
  { lb with
    endpoints := lb.endpoints.set endpoint.name endpoint
    health := lb.health.set endpoint.name endpoint.healthy
    connections := lb.connections.set endpoint.name existingConnections
    wrrCurrentWeights := lb.wrrCurrentWeights.set endpoint.name 0
    named := lb.named_set endpoint }

/-- `remove_endpoint`. -/
def removeEndpoint (lb : LoadBalancer N) (name : String) : LoadBalancer N :=
  { lb with
    endpoints := lb.endpoints.erase name
    health := lb.health.erase name
    connections := lb.connections.erase name
    wrrCurrentWeights := lb.wrrCurrentWeights.erase name
    named := lb.named_erase name }

/-- `mark_unhealthy` and `mark_healthy`. -/
def mark (healthy : Bool) (lb : LoadBalancer N) (name : String) :
    Except EndpointKeyError Unit × LoadBalancer N :=
  if name ∉ lb.endpoints.keys then
    (.error ⟨name⟩, lb)
  else
    (.ok (), { lb with health := lb.health.set name healthy })

/-- `mark_unhealthy`. -/
def markUnhealthy : LoadBalancer N → String → Except EndpointKeyError Unit × LoadBalancer N :=
  mark false

/-- `mark_healthy`. -/
def markHealthy : LoadBalancer N → String → Except EndpointKeyError Unit × LoadBalancer N :=
  mark true

/-- `record_connection_open` and `record_connection_close`, which change the count. -/
def recordConnection (change : ℕ → ℕ) (lb : LoadBalancer N) (name : String) :
    Except EndpointKeyError Unit × LoadBalancer N :=
  match lb.connections.get? name with
  | none => (.error ⟨name⟩, lb)
  | some count => (.ok (), { lb with connections := lb.connections.set name (change count) })

/-- `record_connection_open`. -/
def recordConnectionOpen :
    LoadBalancer N → String → Except EndpointKeyError Unit × LoadBalancer N :=
  recordConnection fun count => count + 1

/-- `record_connection_close`: the count does not go below zero. -/
def recordConnectionClose :
    LoadBalancer N → String → Except EndpointKeyError Unit × LoadBalancer N :=
  recordConnection fun count => count - 1

/-- `_healthy_list`. -/
def healthyList (lb : LoadBalancer N) : List (ServiceEndpoint N) :=
  (lb.endpoints.entries.filter fun e => lb.health.getD e.1 false).map Prod.snd

/-- `_round_robin`. -/
def roundRobin (lb : LoadBalancer N) (healthy : List (ServiceEndpoint N)) :
    Except SelectError (ServiceEndpoint N) × LoadBalancer N :=
  let index := lb.rrCounter % healthy.length
  let lb := { lb with rrCounter := lb.rrCounter + 1 }
  match healthy[index]? with
  | some ep => (.ok ep, lb)
  | none => (.error .indexError, lb)

variable [Add N] [Sub N] [LT N] [DecidableLT N] [Accumulates N]

/-- A turn of the loop in `_weighted_round_robin`. The best endpoint so far is kept with its current
weight; while there is none, the best weight is minus infinity. -/
def growWeight (loop : Dict String N × Option (ServiceEndpoint N × N)) (ep : ServiceEndpoint N) :
    Dict String N × Option (ServiceEndpoint N × N) :=
  let weights := loop.1.set ep.name (loop.1.getD ep.name 0 + ep.weight)
  let current := weights.getD ep.name 0
  match loop.2 with
  | none => (weights, if Accumulates.AboveNegInf current then some (ep, current) else none)
  | some (best, bestWeight) =>
    if bestWeight < current then (weights, some (ep, current))
    else (weights, some (best, bestWeight))

/-- `_weighted_round_robin`. -/
def weightedRoundRobin (lb : LoadBalancer N) (healthy : List (ServiceEndpoint N)) :
    Except SelectError (ServiceEndpoint N) × LoadBalancer N :=
  let totalWeight := Accumulates.total (healthy.map ServiceEndpoint.weight)
  let (weights, best) := healthy.foldl growWeight (lb.wrrCurrentWeights, none)
  match best with
  | none => (.error .assertionError, { lb with wrrCurrentWeights := weights })
  | some (best, _) =>
    let weights := weights.set best.name (weights.getD best.name 0 - totalWeight)
    (.ok best, { lb with wrrCurrentWeights := weights })

/-- `_least_connections`: the first with the fewest. -/
def leastConnections (lb : LoadBalancer N) (healthy : List (ServiceEndpoint N)) :
    Except SelectError (ServiceEndpoint N) :=
  match healthy.argmin fun ep => lb.connections.getD ep.name 0 with
  | some ep => .ok ep
  | none => .error .valueError

/-- `_random`, with the number that the generator draws. -/
def random (healthy : List (ServiceEndpoint N)) (draw : ℕ) :
    Except SelectError (ServiceEndpoint N) :=
  match healthy[draw % healthy.length]? with
  | some ep => .ok ep
  | none => .error .indexError

/-- `select`. -/
def select (lb : LoadBalancer N) (strategy : LoadBalancerStrategy) (draw : ℕ) :
    Except SelectError (ServiceEndpoint N) × LoadBalancer N :=
  let healthy := lb.healthyList
  if healthy = [] then
    (.error .noHealthyEndpoint, lb)
  else
    match strategy with
    | .ROUND_ROBIN => lb.roundRobin healthy
    | .WEIGHTED_ROUND_ROBIN => lb.weightedRoundRobin healthy
    | .LEAST_CONNECTIONS => (lb.leastConnections healthy, lb)
    | .RANDOM => (random healthy draw, lb)

/-- The accumulator of an endpoint, as `_weighted_round_robin` reads it. -/
def currentWeight (lb : LoadBalancer N) (name : String) : N := lb.wrrCurrentWeights.getD name 0

omit [Add N] [Sub N] [LT N] [DecidableLT N] [Accumulates N] in
/-- The names of the healthy endpoints are distinct. -/
theorem nodup_names (lb : LoadBalancer N) :
    (lb.healthyList.map ServiceEndpoint.name).Nodup := by
  have hnames : lb.healthyList.map ServiceEndpoint.name =
      (lb.endpoints.entries.filter fun e => lb.health.getD e.1 false).map Prod.fst := by
    unfold healthyList
    rw [List.map_map]
    refine List.map_congr_left fun e he => ?_
    exact lb.named e.1 e.2 (Dict.get?_eq_some_iff.mpr (List.mem_of_mem_filter he))
  rw [hnames]
  exact lb.endpoints.nodup.sublist (List.filter_sublist.map _)

/-- The best endpoint after another one, by the grown accumulators. -/
def better (grown : ServiceEndpoint N → N) (best : Option (ServiceEndpoint N))
    (ep : ServiceEndpoint N) : Option (ServiceEndpoint N) :=
  match best with
  | none => if Accumulates.AboveNegInf (grown ep) then some ep else none
  | some best => if grown best < grown ep then some ep else some best

omit [Sub N] in
/-- The loop of `_weighted_round_robin` adds its weight to the accumulator of every endpoint, and
finds the best endpoint by the grown accumulators. -/
theorem foldl_growWeight (grown : ServiceEndpoint N → N) {healthy : List (ServiceEndpoint N)}
    (hnodup : (healthy.map ServiceEndpoint.name).Nodup) (weights : Dict String N)
    (best : Option (ServiceEndpoint N))
    (hgrown : ∀ ep ∈ healthy, weights.getD ep.name 0 + ep.weight = grown ep) :
    ∃ weights',
      healthy.foldl growWeight (weights, best.map fun ep => (ep, grown ep)) =
        (weights', (healthy.foldl (better grown) best).map fun ep => (ep, grown ep)) ∧
      (∀ ep ∈ healthy, weights'.getD ep.name 0 = grown ep) ∧
      ∀ name ∉ healthy.map ServiceEndpoint.name, weights'.getD name 0 = weights.getD name 0 := by
  induction healthy generalizing weights best with
  | nil => exact ⟨weights, rfl, by simp, fun _ _ => rfl⟩
  | cons ep healthy ih =>
    rw [List.map_cons, List.nodup_cons] at hnodup
    obtain ⟨hfresh, hnodup⟩ := hnodup
    have hep := hgrown ep List.mem_cons_self
    set weights₁ := weights.set ep.name (weights.getD ep.name 0 + ep.weight) with hweights₁
    have hcurrent : weights₁.getD ep.name 0 = grown ep := by
      rw [hweights₁, Dict.getD_set, if_pos rfl, hep]
    have hother : ∀ name, name ≠ ep.name → weights₁.getD name 0 = weights.getD name 0 :=
      fun name hne => by rw [hweights₁, Dict.getD_set, if_neg hne]
    -- The turn of the loop for `ep` is a step of the search for the best one.
    have hturn : growWeight (weights, best.map fun ep => (ep, grown ep)) ep =
        (weights₁, (better grown best ep).map fun ep => (ep, grown ep)) := by
      unfold growWeight better
      dsimp only
      rw [← hweights₁, hcurrent]
      cases best with
      | none =>
        dsimp only [Option.map_none]
        split_ifs <;> rfl
      | some b =>
        dsimp only [Option.map_some]
        split_ifs <;> rfl
    obtain ⟨weights', hfold, hmem, hnotMem⟩ := ih hnodup weights₁ (better grown best ep)
      fun x hx => by
        have hne : x.name ≠ ep.name := fun heq => hfresh (heq ▸ List.mem_map_of_mem hx)
        rw [hother x.name hne]
        exact hgrown x (List.mem_cons_of_mem ep hx)
    refine ⟨weights', by rw [List.foldl_cons, hturn, hfold, List.foldl_cons], ?_, ?_⟩
    · intro x hx
      rcases List.mem_cons.mp hx with rfl | hx
      · rw [hnotMem x.name hfresh, hcurrent]
      · exact hmem x hx
    · intro name hname
      rw [List.map_cons, List.mem_cons, not_or] at hname
      rw [hnotMem name hname.2, hother name hname.1]

omit [Add N] [Sub N] in
/-- What the search finds is what it began with, or one of the endpoints. -/
theorem mem_of_foldl_better {grown : ServiceEndpoint N → N} {healthy : List (ServiceEndpoint N)}
    {best : Option (ServiceEndpoint N)} {found : ServiceEndpoint N}
    (h : healthy.foldl (better grown) best = some found) : best = some found ∨ found ∈ healthy := by
  induction healthy generalizing best with
  | nil => exact .inl h
  | cons ep healthy ih =>
    rw [List.foldl_cons] at h
    rcases ih h with hstep | hlater
    · -- It was found by this turn, which looked at `ep`.
      unfold better at hstep
      cases best with
      | none =>
        dsimp only at hstep
        split_ifs at hstep
        exact .inr (Option.some.inj hstep ▸ List.mem_cons_self)
      | some b =>
        dsimp only at hstep
        split_ifs at hstep
        · exact .inr (Option.some.inj hstep ▸ List.mem_cons_self)
        · exact .inl hstep
    · exact .inr (List.mem_cons_of_mem ep hlater)

omit [Add N] [Sub N] in
/-- The search keeps what it has until it finds something better. -/
theorem isSome_foldl_better (grown : ServiceEndpoint N → N) (healthy : List (ServiceEndpoint N))
    (best : ServiceEndpoint N) : (healthy.foldl (better grown) (some best)).isSome := by
  induction healthy generalizing best with
  | nil => rfl
  | cons ep healthy ih =>
    rw [List.foldl_cons, better]
    split_ifs
    · exact ih ep
    · exact ih best

omit [Add N] [Sub N] in
/-- The search finds nothing exactly if no endpoint has an accumulator above minus infinity. -/
theorem foldl_better_eq_none_iff {grown : ServiceEndpoint N → N}
    {healthy : List (ServiceEndpoint N)} :
    healthy.foldl (better grown) none = none ↔
      ∀ ep ∈ healthy, ¬ Accumulates.AboveNegInf (grown ep) := by
  induction healthy with
  | nil => simp
  | cons ep healthy ih =>
    rw [List.foldl_cons, List.forall_mem_cons]
    by_cases habove : Accumulates.AboveNegInf (grown ep)
    · have hsome := isSome_foldl_better grown healthy ep
      have hbetter : better grown none ep = some ep := if_pos habove
      rw [hbetter]
      refine iff_of_false (fun hnone => ?_) fun h => h.1 habove
      rw [hnone] at hsome
      cases hsome
    · have hbetter : better grown none ep = none := if_neg habove
      rw [hbetter, ih, and_iff_right habove]

end LoadBalancer

end MeshRouter.Resilience
