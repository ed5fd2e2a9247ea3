import Mathlib.Algebra.Order.Ring.Rat
import Mathlib.Data.Finset.Basic
import MeshRouter.Lib.Dict

/-!
# The fleet registry

`FleetRegistry` of `fleet/registry.py`. Its nodes are kept under their ids and have loads between
zero and one: `register` and `heartbeat` refuse other loads, so this is a field of the registry. The
source hands out references to its nodes. Here a node is a value, and what the source changes in a
node is a change of the registry (`FleetRegistry.put`). Times and loads are exact rationals, and an
operation that reads the clock takes what it reads.
-/

namespace MeshRouter.Fleet

open Lib

/-- Lifecycle status of an agent node. -/
inductive AgentStatus where
  | HEALTHY
  | UNHEALTHY
  | DEGRADED
  | STARTING
  | STOPPING
deriving DecidableEq

/-- A single agent node in the fleet. -/
structure AgentNode where
  agentId : String
  capabilities : Finset String := ∅
  status : AgentStatus := .HEALTHY
  loadScore : ℚ := 0
  lastHeartbeat : ℚ
  metadata : Dict String String := .empty
deriving DecidableEq

namespace AgentNode

/-- `is_healthy`. -/
def isHealthy (node : AgentNode) : Bool := decide (node.status = .HEALTHY)

/-- `has_capability`. -/
def hasCapability (node : AgentNode) (capability : String) : Bool :=
  decide (capability ∈ node.capabilities)

/-- The load is one that the registry accepts. -/
def LoadInRange (node : AgentNode) : Prop := 0 ≤ node.loadScore ∧ node.loadScore ≤ 1

instance : DecidablePred LoadInRange := fun node =>
  inferInstanceAs (Decidable (0 ≤ node.loadScore ∧ node.loadScore ≤ 1))

end AgentNode

/-- What the operations of a registry can raise. -/
inductive RegistryError where
  /-- `AgentNodeNotFoundError`: "AgentNode … is not registered." -/
  | agentNodeNotFound (agentId : String)
  /-- `ValueError` of `register`: "AgentNode.load_score must be in [0.0, 1.0], got ….", and of
  `heartbeat`: "load_score must be in [0.0, 1.0], got …." -/
  | loadScoreValueError (loadScore : ℚ)
deriving DecidableEq

/-- Registry of active agent nodes. -/
@[ext]
structure FleetRegistry where
  nodes : Dict String AgentNode := .empty
  /-- Every node is kept under its id, and its load is in range. -/
  valid : nodes.All fun agentId node => node.agentId = agentId ∧ node.LoadInRange
deriving DecidableEq

namespace FleetRegistry

/-- `__init__`. -/
def init : FleetRegistry := { valid := Dict.all_empty }

/-- The registry with a node under its id, in the place of the node that was there. -/
def put (registry : FleetRegistry) (node : AgentNode) (hload : node.LoadInRange) :
    FleetRegistry where
  nodes := registry.nodes.set node.agentId node
  valid := registry.valid.set ⟨rfl, hload⟩

/-- The registry after the status of one of its nodes was set. -/
def setStatus (registry : FleetRegistry) (agentId : String) (status : AgentStatus) :
    FleetRegistry :=
  match hnode : registry.nodes.get? agentId with
  | some node => registry.put { node with status := status } (registry.valid agentId node hnode).2
  | none => registry

/-- The registry without a node. -/
def remove (registry : FleetRegistry) (agentId : String) : FleetRegistry where
  nodes := registry.nodes.erase agentId
  valid := registry.valid.erase agentId

/-! ## Registration -/

/-- `register`. -/
def register (registry : FleetRegistry) (node : AgentNode) : Except RegistryError FleetRegistry :=
  if hload : node.LoadInRange then
    .ok (registry.put node hload)
  else
    .error (.loadScoreValueError node.loadScore)

/-- `deregister`. -/
def deregister (registry : FleetRegistry) (agentId : String) : Except RegistryError FleetRegistry :=
  if agentId ∉ registry.nodes.keys then
    .error (.agentNodeNotFound agentId)
  else
    .ok (registry.remove agentId)

/-! ## Lookup -/

/-- `get`, and `_get_or_raise`. -/
def get (registry : FleetRegistry) (agentId : String) : Except RegistryError AgentNode :=
  match registry.nodes.get? agentId with
  | some node => .ok node
  | none => .error (.agentNodeNotFound agentId)

/-- `get_available`. -/
def getAvailable (registry : FleetRegistry) (capability : String) : List AgentNode :=
  registry.nodes.values.filter fun node => node.isHealthy && node.hasCapability capability

/-- `list_nodes`. -/
def listNodes (registry : FleetRegistry) (healthyOnly : Bool := false) : List AgentNode :=
  if healthyOnly then registry.nodes.values.filter AgentNode.isHealthy else registry.nodes.values

/-! ## Heartbeats -/

/-- The node after a heartbeat. -/
def beat (node : AgentNode) (loadScore : Option ℚ) (status : Option AgentStatus) (now : ℚ) :
    AgentNode :=
  { node with
    lastHeartbeat := now
    loadScore := loadScore.getD node.loadScore
    status := status.getD node.status }

theorem loadInRange_beat {node : AgentNode} {loadScore : Option ℚ} (hnode : node.LoadInRange)
    (hload : ∀ load ∈ loadScore, 0 ≤ load ∧ load ≤ 1) (status : Option AgentStatus) (now : ℚ) :
    (beat node loadScore status now).LoadInRange := by
  cases loadScore with
  | none => exact hnode
  | some load => exact hload load rfl

/-- `heartbeat` with a load that is in range, if there is one. -/
def recordBeat (registry : FleetRegistry) (agentId : String) (loadScore : Option ℚ)
    (status : Option AgentStatus) (now : ℚ) (hload : ∀ load ∈ loadScore, 0 ≤ load ∧ load ≤ 1) :
    Except RegistryError FleetRegistry :=
  match hnode : registry.nodes.get? agentId with
  | some node =>
    .ok (registry.put (beat node loadScore status now)
      (loadInRange_beat (registry.valid agentId node hnode).2 hload status now))
  | none => .error (.agentNodeNotFound agentId)

/-- `heartbeat`, with the time that the clock reads. -/
def heartbeat (registry : FleetRegistry) (agentId : String) (loadScore : Option ℚ)
    (status : Option AgentStatus) (now : ℚ) : Except RegistryError FleetRegistry :=
  match loadScore with
  | none => registry.recordBeat agentId none status now (by simp)
  | some load =>
    if hload : 0 ≤ load ∧ load ≤ 1 then
      registry.recordBeat agentId (some load) status now (by simpa using hload)
    else
      .error (.loadScoreValueError load)

/-! ## Pruning -/

/-- `prune_stale`, with the time that the clock reads: the ids of the nodes that are removed, and
the registry without them. -/
def pruneStale (registry : FleetRegistry) (timeout now : ℚ) : List String × FleetRegistry :=
  let staleIds := (registry.nodes.values.filter fun node =>
    decide (timeout < now - node.lastHeartbeat)).map AgentNode.agentId
  (staleIds, staleIds.foldl remove registry)

variable {registry : FleetRegistry}

/-- The nodes are in the order of their ids. -/
theorem map_agentId_values (registry : FleetRegistry) :
    registry.nodes.values.map AgentNode.agentId = registry.nodes.keys := by
  unfold Dict.values Dict.keys
  rw [List.map_map]
  refine List.map_congr_left fun e he => ?_
  exact (registry.valid e.1 e.2 (Dict.get?_eq_some_iff.mpr he)).1

/-- A node of the registry is found under its id. -/
theorem mem_values_iff {node : AgentNode} :
    node ∈ registry.nodes.values ↔ registry.nodes.get? node.agentId = some node := by
  rw [Dict.mem_values_iff]
  constructor
  · rintro ⟨agentId, hget⟩
    rw [(registry.valid agentId node hget).1]
    exact hget
  · exact fun hget => ⟨node.agentId, hget⟩

/-- Setting the status of a node replaces the node in its place. -/
theorem nodes_setStatus {agentId : String} {node : AgentNode}
    (hnode : registry.nodes.get? agentId = some node) (status : AgentStatus) :
    (registry.setStatus agentId status).nodes =
      registry.nodes.set agentId { node with status := status } := by
  have hid := (registry.valid agentId node hnode).1
  unfold setStatus
  split
  · next found hfound =>
    rw [hnode] at hfound
    obtain rfl := Option.some.inj hfound
    exact congrArg (fun k => registry.nodes.set k { node with status := status }) hid
  · next hnone =>
    rw [hnode] at hnone
    cases hnone

/-- The ids of the listed nodes are distinct. -/
theorem nodup_values (registry : FleetRegistry) :
    (registry.nodes.values.map AgentNode.agentId).Nodup := by
  rw [map_agentId_values]
  exact registry.nodes.nodup

theorem get?_foldl_remove (staleIds : List String) (registry : FleetRegistry) (agentId : String) :
    (staleIds.foldl remove registry).nodes.get? agentId =
      if agentId ∈ staleIds then none else registry.nodes.get? agentId := by
  induction staleIds generalizing registry with
  | nil => simp
  | cons stale staleIds ih =>
    rw [List.foldl_cons, ih]
    have hremoved : (registry.remove stale).nodes.get? agentId =
        if agentId = stale then none else registry.nodes.get? agentId := Dict.get?_erase _ _ _
    rw [hremoved]
    by_cases hmem : agentId ∈ staleIds
    · rw [if_pos hmem, if_pos (List.mem_cons_of_mem _ hmem)]
    · rw [if_neg hmem]
      simp [hmem]

/-- What `prune_stale` leaves are the nodes whose last heartbeat is not older than the timeout. -/
theorem get?_pruneStale (registry : FleetRegistry) (timeout now : ℚ) (agentId : String) :
    (registry.pruneStale timeout now).2.nodes.get? agentId =
      (registry.nodes.get? agentId).filter fun node =>
        decide (now - node.lastHeartbeat ≤ timeout) := by
  unfold pruneStale
  dsimp only
  rw [get?_foldl_remove]
  rcases hget : registry.nodes.get? agentId with _ | node
  · simp
  · have hid := (registry.valid agentId node hget).1
    have hstale : agentId ∈ (registry.nodes.values.filter fun node =>
        decide (timeout < now - node.lastHeartbeat)).map AgentNode.agentId ↔
          timeout < now - node.lastHeartbeat := by
      simp only [List.mem_map, List.mem_filter, mem_values_iff, decide_eq_true_iff]
      constructor
      · rintro ⟨stale, ⟨hstale, hage⟩, rfl⟩
        rw [hget] at hstale
        exact Option.some.inj hstale ▸ hage
      · exact fun hage => ⟨node, ⟨hid ▸ hget, hage⟩, hid⟩
    by_cases hage : timeout < now - node.lastHeartbeat
    · rw [if_pos (hstale.mpr hage)]
      simp [Option.filter, not_le.mpr hage]
    · rw [if_neg (hstale.not.mpr hage)]
      simp [Option.filter, not_lt.mp hage]

end FleetRegistry

end MeshRouter.Fleet
