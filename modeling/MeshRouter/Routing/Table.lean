import Mathlib.Data.Finset.Dedup
import Mathlib.Data.Finset.Empty
import MeshRouter.Lib.Dict
import MeshRouter.Lib.Fallible
import MeshRouter.Value

/-!
# The routing table

`AgentRecord` and `RoutingTable` of `routing/table.py`: the agents of the mesh under their ids, in
the order of their registration, and the queries of the routing strategies. The field `named` of a
table says that every record is kept under its own id, so that no two records have the same one.

The ids of the healthy agents are distinct, and the healthy agents are the records that a lookup of
their id finds healthy. The rankings of `Routing/Strategy.lean` only rearrange and filter them.
-/

namespace MeshRouter.Routing

open Lib

/-- Snapshot of an agent's registration state. -/
@[ext]
structure AgentRecord where
  agentId : String
  capabilities : Finset String := ∅
  costPerToken : ℚ := 0
  currentLoad : ℚ := 0
  healthy : Bool := true
  registeredAt : ℚ
  lastHeartbeatAt : ℚ
  tags : Dict String String := .empty
  metadata : Dict String String := .empty
deriving DecidableEq

namespace AgentRecord

/-- A capability is asked for by its text, and another value is no capability of any agent. -/
def hasCapability (r : AgentRecord) : Value → Bool
  | .str capability => decide (capability ∈ r.capabilities)
  | _ => false

/-- `matches_capabilities`: `required.issubset(self.capabilities)`. -/
def matchesCapabilities (r : AgentRecord) (required : List Value) : Bool :=
  required.all r.hasCapability

end AgentRecord

/-- What the operations of a table can raise. -/
inductive TableError where
  /-- `AgentNotFoundError`: "Agent … is not registered in the routing table." -/
  | agentNotFound (agentId : String)
  /-- `AgentAlreadyRegisteredError`: "Agent … is already registered. Use update_agent() to modify
  existing records." -/
  | agentAlreadyRegistered (agentId : String)
  /-- `ValueError`: "current_load must be in [0.0, 1.0], got …." -/
  | loadValueError (load : ℚ)
  /-- `ValueError`: "cost_per_token must be non-negative, got …." -/
  | costValueError (cost : ℚ)
deriving DecidableEq

/-- Registry mapping agent ids to their routing metadata. -/
structure RoutingTable where
  defaultHealthyOnly : Bool := true
  agents : Dict String AgentRecord := .empty
  /-- Every record is kept under its id. -/
  named : ∀ agentId r, agents.get? agentId = some r → r.agentId = agentId
deriving DecidableEq

namespace RoutingTable

/-- No record is kept under another id. -/
theorem named_empty (agentId : String) (r : AgentRecord)
    (h : (Dict.empty : Dict String AgentRecord).get? agentId = some r) : r.agentId = agentId := by
  cases h

/-- Keeping a record under its id. -/
theorem named_set (table : RoutingTable) (record : AgentRecord) (agentId : String) (r : AgentRecord)
    (h : (table.agents.set record.agentId record).get? agentId = some r) :
    r.agentId = agentId := by
  have hnamed : table.agents.All fun agentId r => r.agentId = agentId := table.named
  exact hnamed.set rfl agentId r h

/-- Removing a record. -/
theorem named_erase (table : RoutingTable) (removed agentId : String) (r : AgentRecord)
    (h : (table.agents.erase removed).get? agentId = some r) : r.agentId = agentId := by
  have hnamed : table.agents.All fun agentId r => r.agentId = agentId := table.named
  exact hnamed.erase removed agentId r h

/-! ## Registration -/

/-- `__init__`. -/
def init (defaultHealthyOnly : Bool := true) : RoutingTable where
  defaultHealthyOnly := defaultHealthyOnly
  named := named_empty

/-- `_validate_load`. -/
def validateLoad (load : ℚ) : Except TableError Unit :=
  if 0 ≤ load ∧ load ≤ 1 then .ok () else .error (.loadValueError load)

/-- `_validate_cost`. -/
def validateCost (cost : ℚ) : Except TableError Unit :=
  if cost < 0 then .error (.costValueError cost) else .ok ()

/-- `register_agent`: the new record, and the table with it. The two times are what the clock reads
for the two fields. -/
def registerAgent (table : RoutingTable) (agentId : String) (capabilities : Option (List String))
    (costPerToken currentLoad : ℚ) (tags metadata : Option (Dict String String))
    (registeredAt lastHeartbeatAt : ℚ) : Except TableError (AgentRecord × RoutingTable) := do
  validateLoad currentLoad
  validateCost costPerToken
  if agentId ∈ table.agents.keys then
    .error (.agentAlreadyRegistered agentId)
  else
    let record : AgentRecord :=
      { agentId := agentId
        capabilities := (capabilities.getD []).toFinset
        costPerToken := costPerToken
        currentLoad := currentLoad
        registeredAt := registeredAt
        lastHeartbeatAt := lastHeartbeatAt
        tags := tags.getD .empty
        metadata := metadata.getD .empty }
    return (record, { table with
      agents := table.agents.set record.agentId record
      named := table.named_set record })

/-- `deregister_agent`. -/
def deregisterAgent (table : RoutingTable) (agentId : String) : Except TableError RoutingTable :=
  if agentId ∉ table.agents.keys then
    .error (.agentNotFound agentId)
  else
    .ok { table with
      agents := table.agents.erase agentId
      named := table.named_erase agentId }

/-! ## Lookup -/

/-- `get_agent`. -/
def getAgent (table : RoutingTable) (agentId : String) : Except TableError AgentRecord :=
  match table.agents.get? agentId with
  | some record => .ok record
  | none => .error (.agentNotFound agentId)

/-- `list_agents`. -/
def listAgents (table : RoutingTable) (healthyOnly : Option Bool := none) : List AgentRecord :=
  if healthyOnly.getD table.defaultHealthyOnly then
    table.agents.values.filter fun r => r.healthy
  else
    table.agents.values

/-- `find_by_capabilities`. -/
def findByCapabilities (table : RoutingTable) (requiredCapabilities : List Value)
    (healthyOnly : Option Bool := none) (requireAll : Bool := true) : List AgentRecord :=
  let records := table.listAgents healthyOnly
  if requireAll then
    records.filter fun r => r.matchesCapabilities requiredCapabilities
  else
    records.filter fun r => requiredCapabilities.any r.hasCapability

variable {table : RoutingTable}

/-- An agent is available: it is registered and healthy. -/
def Available (table : RoutingTable) (agentId : String) : Prop :=
  ∃ r, table.agents.get? agentId = some r ∧ r.healthy = true

instance (table : RoutingTable) (agentId : String) : Decidable (table.Available agentId) :=
  decidable_of_iff ((table.agents.get? agentId).any AgentRecord.healthy = true) <| by
    rw [Option.any_eq_true]
    rfl

/-- The records are in the order of the ids. -/
theorem map_agentId_values (table : RoutingTable) :
    table.agents.values.map AgentRecord.agentId = table.agents.keys := by
  unfold Dict.values Dict.keys
  rw [List.map_map]
  refine List.map_congr_left fun e he => ?_
  exact table.named e.1 e.2 (Dict.get?_eq_some_iff.mpr he)

/-- No two agents of a list have the same id. -/
theorem nodup_listAgents (table : RoutingTable) (healthyOnly : Option Bool) :
    ((table.listAgents healthyOnly).map AgentRecord.agentId).Nodup := by
  have hvalues : (table.agents.values.map AgentRecord.agentId).Nodup := by
    rw [map_agentId_values]
    exact table.agents.nodup
  unfold listAgents
  split_ifs
  · exact hvalues.sublist (List.filter_sublist.map _)
  · exact hvalues

/-- The healthy agents are the records that are found healthy under their id. -/
theorem mem_listAgents_healthy {r : AgentRecord} :
    r ∈ table.listAgents (some true) ↔
      table.agents.get? r.agentId = some r ∧ r.healthy = true := by
  unfold listAgents
  rw [Option.getD_some, if_pos rfl, List.mem_filter, Dict.mem_values_iff]
  constructor
  · rintro ⟨⟨agentId, hget⟩, hhealthy⟩
    rw [table.named agentId r hget]
    exact ⟨hget, hhealthy⟩
  · rintro ⟨hget, hhealthy⟩
    exact ⟨⟨r.agentId, hget⟩, hhealthy⟩

/-- A healthy agent is available. -/
theorem available_of_mem {r : AgentRecord} (hr : r ∈ table.listAgents (some true)) :
    table.Available r.agentId :=
  ⟨r, mem_listAgents_healthy.mp hr⟩

/-- The agents with the required capabilities are among the listed ones, in their order. -/
theorem findByCapabilities_sublist (table : RoutingTable) (required : List Value)
    (healthyOnly : Option Bool) (requireAll : Bool) :
    (table.findByCapabilities required healthyOnly requireAll).Sublist
      (table.listAgents healthyOnly) := by
  unfold findByCapabilities
  dsimp only
  split_ifs
  · exact List.filter_sublist
  · exact List.filter_sublist

end RoutingTable

end MeshRouter.Routing
