import MeshRouter.Routing.Table

/-!
# Updates of the routing table

`update_agent`, `upsert_agent`, `update_load` and `record_heartbeat` of `routing/table.py`. They
change a record in place, one field after the other, and `update_agent` checks a number only when
its turn comes. So every operation is given with the table that it leaves, also when it raises.

An update that raises has left the fields before the refused number as they were given.
`update_atomic_iff` says when this shows.
-/

namespace MeshRouter.Routing

open Lib

/-- The arguments of `update_agent`; none leaves its field as it is. -/
structure AgentUpdate where
  capabilities : Option (List String) := none
  costPerToken : Option ℚ := none
  currentLoad : Option ℚ := none
  healthy : Option Bool := none
  tags : Option (Dict String String) := none
  metadata : Option (Dict String String) := none

namespace AgentUpdate

/-- The capabilities are set, if they are given. -/
def setCapabilities (given : AgentUpdate) (record : AgentRecord) : AgentRecord :=
  { record with
    capabilities := (given.capabilities.map List.toFinset).getD record.capabilities }

/-- The cost is set, if it is given. -/
def setCost (given : AgentUpdate) (record : AgentRecord) : AgentRecord :=
  { record with costPerToken := given.costPerToken.getD record.costPerToken }

/-- The load is set, if it is given. -/
def setLoad (given : AgentUpdate) (record : AgentRecord) : AgentRecord :=
  { record with currentLoad := given.currentLoad.getD record.currentLoad }

/-- The health is set and the tags and the metadata are merged in, if they are given. -/
def setOthers (given : AgentUpdate) (record : AgentRecord) : AgentRecord :=
  { record with
    healthy := given.healthy.getD record.healthy
    tags := given.tags.elim record.tags record.tags.update
    metadata := given.metadata.elim record.metadata record.metadata.update }

end AgentUpdate

namespace RoutingTable

/-- The table with a record of its own changed in place. -/
def keep (table : RoutingTable) (record : AgentRecord) : RoutingTable :=
  { table with
    agents := table.agents.set record.agentId record
    named := table.named_set record }

/-- `update_agent`. -/
def updateAgent (table : RoutingTable) (agentId : String) (given : AgentUpdate) :
    Except TableError AgentRecord × RoutingTable :=
  match table.getAgent agentId with
  | .error e => (.error e, table)
  | .ok record =>
    let record := given.setCapabilities record
    match given.costPerToken.elim (.ok ()) validateCost with
    | .error e => (.error e, table.keep record)
    | .ok () =>
      let record := given.setCost record
      match given.currentLoad.elim (.ok ()) validateLoad with
      | .error e => (.error e, table.keep record)
      | .ok () =>
        let record := given.setOthers (given.setLoad record)
        (.ok record, table.keep record)

/-- `upsert_agent`. -/
def upsertAgent (table : RoutingTable) (agentId : String) (capabilities : Option (List String))
    (costPerToken currentLoad : ℚ) (tags metadata : Option (Dict String String))
    (registeredAt lastHeartbeatAt : ℚ) : Except TableError AgentRecord × RoutingTable :=
  if agentId ∈ table.agents.keys then
    table.updateAgent agentId
      { capabilities := capabilities
        costPerToken := some costPerToken
        currentLoad := some currentLoad
        tags := tags
        metadata := metadata }
  else
    match table.registerAgent agentId capabilities costPerToken currentLoad tags metadata
      registeredAt lastHeartbeatAt with
    | .ok (record, table') => (.ok record, table')
    | .error e => (.error e, table)

/-- `record_heartbeat` at the time `now`. -/
def recordHeartbeat (table : RoutingTable) (agentId : String) (now : ℚ) :
    Except TableError RoutingTable := do
  let record ← table.getAgent agentId
  return table.keep { record with lastHeartbeatAt := now }

/-- `update_load`. -/
def updateLoad (table : RoutingTable) (agentId : String) (load : ℚ) :
    Except TableError Unit × RoutingTable :=
  let (result, table) := table.updateAgent agentId { currentLoad := some load }
  (result.map fun _ => (), table)

/-! ## What a check refuses -/

/-- A cost is refused exactly when it is negative. -/
theorem validateCost_eq_error {cost : ℚ} {e : TableError} :
    validateCost cost = .error e ↔ cost < 0 ∧ e = .costValueError cost := by
  unfold validateCost
  split_ifs with hcost
  · rw [Except.error.injEq, and_iff_right hcost, eq_comm]
  · exact ⟨fun h => (by cases h), fun ⟨h, _⟩ => absurd h hcost⟩

/-- A load is refused exactly when it is outside [0, 1]. -/
theorem validateLoad_eq_error {load : ℚ} {e : TableError} :
    validateLoad load = .error e ↔ ¬ (0 ≤ load ∧ load ≤ 1) ∧ e = .loadValueError load := by
  unfold validateLoad
  split_ifs with hload
  · exact ⟨fun h => (by cases h), fun ⟨h, _⟩ => absurd hload h⟩
  · rw [Except.error.injEq, and_iff_right hload, eq_comm]

variable {table : RoutingTable}

/-- Keeping a record changes nothing exactly when the table has this record. -/
theorem keep_eq_iff {agentId : String} {record record' : AgentRecord}
    (hget : table.agents.get? agentId = some record) (hid : record'.agentId = record.agentId) :
    table.keep record' = table ↔ record' = record := by
  have hname : record'.agentId = agentId := hid.trans (table.named agentId record hget)
  constructor
  · intro hkeep
    have hlookup := congrArg (fun t : RoutingTable => t.agents.get? agentId) hkeep
    dsimp only [keep] at hlookup
    rw [Dict.get?_set, if_pos hname.symm, hget] at hlookup
    exact Option.some.inj hlookup
  · rintro rfl
    rw [← hname] at hget
    unfold keep
    congr
    exact Dict.set_of_get? hget

end RoutingTable

namespace AgentUpdate

/-- The given cost is negative. -/
def CostRefused (given : AgentUpdate) : Prop := ∃ cost ∈ given.costPerToken, cost < 0

/-- The given load is outside [0, 1]. -/
def LoadRefused (given : AgentUpdate) : Prop :=
  ∃ load ∈ given.currentLoad, ¬ (0 ≤ load ∧ load ≤ 1)

/-- What is given before the number that is refused is what the record has: the capabilities, and
the cost if the load is refused. -/
structure NothingBefore (given : AgentUpdate) (record : AgentRecord) : Prop where
  capabilities : given.CostRefused ∨ given.LoadRefused →
    ∀ capabilities ∈ given.capabilities, capabilities.toFinset = record.capabilities
  cost : ¬ given.CostRefused → given.LoadRefused →
    ∀ cost ∈ given.costPerToken, cost = record.costPerToken

variable {given : AgentUpdate} {record : AgentRecord}

/-- Setting the capabilities changes nothing exactly when the given ones are the record's. -/
theorem setCapabilities_eq_iff :
    given.setCapabilities record = record ↔
      ∀ capabilities ∈ given.capabilities, capabilities.toFinset = record.capabilities := by
  unfold setCapabilities
  rcases given.capabilities with _ | capabilities
  · simp
  · simp [AgentRecord.ext_iff]

/-- Setting the capabilities and the cost changes nothing exactly when the given ones are the
record's. -/
theorem setCost_setCapabilities_eq_iff :
    given.setCost (given.setCapabilities record) = record ↔
      (∀ capabilities ∈ given.capabilities, capabilities.toFinset = record.capabilities) ∧
        ∀ cost ∈ given.costPerToken, cost = record.costPerToken := by
  unfold setCost setCapabilities
  rcases given.capabilities with _ | capabilities
  · rcases given.costPerToken with _ | cost
    · simp
    · simp [AgentRecord.ext_iff]
  · rcases given.costPerToken with _ | cost
    · simp [AgentRecord.ext_iff]
    · simp [AgentRecord.ext_iff]

/-- The check of the cost, if one is given, raises exactly when it is negative. -/
theorem costRefused_iff :
    (∃ e, given.costPerToken.elim (.ok ()) RoutingTable.validateCost = .error e) ↔
      given.CostRefused := by
  unfold CostRefused
  rcases given.costPerToken with _ | cost
  · simp
  · simp [RoutingTable.validateCost_eq_error]

/-- The check of the load, if one is given, raises exactly when it is outside [0, 1]. -/
theorem loadRefused_iff :
    (∃ e, given.currentLoad.elim (.ok ()) RoutingTable.validateLoad = .error e) ↔
      given.LoadRefused := by
  unfold LoadRefused
  rcases given.currentLoad with _ | load
  · simp
  · simp [RoutingTable.validateLoad_eq_error]

end AgentUpdate

namespace RoutingTable

/-- What `update_agent` does: it finds no record, or it raises for the cost or for the load, with
the fields before it set, or it sets them all. -/
theorem updateAgent_cases (table : RoutingTable) (agentId : String) (given : AgentUpdate) :
    table.agents.get? agentId = none ∧
        table.updateAgent agentId given = (.error (.agentNotFound agentId), table) ∨
      ∃ record, table.agents.get? agentId = some record ∧
        (given.CostRefused ∧
            (∃ e, table.updateAgent agentId given =
              (.error e, table.keep (given.setCapabilities record))) ∨
          ¬ given.CostRefused ∧ given.LoadRefused ∧
            (∃ e, table.updateAgent agentId given =
              (.error e, table.keep (given.setCost (given.setCapabilities record)))) ∨
          ¬ given.CostRefused ∧ ¬ given.LoadRefused ∧
            ∃ record', record'.agentId = record.agentId ∧
              table.updateAgent agentId given = (.ok record', table.keep record')) := by
  unfold updateAgent getAgent
  rcases table.agents.get? agentId with _ | record
  · exact .inl ⟨rfl, rfl⟩
  refine .inr ⟨record, rfl, ?_⟩
  rw [← AgentUpdate.costRefused_iff, ← AgentUpdate.loadRefused_iff]
  rcases hcost : given.costPerToken.elim (.ok ()) validateCost with e | ⟨⟩
  · exact .inl ⟨⟨e, hcost⟩, e, by simp only [hcost]⟩
  have hpassed : ¬ ∃ e, given.costPerToken.elim (.ok ()) validateCost = .error e := by
    rintro ⟨e, he⟩
    cases hcost.symm.trans he
  rcases hload : given.currentLoad.elim (.ok ()) validateLoad with e | ⟨⟩
  · exact .inr (.inl ⟨hpassed, ⟨e, hload⟩, e, by simp only [hcost, hload]⟩)
  · refine .inr (.inr ⟨hpassed, ?_,
      given.setOthers (given.setLoad (given.setCost (given.setCapabilities record))), rfl,
      by simp only [hcost, hload]⟩)
    rintro ⟨e, he⟩
    cases hload.symm.trans he

/-- Setting the capabilities in place changes nothing exactly when the given ones are the record's.
-/
theorem keep_setCapabilities_eq_iff {table : RoutingTable} {agentId : String}
    {record : AgentRecord} {given : AgentUpdate} (hget : table.agents.get? agentId = some record) :
    table.keep (given.setCapabilities record) = table ↔
      ∀ capabilities ∈ given.capabilities, capabilities.toFinset = record.capabilities := by
  rw [keep_eq_iff hget (by rfl), AgentUpdate.setCapabilities_eq_iff]

/-- Setting the capabilities and the cost in place changes nothing exactly when the given ones are
the record's. -/
theorem keep_setCost_eq_iff {table : RoutingTable} {agentId : String} {record : AgentRecord}
    {given : AgentUpdate} (hget : table.agents.get? agentId = some record) :
    table.keep (given.setCost (given.setCapabilities record)) = table ↔
      (∀ capabilities ∈ given.capabilities, capabilities.toFinset = record.capabilities) ∧
        ∀ cost ∈ given.costPerToken, cost = record.costPerToken := by
  rw [keep_eq_iff hget (by rfl), AgentUpdate.setCost_setCapabilities_eq_iff]

section Upsert

variable {table : RoutingTable} {agentId : String} {capabilities : Option (List String)}
  {costPerToken currentLoad : ℚ} {tags metadata : Option (Dict String String)}
  {registeredAt lastHeartbeatAt : ℚ}

/-- For a registered agent `upsert_agent` is `update_agent` with a cost and a load. -/
theorem upsertAgent_of_mem (hmem : agentId ∈ table.agents.keys) :
    table.upsertAgent agentId capabilities costPerToken currentLoad tags metadata registeredAt
        lastHeartbeatAt =
      table.updateAgent agentId
        { capabilities := capabilities
          costPerToken := some costPerToken
          currentLoad := some currentLoad
          tags := tags
          metadata := metadata } :=
  if_pos hmem

/-- A registration by `upsert_agent` that raises leaves the table as it was. -/
theorem upsertAgent_of_notMem (hmem : agentId ∉ table.agents.keys) {e : TableError}
    (he : (table.upsertAgent agentId capabilities costPerToken currentLoad tags metadata
      registeredAt lastHeartbeatAt).1 = .error e) :
    (table.upsertAgent agentId capabilities costPerToken currentLoad tags metadata registeredAt
      lastHeartbeatAt).2 = table := by
  unfold upsertAgent at he ⊢
  rw [if_neg hmem] at he ⊢
  rcases hregister : table.registerAgent agentId capabilities costPerToken currentLoad tags
    metadata registeredAt lastHeartbeatAt with e' | ⟨record, table'⟩
  · rfl
  · rw [hregister] at he
    cases he

end Upsert

end RoutingTable

/-! ## Atomicity -/

/-- A call that updates the table. -/
inductive UpdateCall where
  | updateAgent (agentId : String) (given : AgentUpdate)
  | upsertAgent (agentId : String) (capabilities : Option (List String))
    (costPerToken currentLoad : ℚ) (tags metadata : Option (Dict String String))
    (registeredAt lastHeartbeatAt : ℚ)
  | updateLoad (agentId : String) (load : ℚ)

namespace UpdateCall

/-- The agent that is updated. -/
def agentId : UpdateCall → String
  | .updateAgent agentId _ => agentId
  | .upsertAgent agentId _ _ _ _ _ _ _ => agentId
  | .updateLoad agentId _ => agentId

/-- What is given for a registered agent: `upsert_agent` always gives the cost and the load. -/
def given : UpdateCall → AgentUpdate
  | .updateAgent _ given => given
  | .upsertAgent _ capabilities costPerToken currentLoad tags metadata _ _ =>
    { capabilities := capabilities
      costPerToken := some costPerToken
      currentLoad := some currentLoad
      tags := tags
      metadata := metadata }
  | .updateLoad _ load => { currentLoad := some load }

/-- What the call raises, if it does, and the table that it leaves. -/
def run (call : UpdateCall) (table : RoutingTable) : Except TableError Unit × RoutingTable :=
  match call with
  | .updateAgent agentId given => (table.updateAgent agentId given).map (·.map fun _ => ()) id
  | .upsertAgent agentId capabilities costPerToken currentLoad tags metadata registeredAt
      lastHeartbeatAt =>
    (table.upsertAgent agentId capabilities costPerToken currentLoad tags metadata registeredAt
      lastHeartbeatAt).map (·.map fun _ => ()) id
  | .updateLoad agentId load => table.updateLoad agentId load

/-- If the call raises, it leaves the table as it was. -/
def Atomic (call : UpdateCall) (table : RoutingTable) : Prop :=
  ∀ e, (call.run table).1 = .error e → (call.run table).2 = table

/-- For a registered agent every call is an `update_agent`. -/
theorem run_of_mem {call : UpdateCall} {table : RoutingTable}
    (hmem : call.agentId ∈ table.agents.keys) :
    call.run table = (table.updateAgent call.agentId call.given).map (·.map fun _ => ()) id := by
  cases call with
  | updateAgent agentId given => rfl
  | upsertAgent agentId capabilities costPerToken currentLoad tags metadata registeredAt
      lastHeartbeatAt =>
    have hregistered : agentId ∈ table.agents.keys := hmem
    unfold run
    dsimp only
    rw [RoutingTable.upsertAgent_of_mem hregistered]
    rfl
  | updateLoad agentId load => rfl

/-- Forgetting a result keeps what is raised. -/
theorem map_unit_eq_error {α : Type} {result : Except TableError α} {e : TableError}
    (h : result.map (fun _ => ()) = .error e) : ∃ e', result = .error e' := by
  cases result with
  | error e' => exact ⟨e', rfl⟩
  | ok a => cases h

/-- For an agent that is not registered no call that raises touches the table. -/
theorem atomic_of_notMem {call : UpdateCall} {table : RoutingTable}
    (hmem : call.agentId ∉ table.agents.keys) : call.Atomic table := by
  have hnone : table.agents.get? call.agentId = none := Dict.get?_eq_none_iff.mpr hmem
  have hupdate : ∀ given, (table.updateAgent call.agentId given).2 = table := by
    intro given
    rcases table.updateAgent_cases call.agentId given with ⟨-, heq⟩ | ⟨record, hget, -⟩
    · rw [heq]
    · cases hnone.symm.trans hget
  intro e he
  cases call with
  | updateAgent agentId given => exact hupdate given
  | upsertAgent agentId capabilities costPerToken currentLoad tags metadata registeredAt
      lastHeartbeatAt =>
    obtain ⟨e', he'⟩ := map_unit_eq_error he
    exact RoutingTable.upsertAgent_of_notMem hmem he'
  | updateLoad agentId load => exact hupdate { currentLoad := some load }

/-- A call that raises leaves the table as it was exactly when, for a registered agent, what is
given before the refused number is what the record has. -/
theorem update_atomic_iff (call : UpdateCall) (table : RoutingTable) :
    call.Atomic table ↔
      ∀ record, table.agents.get? call.agentId = some record → call.given.NothingBefore record := by
  by_cases hmem : call.agentId ∈ table.agents.keys
  swap
  · refine iff_of_true (atomic_of_notMem hmem) fun record hget => ?_
    exact absurd (Dict.mem_keys_of_get? hget) hmem
  obtain ⟨record, hget⟩ := Dict.mem_keys_iff.mp hmem
  have hrecord : (∀ r, table.agents.get? call.agentId = some r → call.given.NothingBefore r) ↔
      call.given.NothingBefore record :=
    ⟨fun h => h record hget, fun h r hr => (Option.some.inj (hget.symm.trans hr)) ▸ h⟩
  rw [hrecord]
  unfold Atomic
  rw [run_of_mem hmem]
  rcases table.updateAgent_cases call.agentId call.given with ⟨hnone, -⟩ | ⟨r, hr, hcases⟩
  · cases hnone.symm.trans hget
  obtain rfl := Option.some.inj (hget.symm.trans hr)
  rcases hcases with ⟨hcost, e, heq⟩ | ⟨hcost, hload, e, heq⟩ | ⟨hcost, hload, r', hid, heq⟩
  · rw [heq]
    constructor
    · intro h
      have hsame := (RoutingTable.keep_setCapabilities_eq_iff hget).mp (h e rfl)
      exact ⟨fun _ => hsame, fun hnot => absurd hcost hnot⟩
    · intro h _ _
      exact (RoutingTable.keep_setCapabilities_eq_iff hget).mpr (h.capabilities (.inl hcost))
  · rw [heq]
    constructor
    · intro h
      obtain ⟨hcapabilities, hsame⟩ := (RoutingTable.keep_setCost_eq_iff hget).mp (h e rfl)
      exact ⟨fun _ => hcapabilities, fun _ _ => hsame⟩
    · intro h _ _
      exact (RoutingTable.keep_setCost_eq_iff hget).mpr
        ⟨h.capabilities (.inr hload), h.cost hcost hload⟩
  · rw [heq]
    refine iff_of_true (fun e he => (by cases he)) ⟨fun hrefused => ?_, fun _ => ?_⟩
    · exact absurd hrefused (not_or.mpr ⟨hcost, hload⟩)
    · exact fun hrefused => absurd hrefused hload

/-- A table with one agent, which can code and has half its load. -/
def oneAgent : RoutingTable :=
  RoutingTable.init.keep
    { agentId := "coder", capabilities := ["python"].toFinset, currentLoad := 0.5,
      registeredAt := 0, lastHeartbeatAt := 0 }

/-- New capabilities together with a negative cost. -/
def halfApplied : UpdateCall :=
  .updateAgent "coder" { capabilities := some ["rust"], costPerToken := some (-1) }

/-- The update raises for the cost, and the agent has the new capabilities. -/
theorem halfApplied_not_atomic :
    (halfApplied.run oneAgent).1 = .error (.costValueError (-1)) ∧
      ((halfApplied.run oneAgent).2.agents.get? "coder").map AgentRecord.capabilities =
        some ["rust"].toFinset ∧
      ¬ halfApplied.Atomic oneAgent := by
  have hraises : (halfApplied.run oneAgent).1 = .error (.costValueError (-1)) := by decide +kernel
  have hset : ((halfApplied.run oneAgent).2.agents.get? "coder").map AgentRecord.capabilities =
    some ["rust"].toFinset := by decide +kernel
  refine ⟨hraises, hset, fun h => ?_⟩
  rw [h _ hraises] at hset
  exact absurd hset (by decide +kernel)

end UpdateCall

end MeshRouter.Routing
