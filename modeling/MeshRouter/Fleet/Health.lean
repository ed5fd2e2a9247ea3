import MeshRouter.Fleet.LoadBalancer

/-!
# The health monitor of the fleet

`HealthMonitor` of `fleet/health.py`, with the registry that it monitors. An operation takes the
time that the clock reads, one for a whole check.

A check marks nodes. `marking` is the monitor after some nodes are marked, and both ways to check
are computed in terms of it: `checkNodes_eq` for `check_node` on some nodes in turn, and
`checkAll_eq` for `check_all`. The order of the nodes makes no difference to `marking`.
-/

namespace MeshRouter.Fleet

open Lib
open scoped List

/-- Monitor agent heartbeat timestamps and mark stale agents unhealthy. -/
@[ext]
structure HealthMonitor where
  registry : FleetRegistry
  heartbeatTimeout : ℚ := 30
  restoreOnHeartbeat : Bool := true
  totalChecks : ℕ := 0
  totalMarkedUnhealthy : ℕ := 0
  totalRestored : ℕ := 0
  timeout_pos : 0 < heartbeatTimeout

namespace HealthMonitor

/-! ## Heartbeat recording -/

/-- `record_heartbeat`, with the time that the clock reads. -/
def recordHeartbeat (monitor : HealthMonitor) (agentId : String) (loadScore : Option ℚ) (now : ℚ) :
    Except RegistryError HealthMonitor :=
  match monitor.registry.get agentId with
  | .error _ => .ok monitor
  | .ok node =>
    let restoreToHealthy := monitor.restoreOnHeartbeat && decide (node.status = .UNHEALTHY)
    let newStatus := if restoreToHealthy then some .HEALTHY else none
    (monitor.registry.heartbeat agentId loadScore newStatus now).map fun registry =>
      { monitor with
        registry := registry
        totalRestored := monitor.totalRestored + if restoreToHealthy then 1 else 0 }

/-! ## Active checking -/

/-- The node is to be marked: its last heartbeat is too old, and it is not unhealthy yet. -/
def isStale (monitor : HealthMonitor) (now : ℚ) (node : AgentNode) : Bool :=
  decide (monitor.heartbeatTimeout < now - node.lastHeartbeat ∧ node.status ≠ .UNHEALTHY)

/-- `_mark_unhealthy`. -/
def markUnhealthy (monitor : HealthMonitor) (node : AgentNode) : HealthMonitor :=
  { monitor with
    registry := monitor.registry.setStatus node.agentId .UNHEALTHY
    totalMarkedUnhealthy := monitor.totalMarkedUnhealthy + 1 }

/-- The loop of `check_all`: the ids that are marked, and the monitor. -/
def checkLoop (now : ℚ) (loop : List String × HealthMonitor) (node : AgentNode) :
    List String × HealthMonitor :=
  if loop.2.isStale now node then (loop.1 ++ [node.agentId], loop.2.markUnhealthy node) else loop

/-- `check_all`. -/
def checkAll (monitor : HealthMonitor) (now : ℚ) : List String × HealthMonitor :=
  let (newlyUnhealthy, monitor) := monitor.registry.listNodes.foldl (checkLoop now) ([], monitor)
  (newlyUnhealthy, { monitor with totalChecks := monitor.totalChecks + 1 })

/-- `check_node`. -/
def checkNode (monitor : HealthMonitor) (now : ℚ) (agentId : String) :
    Except RegistryError Bool × HealthMonitor :=
  match monitor.registry.get agentId with
  | .ok node =>
    if monitor.isStale now node then
      (.ok true, monitor.markUnhealthy node)
    else
      (.ok false, monitor)
  | .error e => (.error e, monitor)

/-- `check_node` on some nodes in turn: the ids of those that it marks. -/
def checkNodes (monitor : HealthMonitor) (now : ℚ) :
    List String → Except RegistryError (List String) × HealthMonitor
  | [] => (.ok [], monitor)
  | agentId :: agentIds =>
    match monitor.checkNode now agentId with
    | (.ok marked, monitor) =>
      ((checkNodes monitor now agentIds).1.map fun newlyUnhealthy =>
          if marked then agentId :: newlyUnhealthy else newlyUnhealthy,
        (checkNodes monitor now agentIds).2)
    | (.error e, monitor) => (.error e, monitor)

/-! ## Marking -/

/-- The node, marked if its id is one of some. -/
def markedNode (marked : List String) (node : AgentNode) : AgentNode :=
  if node.agentId ∈ marked then { node with status := .UNHEALTHY } else node

/-- The registry after some nodes were marked. -/
def markedRegistry (registry : FleetRegistry) (marked : List String) : FleetRegistry where
  nodes := registry.nodes.mapValues (markedNode marked)
  valid := registry.valid.mapValues fun agentId node h => by
    unfold markedNode
    split_ifs
    · exact h
    · exact h

/-- The monitor after some nodes were marked. -/
def marking (monitor : HealthMonitor) (marked : List String) : HealthMonitor :=
  { monitor with
    registry := markedRegistry monitor.registry marked
    totalMarkedUnhealthy := monitor.totalMarkedUnhealthy + marked.length }

variable {monitor : HealthMonitor} {now : ℚ} {marked : List String} {agentId : String}
  {node : AgentNode}

theorem agentId_markedNode (marked : List String) (node : AgentNode) :
    (markedNode marked node).agentId = node.agentId := by
  unfold markedNode
  split_ifs
  · rfl
  · rfl

theorem get?_marking (monitor : HealthMonitor) (marked : List String) (agentId : String) :
    (monitor.marking marked).registry.nodes.get? agentId =
      (monitor.registry.nodes.get? agentId).map (markedNode marked) :=
  Dict.get?_mapValues _ _ _

theorem marking_nil (monitor : HealthMonitor) : monitor.marking [] = monitor := by
  have hnodes : monitor.registry.nodes.mapValues (markedNode []) = monitor.registry.nodes := by
    refine Dict.eq_of_get? (Dict.keys_mapValues _ _) fun k => ?_
    rw [Dict.get?_mapValues]
    cases monitor.registry.nodes.get? k with
    | none => rfl
    | some node => exact congrArg some (if_neg List.not_mem_nil)
  exact HealthMonitor.ext (FleetRegistry.ext hnodes) rfl rfl rfl rfl rfl

/-- Only the set of the marked nodes counts, and how many they are. -/
theorem marking_perm {marked' : List String} (hperm : marked ~ marked') :
    monitor.marking marked = monitor.marking marked' := by
  have hnode : markedNode marked = markedNode marked' := by
    funext node
    unfold markedNode
    simp only [hperm.mem_iff]
  unfold marking markedRegistry
  simp only [hnode, hperm.length_eq]

/-- Marking one more node. -/
theorem markUnhealthy_marking (hmem : node.agentId ∈ monitor.registry.nodes.keys) :
    (monitor.marking marked).markUnhealthy node =
      monitor.marking (marked ++ [node.agentId]) := by
  obtain ⟨found, hfound⟩ := Dict.mem_keys_iff.mp hmem
  have hid := (monitor.registry.valid node.agentId found hfound).1
  have hget := monitor.get?_marking marked node.agentId
  rw [hfound, Option.map_some] at hget
  refine HealthMonitor.ext (FleetRegistry.ext ?_) rfl rfl rfl ?_ rfl
  · have hset : ((monitor.marking marked).markUnhealthy node).registry.nodes =
        (monitor.marking marked).registry.nodes.set node.agentId
          { markedNode marked found with status := .UNHEALTHY } :=
      FleetRegistry.nodes_setStatus hget .UNHEALTHY
    rw [hset]
    refine Dict.eq_of_get? ?_ fun k => ?_
    · rw [Dict.keys_set_of_mem (Dict.mem_keys_of_get? hget)]
      exact (Dict.keys_mapValues _ _).trans (Dict.keys_mapValues _ _).symm
    · rw [Dict.get?_set, get?_marking, get?_marking]
      split_ifs with hk
      · have hmarked : found.agentId ∈ marked ++ [node.agentId] :=
          hid ▸ List.mem_append_right _ List.mem_cons_self
        rw [hk, hfound, Option.map_some, markedNode, markedNode, if_pos hmarked]
        split_ifs
        · rfl
        · rfl
      · refine Option.map_congr fun other hother => ?_
        have hother : other.agentId ≠ node.agentId :=
          (monitor.registry.valid k other hother).1 ▸ hk
        unfold markedNode
        simp only [List.mem_append, List.mem_singleton, hother, or_false]
  · simp [markUnhealthy, marking, Nat.add_assoc]

/-! ## The two checks -/

/-- The ids of the registry that a check is to mark. -/
def staleId (monitor : HealthMonitor) (now : ℚ) (agentId : String) : Bool :=
  (monitor.registry.nodes.get? agentId).any (monitor.isStale now)

/-- What is not marked yet is stale if it was before. -/
theorem isStale_marking (hnode : monitor.registry.nodes.get? agentId = some node)
    (hfresh : agentId ∉ marked) :
    (monitor.marking marked).isStale now (markedNode marked node) =
      monitor.staleId now agentId := by
  have hid := (monitor.registry.valid agentId node hnode).1
  rw [markedNode, if_neg (hid ▸ hfresh), staleId, hnode]
  rfl

/-- `check_node` after some nodes were marked. -/
theorem checkNode_marking (hmem : agentId ∈ monitor.registry.nodes.keys)
    (hfresh : agentId ∉ marked) :
    (monitor.marking marked).checkNode now agentId =
      (.ok (monitor.staleId now agentId),
        monitor.marking (marked ++ [agentId].filter (monitor.staleId now))) := by
  obtain ⟨node, hnode⟩ := Dict.mem_keys_iff.mp hmem
  have hget : (monitor.marking marked).registry.get agentId = .ok (markedNode marked node) := by
    rw [FleetRegistry.get, get?_marking, hnode]
    rfl
  rw [checkNode, hget]
  dsimp only
  have hid : (markedNode marked node).agentId = agentId :=
    (agentId_markedNode marked node).trans (monitor.registry.valid agentId node hnode).1
  rw [isStale_marking hnode hfresh, markUnhealthy_marking (hid.symm ▸ hmem), hid]
  cases hstale : monitor.staleId now agentId with
  | true => rw [if_pos rfl, List.filter_singleton, hstale]; rfl
  | false =>
    rw [if_neg Bool.false_ne_true, List.filter_singleton, hstale]
    simp

/-- `check_node` on some registered nodes in turn marks those that are stale. -/
theorem checkNodes_marking {agentIds : List String}
    (hmem : ∀ agentId ∈ agentIds, agentId ∈ monitor.registry.nodes.keys)
    (hnodup : (marked ++ agentIds).Nodup) :
    (monitor.marking marked).checkNodes now agentIds =
      (.ok (agentIds.filter (monitor.staleId now)),
        monitor.marking (marked ++ agentIds.filter (monitor.staleId now))) := by
  induction agentIds generalizing marked with
  | nil => rw [List.filter_nil, List.append_nil]; rfl
  | cons agentId agentIds ih =>
    obtain ⟨hagent, hagents⟩ := List.forall_mem_cons.mp hmem
    have hfresh : agentId ∉ marked := fun hmarked =>
      (List.nodup_append.mp hnodup).2.2 _ hmarked _ List.mem_cons_self rfl
    have hsublist : marked ++ [agentId].filter (monitor.staleId now) ++ agentIds <+
        marked ++ agentId :: agentIds := by
      rw [List.append_assoc]
      exact List.Sublist.append_left (List.filter_sublist.append_right _) _
    rw [checkNodes, checkNode_marking hagent hfresh]
    dsimp only
    rw [ih hagents (hnodup.sublist hsublist), List.append_assoc, ← List.filter_append]
    cases hstale : monitor.staleId now agentId with
    | true => simp [Except.map, hstale]
    | false => simp [Except.map, hstale]

/-- `check_node` on every node, in any order. -/
theorem checkNodes_of_perm {agentIds : List String}
    (hperm : agentIds ~ monitor.registry.nodes.keys) :
    monitor.checkNodes now agentIds =
      (.ok (agentIds.filter (monitor.staleId now)),
        monitor.marking (monitor.registry.nodes.keys.filter (monitor.staleId now))) := by
  have hnodup : agentIds.Nodup := hperm.nodup_iff.mpr monitor.registry.nodes.nodup
  have hcheck : (monitor.marking []).checkNodes now agentIds =
      (.ok (agentIds.filter (monitor.staleId now)),
        monitor.marking ([] ++ agentIds.filter (monitor.staleId now))) :=
    checkNodes_marking (fun _ h => hperm.subset h) hnodup
  rw [marking_nil, List.nil_append] at hcheck
  rw [hcheck, marking_perm (hperm.filter _)]

/-- The loop of `check_all` is `check_node` on the nodes that it is given. -/
theorem foldl_checkLoop_marking {nodes : List AgentNode} (now : ℚ) (newly marked : List String)
    (hmem : ∀ node ∈ nodes, monitor.registry.nodes.get? node.agentId = some node)
    (hnodup : (marked ++ nodes.map AgentNode.agentId).Nodup) :
    nodes.foldl (checkLoop now) (newly, monitor.marking marked) =
      (newly ++ (nodes.map AgentNode.agentId).filter (monitor.staleId now),
        monitor.marking
          (marked ++ (nodes.map AgentNode.agentId).filter (monitor.staleId now))) := by
  induction nodes generalizing marked newly with
  | nil => simp
  | cons node nodes ih =>
    obtain ⟨hnode, hnodes⟩ := List.forall_mem_cons.mp hmem
    have hstale : (monitor.marking marked).isStale now node =
        monitor.staleId now node.agentId := by
      rw [staleId, hnode]
      rfl
    rw [List.foldl_cons, checkLoop]
    dsimp only
    rw [hstale, markUnhealthy_marking (Dict.mem_keys_of_get? hnode), List.map_cons,
      List.filter_cons]
    rw [List.map_cons] at hnodup
    split_ifs
    · rw [ih _ _ hnodes (by rwa [List.append_assoc, List.singleton_append]), List.append_assoc,
        List.append_assoc]
      rfl
    · exact ih newly marked hnodes
        (hnodup.sublist (List.Sublist.append_left (List.sublist_cons_self _ _) _))

/-- `check_all` marks the nodes that are stale. -/
theorem checkAll_eq (monitor : HealthMonitor) (now : ℚ) :
    monitor.checkAll now =
      (monitor.registry.nodes.keys.filter (monitor.staleId now),
        { monitor.marking (monitor.registry.nodes.keys.filter (monitor.staleId now)) with
          totalChecks := monitor.totalChecks + 1 }) := by
  have hloop := foldl_checkLoop_marking now [] []
    (fun _ h => FleetRegistry.mem_values_iff.mp h) monitor.registry.nodup_values
  rw [marking_nil, FleetRegistry.map_agentId_values, List.nil_append] at hloop
  unfold checkAll
  rw [FleetRegistry.listNodes, if_neg Bool.false_ne_true, hloop]
  rfl

/-! ## After a check -/

/-- The last heartbeat of the node is not older than the timeout. -/
def Fresh (monitor : HealthMonitor) (now : ℚ) (node : AgentNode) : Prop :=
  now - node.lastHeartbeat ≤ monitor.heartbeatTimeout

/-- A node is to be marked if it is neither fresh nor unhealthy. -/
theorem isStale_iff : monitor.isStale now node = true ↔
    ¬ monitor.Fresh now node ∧ node.status ≠ .UNHEALTHY := by
  rw [isStale, decide_eq_true_iff, Fresh, not_le]

/-- The node after a check of it. -/
def checkedNode (monitor : HealthMonitor) (now : ℚ) (node : AgentNode) : AgentNode :=
  if monitor.isStale now node then { node with status := .UNHEALTHY } else node

/-- What `check_all` leaves under an id. -/
theorem get?_checkAll (monitor : HealthMonitor) (now : ℚ) (agentId : String) :
    (monitor.checkAll now).2.registry.nodes.get? agentId =
      (monitor.registry.nodes.get? agentId).map (monitor.checkedNode now) := by
  have hget :=
    monitor.get?_marking (monitor.registry.nodes.keys.filter (monitor.staleId now)) agentId
  rw [checkAll_eq]
  refine hget.trans (Option.map_congr fun node hnode => ?_)
  have hid := (monitor.registry.valid agentId node hnode).1
  have hstale : node.agentId ∈ monitor.registry.nodes.keys.filter (monitor.staleId now) ↔
      monitor.isStale now node = true := by
    rw [hid, List.mem_filter, and_iff_right (Dict.mem_keys_of_get? hnode), staleId, hnode,
      Option.any_some]
  unfold markedNode checkedNode
  simp only [hstale]

/-- After a check, a node that is not unhealthy is fresh, and was so before. -/
theorem fresh_of_checked {checked : AgentNode}
    (hchecked : (monitor.checkAll now).2.registry.nodes.get? agentId = some checked)
    (hstatus : checked.status ≠ .UNHEALTHY) : monitor.Fresh now checked := by
  rw [get?_checkAll] at hchecked
  obtain ⟨node, -, rfl⟩ := Option.map_eq_some_iff.mp hchecked
  unfold checkedNode at hstatus ⊢
  split_ifs at hstatus ⊢ with hstale
  · exact absurd rfl hstatus
  · by_contra hold
    exact hstale (isStale_iff.mpr ⟨hold, hstatus⟩)

/-- The ids that `check_all` returns are those of the nodes that it makes unhealthy. -/
theorem mem_checkAll_iff :
    agentId ∈ (monitor.checkAll now).1 ↔
      ∃ node checked, monitor.registry.nodes.get? agentId = some node ∧
        (monitor.checkAll now).2.registry.nodes.get? agentId = some checked ∧
        node.status ≠ .UNHEALTHY ∧ checked.status = .UNHEALTHY := by
  have hlist : agentId ∈ (monitor.checkAll now).1 ↔ monitor.staleId now agentId = true := by
    rw [checkAll_eq]
    refine List.mem_filter.trans (and_iff_right_of_imp fun hstale => ?_)
    obtain ⟨node, hnode, -⟩ := (Option.any_eq_true _ _).mp hstale
    exact Dict.mem_keys_of_get? hnode
  rw [hlist, staleId, Option.any_eq_true]
  constructor
  · rintro ⟨node, hnode, hstale⟩
    refine ⟨node, { node with status := .UNHEALTHY }, hnode, ?_, (isStale_iff.mp hstale).2, rfl⟩
    rw [get?_checkAll, hnode, Option.map_some, checkedNode, if_pos hstale]
  · rintro ⟨node, checked, hnode, hchecked, hbefore, hafter⟩
    refine ⟨node, hnode, ?_⟩
    rw [get?_checkAll, hnode, Option.map_some, Option.some_inj, checkedNode] at hchecked
    by_contra hfresh
    rw [if_neg hfresh] at hchecked
    exact hbefore (hchecked ▸ hafter)

/-- A second check at the same time marks nothing. -/
theorem checkAll_checkAll (monitor : HealthMonitor) (now : ℚ) :
    (monitor.checkAll now).2.checkAll now =
      ([], { (monitor.checkAll now).2 with
        totalChecks := (monitor.checkAll now).2.totalChecks + 1 }) := by
  have htimeout : (monitor.checkAll now).2.heartbeatTimeout = monitor.heartbeatTimeout := by
    rw [checkAll_eq]
    rfl
  have hnone : (monitor.checkAll now).2.registry.nodes.keys.filter
      ((monitor.checkAll now).2.staleId now) = [] := by
    refine List.filter_eq_nil_iff.mpr fun agentId _ hstale => ?_
    obtain ⟨node, hnode, hstale⟩ := (Option.any_eq_true _ _).mp hstale
    obtain ⟨hold, hstatus⟩ := isStale_iff.mp hstale
    have hfresh : monitor.Fresh now node := fresh_of_checked hnode hstatus
    rw [Fresh, htimeout] at hold
    exact hold hfresh
  rw [checkAll_eq (monitor.checkAll now).2, hnone, marking_nil]

/-- A healthy node that a check leaves is fresh. -/
theorem fresh_of_mem_listNodes
    (hnode : node ∈ (monitor.checkAll now).2.registry.listNodes true) : monitor.Fresh now node := by
  obtain ⟨hmem, hhealthy⟩ := List.mem_filter.mp hnode
  have hstatus : node.status = .HEALTHY := of_decide_eq_true hhealthy
  refine fresh_of_checked (FleetRegistry.mem_values_iff.mp hmem) ?_
  rw [hstatus]
  decide

/-- The check of all nodes, with one reading of the clock. It does what `check_node` on every node
does in any order; it returns the ids of the nodes that it makes unhealthy, each once; it leaves the
fresh nodes as they are; it counts the nodes that it marks; and a second check at the same time
marks none. What the registry then lists as healthy or as available for a capability, and what a
balancer selects by any strategy, is fresh. -/
theorem checkAll_spec (monitor : HealthMonitor) (now : ℚ) :
    (∀ agentIds, agentIds ~ monitor.registry.nodes.keys → ∃ marked,
      monitor.checkNodes now agentIds =
        (.ok marked, { (monitor.checkAll now).2 with totalChecks := monitor.totalChecks }) ∧
      marked ~ (monitor.checkAll now).1) ∧
    ((monitor.checkAll now).1.Nodup ∧
      ∀ agentId, agentId ∈ (monitor.checkAll now).1 ↔
        ∃ node checked, monitor.registry.nodes.get? agentId = some node ∧
          (monitor.checkAll now).2.registry.nodes.get? agentId = some checked ∧
          node.status ≠ .UNHEALTHY ∧ checked.status = .UNHEALTHY) ∧
    (∀ agentId node, monitor.registry.nodes.get? agentId = some node →
      now - node.lastHeartbeat ≤ monitor.heartbeatTimeout →
        (monitor.checkAll now).2.registry.nodes.get? agentId = some node) ∧
    (monitor.checkAll now).2.totalMarkedUnhealthy =
      monitor.totalMarkedUnhealthy + (monitor.checkAll now).1.length ∧
    (monitor.checkAll now).2.checkAll now =
      ([], { (monitor.checkAll now).2 with
        totalChecks := (monitor.checkAll now).2.totalChecks + 1 }) ∧
    (∀ node ∈ (monitor.checkAll now).2.registry.listNodes true,
      now - node.lastHeartbeat ≤ monitor.heartbeatTimeout) ∧
    (∀ capability, ∀ node ∈ (monitor.checkAll now).2.registry.getAvailable capability,
      now - node.lastHeartbeat ≤ monitor.heartbeatTimeout) ∧
    ∀ (lb : LoadBalancer) (requiredCapability : Option String) (draw : ℕ) (node : AgentNode),
      (lb.select (monitor.checkAll now).2.registry requiredCapability draw).1 = .ok (some node) →
        now - node.lastHeartbeat ≤ monitor.heartbeatTimeout := by
  refine ⟨fun agentIds hperm => ?_, ⟨?_, fun agentId => mem_checkAll_iff⟩,
    fun agentId node hnode hfresh => ?_, ?_, monitor.checkAll_checkAll now,
    fun node => fresh_of_mem_listNodes, fun capability node hnode => ?_,
    fun lb requiredCapability draw node hselect => ?_⟩
  · refine ⟨agentIds.filter (monitor.staleId now), ?_, ?_⟩
    · rw [checkNodes_of_perm hperm, checkAll_eq]
      rfl
    · rw [checkAll_eq]
      exact hperm.filter _
  · rw [checkAll_eq]
    exact monitor.registry.nodes.nodup.filter _
  · have hstale : ¬ monitor.isStale now node = true := fun h => (isStale_iff.mp h).1 hfresh
    rw [get?_checkAll, hnode, Option.map_some, checkedNode, if_neg hstale]
  · rw [checkAll_eq]
    rfl
  · obtain ⟨hmem, hboth⟩ := List.mem_filter.mp hnode
    exact fresh_of_mem_listNodes (List.mem_filter.mpr ⟨hmem, (Bool.and_eq_true_iff.mp hboth).1⟩)
  · rw [LoadBalancer.select_fst, Except.ok.injEq] at hselect
    exact fresh_of_mem_listNodes (LoadBalancer.mem_listNodes_of_eligible
      (LoadBalancer.mem_of_chosen hselect))

end HealthMonitor

end MeshRouter.Fleet
