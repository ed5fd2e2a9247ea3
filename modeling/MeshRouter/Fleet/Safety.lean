import MeshRouter.Fleet.Health
import MeshRouter.Lib.Runs

/-!
# Selection from a monitored fleet

The registry, the health monitor and the load balancer of `fleet/` together, over runs of their
operations by any callers. `check_all` judges the nodes at one time, and until the next check their
status is what heartbeats, registrations and single checks make of it. All of these leave the nodes
that are healthy with a heartbeat that is recent by the measure of the last check (`Vouched`), so
that a balancer never selects a node that has been silent for longer than the timeout and the time
since that check (`fleet_selects_fresh`).

The clock does not go back, and a node that is registered as healthy is one that was heard of.
-/

namespace MeshRouter.Fleet

open Lib

/-- A fleet: its monitor with the registry, its balancer, the last reading of the clock, and that of
the last check of all nodes. -/
structure FleetSystem where
  monitor : HealthMonitor
  balancer : LoadBalancer
  clock : ℚ
  checked : Option ℚ := none

/-- An operation. -/
inductive FleetAction where
  | register (node : AgentNode)
  | deregister (agentId : String)
  | heartbeat (agentId : String) (loadScore : Option ℚ) (status : Option AgentStatus)
  | recordHeartbeat (agentId : String) (loadScore : Option ℚ)
  | checkAll
  | checkNode (agentId : String)
  | pruneStale (timeout : ℚ)
  | select (requiredCapability : Option String) (draw : ℕ)

/-- The registry that an operation leaves: the one before, if it raises. -/
def HealthMonitor.withRegistry (monitor : HealthMonitor)
    (result : Except RegistryError FleetRegistry) : HealthMonitor :=
  match result with
  | .ok registry => { monitor with registry := registry }
  | .error _ => monitor

/-- What an operation does to the monitor and its registry. -/
def HealthMonitor.after (monitor : HealthMonitor) (now : ℚ) : FleetAction → HealthMonitor
  | .register node => monitor.withRegistry (monitor.registry.register node)
  | .deregister agentId => monitor.withRegistry (monitor.registry.deregister agentId)
  | .heartbeat agentId loadScore status =>
    monitor.withRegistry (monitor.registry.heartbeat agentId loadScore status now)
  | .recordHeartbeat agentId loadScore =>
    match monitor.recordHeartbeat agentId loadScore now with
    | .ok monitor => monitor
    | .error _ => monitor
  | .checkAll => (monitor.checkAll now).2
  | .checkNode agentId => (monitor.checkNode now agentId).2
  | .pruneStale timeout =>
    { monitor with registry := (monitor.registry.pruneStale timeout now).2 }
  | .select _ _ => monitor

/-- What an operation does to the balancer. -/
def LoadBalancer.after (lb : LoadBalancer) (registry : FleetRegistry) : FleetAction → LoadBalancer
  | .select requiredCapability draw => (lb.select registry requiredCapability draw).2
  | _ => lb

/-- An operation at a time, which is not before the last. -/
def fleetStep (s : FleetSystem) (a : ℚ × FleetAction) : Option FleetSystem :=
  if a.1 < s.clock then
    none
  else
    some {
      monitor := s.monitor.after a.1 a.2
      balancer := s.balancer.after s.monitor.registry a.2
      clock := a.1
      checked := match a.2 with
        | .checkAll => some a.1
        | _ => s.checked }

/-- Every healthy node has a heartbeat that is recent by the measure of the time `t`. -/
def HealthMonitor.VouchedAt (monitor : HealthMonitor) (t : ℚ) : Prop :=
  monitor.registry.nodes.All fun _ node => node.status = .HEALTHY → monitor.Fresh t node

/-- A node is registered as healthy only with a heartbeat that is recent by that measure. -/
def HeardOf (s : FleetSystem) : ℚ × FleetAction → Prop
  | (_, .register node) => node.status = .HEALTHY → ∀ t ∈ s.checked, s.monitor.Fresh t node
  | _ => True

instance decidableHeardOf (s : FleetSystem) : (a : ℚ × FleetAction) → Decidable (HeardOf s a)
  | (_, .register node) => inferInstanceAs (Decidable (node.status = .HEALTHY →
      ∀ t ∈ s.checked, t - node.lastHeartbeat ≤ s.monitor.heartbeatTimeout))
  | (_, .deregister _) | (_, .heartbeat _ _ _) | (_, .recordHeartbeat _ _) | (_, .checkAll)
  | (_, .checkNode _) | (_, .pruneStale _) | (_, .select _ _) => isTrue trivial

/-- The last check vouches for the healthy nodes. -/
structure Vouched (s : FleetSystem) : Prop where
  past : ∀ t ∈ s.checked, t ≤ s.clock
  vouched : ∀ t ∈ s.checked, s.monitor.VouchedAt t

section Step

variable {monitor : HealthMonitor} {t now : ℚ}

/-- A registry with a node that is recent, if it is healthy. -/
theorem HealthMonitor.VouchedAt.put (h : monitor.VouchedAt t) {node : AgentNode}
    (hload : node.LoadInRange) (hnode : node.status = .HEALTHY → monitor.Fresh t node) :
    ({ monitor with registry := monitor.registry.put node hload }).VouchedAt t :=
  Dict.All.set h hnode

/-- A node that was just heard of is recent. -/
theorem fresh_beat (hnow : t ≤ now) (node : AgentNode) (loadScore : Option ℚ)
    (status : Option AgentStatus) :
    monitor.Fresh t (FleetRegistry.beat node loadScore status now) := by
  have hpos := monitor.timeout_pos
  change t - now ≤ monitor.heartbeatTimeout
  linarith

/-- A heartbeat keeps what a check vouched for. -/
theorem HealthMonitor.VouchedAt.heartbeat (h : monitor.VouchedAt t) (hnow : t ≤ now)
    {agentId : String} {loadScore : Option ℚ} {status : Option AgentStatus}
    {registry : FleetRegistry}
    (hbeat : monitor.registry.heartbeat agentId loadScore status now = .ok registry) :
    ({ monitor with registry := registry }).VouchedAt t := by
  have hrecord : ∀ hload, monitor.registry.recordBeat agentId loadScore status now hload =
      .ok registry → ({ monitor with registry := registry }).VouchedAt t := by
    intro hload hrecord
    unfold FleetRegistry.recordBeat at hrecord
    split at hrecord
    · obtain rfl := Except.ok.inj hrecord
      exact h.put _ fun _ => fresh_beat hnow _ _ _
    · cases hrecord
  unfold FleetRegistry.heartbeat at hbeat
  cases loadScore with
  | none => exact hrecord _ hbeat
  | some load =>
    dsimp only at hbeat
    split_ifs at hbeat
    exact hrecord _ hbeat

/-- What the monitor makes of a heartbeat keeps it too. -/
theorem HealthMonitor.VouchedAt.recordHeartbeat (h : monitor.VouchedAt t) (hnow : t ≤ now)
    (agentId : String) (loadScore : Option ℚ) :
    (monitor.after now (.recordHeartbeat agentId loadScore)).VouchedAt t := by
  unfold HealthMonitor.after HealthMonitor.recordHeartbeat
  dsimp only
  cases monitor.registry.get agentId with
  | error e => exact h
  | ok node =>
    dsimp only
    generalize (if monitor.restoreOnHeartbeat && decide (node.status = .UNHEALTHY) then
      some AgentStatus.HEALTHY else none) = status
    cases hbeat : monitor.registry.heartbeat agentId loadScore status now with
    | error e => exact h
    | ok registry => exact h.heartbeat hnow hbeat

/-- A single check only takes nodes out. -/
theorem HealthMonitor.VouchedAt.checkNode (h : monitor.VouchedAt t) (now : ℚ) (agentId : String) :
    (monitor.checkNode now agentId).2.VouchedAt t := by
  unfold HealthMonitor.checkNode
  cases hget : monitor.registry.get agentId with
  | error e => exact h
  | ok node =>
    dsimp only
    split_ifs
    · have hnode : monitor.registry.nodes.get? agentId = some node := by
        unfold FleetRegistry.get at hget
        split at hget
        · next found hfound => rwa [← Except.ok.inj hget]
        · cases hget
      have hid := (monitor.registry.valid agentId node hnode).1
      have hnodes := FleetRegistry.nodes_setStatus (hid.symm ▸ hnode) .UNHEALTHY
      unfold HealthMonitor.VouchedAt HealthMonitor.markUnhealthy
      dsimp only
      rw [hnodes]
      exact Dict.All.set h fun hhealthy => by cases hhealthy
    · exact h

/-- A check of all nodes vouches for the healthy ones. -/
theorem vouchedAt_checkAll (monitor : HealthMonitor) (now : ℚ) :
    (monitor.checkAll now).2.VouchedAt now := by
  intro agentId node hnode hhealthy
  have htimeout : (monitor.checkAll now).2.heartbeatTimeout = monitor.heartbeatTimeout := by
    rw [HealthMonitor.checkAll_eq]
    rfl
  have hfresh : monitor.Fresh now node :=
    HealthMonitor.fresh_of_checked hnode (by rw [hhealthy]; decide)
  unfold HealthMonitor.Fresh at hfresh ⊢
  rwa [htimeout]

/-- Every operation but a check of all nodes keeps what the last one vouched for, if nodes are
registered as healthy only with a recent heartbeat. -/
theorem HealthMonitor.VouchedAt.after (h : monitor.VouchedAt t) (hnow : t ≤ now)
    {a : FleetAction} (hcheck : a ≠ .checkAll)
    (hheard : ∀ node, a = .register node → node.status = .HEALTHY → monitor.Fresh t node) :
    (monitor.after now a).VouchedAt t := by
  cases a with
  | register node =>
    unfold HealthMonitor.after HealthMonitor.withRegistry FleetRegistry.register
    dsimp only
    split_ifs with hload
    · exact h.put hload (hheard node rfl)
    · exact h
  | deregister agentId =>
    unfold HealthMonitor.after HealthMonitor.withRegistry FleetRegistry.deregister
    dsimp only
    split_ifs
    · exact Dict.All.erase h agentId
    · exact h
  | heartbeat agentId loadScore status =>
    unfold HealthMonitor.after HealthMonitor.withRegistry
    dsimp only
    cases hbeat : monitor.registry.heartbeat agentId loadScore status now with
    | error e => exact h
    | ok registry => exact h.heartbeat hnow hbeat
  | recordHeartbeat agentId loadScore => exact h.recordHeartbeat hnow agentId loadScore
  | checkAll => exact absurd rfl hcheck
  | checkNode agentId => exact h.checkNode now agentId
  | pruneStale timeout =>
    intro agentId node hnode
    have hget : (monitor.registry.pruneStale timeout now).2.nodes.get? agentId = some node := hnode
    rw [FleetRegistry.get?_pruneStale] at hget
    exact h agentId node (Option.filter_eq_some_iff.mp hget).1
  | select requiredCapability draw => exact h

end Step

/-- A ranking has only the nodes that are ranked, if the shuffle has. -/
theorem LoadBalancer.rank_subset (lb : LoadBalancer) (candidates : List AgentNode)
    {shuffle : List AgentNode → List AgentNode} (hshuffle : ∀ l, shuffle l ⊆ l) :
    lb.rank candidates shuffle ⊆ candidates := by
  unfold LoadBalancer.rank
  cases lb.strategy with
  | ROUND_ROBIN => exact (Routing.sortedBy_perm _ _).subset
  | LEAST_LOADED => exact (Routing.sortedBy_perm _ _).subset
  | RANDOM => exact hshuffle candidates
  | CAPABILITY_WEIGHTED => exact (Routing.sortedByDesc_perm _ _).subset

/-- `select_many` returns nodes to select from. -/
theorem LoadBalancer.mem_eligible_of_selectMany {lb : LoadBalancer} {registry : FleetRegistry}
    {count : ℤ} {requiredCapability : Option String}
    {shuffle : List AgentNode → List AgentNode} (hshuffle : ∀ l, shuffle l ⊆ l) {node : AgentNode}
    (h : node ∈ lb.selectMany registry count requiredCapability shuffle) :
    node ∈ LoadBalancer.eligible registry requiredCapability := by
  unfold LoadBalancer.selectMany at h
  dsimp only at h
  split_ifs at h
  · cases h
  · cases h
  · exact lb.rank_subset _ hshuffle (List.mem_of_mem_take h)

section Run

variable {s s' : FleetSystem} {a : ℚ × FleetAction}

/-- A step keeps the fleet vouched for. -/
theorem Vouched.step (h : Vouched s) (hheard : HeardOf s a) (hstep : fleetStep s a = some s') :
    Vouched s' := by
  unfold fleetStep at hstep
  split_ifs at hstep with hpast
  obtain rfl := Option.some.inj hstep
  obtain ⟨now, a⟩ := a
  have hnow : s.clock ≤ now := not_lt.mp hpast
  by_cases hcheck : a = .checkAll
  · subst hcheck
    exact ⟨fun t ht => (Option.some.inj ht).symm.le, fun t ht => by
      obtain rfl := Option.some.inj ht
      exact vouchedAt_checkAll s.monitor now⟩
  · have hchecked : ∀ t, (match a with | .checkAll => some now | _ => s.checked) = some t →
        t ∈ s.checked := by
      intro t ht
      cases a with
      | checkAll => exact absurd rfl hcheck
      | _ => exact ht
    exact ⟨fun t ht => (h.past t (hchecked t ht)).trans hnow, fun t ht =>
      (h.vouched t (hchecked t ht)).after ((h.past t (hchecked t ht)).trans hnow) hcheck
        fun node hnode hhealthy => by
          subst hnode
          exact hheard hhealthy t (hchecked t ht)⟩

/-- In every run of the operations of a fleet, however they interleave: a node that a balancer
selects, by any strategy, one at a time or many, or that the registry offers for a capability, has
been heard of within the timeout and the time since the last check of all nodes. -/
theorem fleet_selects_fresh {s₀ : FleetSystem} {actions : List (ℚ × FleetAction)}
    (hstart : s₀.checked = none) (hheard : Along fleetStep HeardOf s₀ actions)
    (h : run fleetStep s₀ actions = some s) {t : ℚ} (ht : s.checked = some t) :
    (∀ (lb : LoadBalancer) (requiredCapability : Option String) (draw : ℕ) (node : AgentNode),
      (lb.select s.monitor.registry requiredCapability draw).1 = .ok (some node) →
        s.clock - node.lastHeartbeat ≤ s.monitor.heartbeatTimeout + (s.clock - t)) ∧
    (∀ (lb : LoadBalancer) (count : ℤ) (requiredCapability : Option String)
      (shuffle : List AgentNode → List AgentNode), (∀ l, shuffle l ⊆ l) →
        ∀ node ∈ lb.selectMany s.monitor.registry count requiredCapability shuffle,
          s.clock - node.lastHeartbeat ≤ s.monitor.heartbeatTimeout + (s.clock - t)) ∧
    ∀ capability, ∀ node ∈ s.monitor.registry.getAvailable capability,
      s.clock - node.lastHeartbeat ≤ s.monitor.heartbeatTimeout + (s.clock - t) := by
  have hinit : Vouched s₀ :=
    ⟨fun t ht => by simp [hstart] at ht, fun t ht => by simp [hstart] at ht⟩
  have hvouched : Vouched s :=
    run_induction_along (fun s a s' hs hok hstep => hs.step hok hstep) hinit hheard h
  have hhealthy : ∀ node ∈ s.monitor.registry.listNodes true,
      s.clock - node.lastHeartbeat ≤ s.monitor.heartbeatTimeout + (s.clock - t) := by
    intro node hnode
    obtain ⟨hmem, hstatus⟩ := List.mem_filter.mp hnode
    have hfresh := hvouched.vouched t ht _ _ (FleetRegistry.mem_values_iff.mp hmem)
      (of_decide_eq_true hstatus)
    unfold HealthMonitor.Fresh at hfresh
    linarith
  refine ⟨fun lb requiredCapability draw node hselect => hhealthy node ?_,
    fun lb count requiredCapability shuffle hshuffle node hnode => hhealthy node ?_,
    fun capability node hnode => hhealthy node ?_⟩
  · rw [LoadBalancer.select_fst] at hselect
    exact LoadBalancer.mem_listNodes_of_eligible
      (LoadBalancer.mem_of_chosen (Except.ok.inj hselect))
  · exact LoadBalancer.mem_listNodes_of_eligible
      (LoadBalancer.mem_eligible_of_selectMany hshuffle hnode)
  · obtain ⟨hmem, hcapable⟩ := List.mem_filter.mp hnode
    exact List.mem_filter.mpr ⟨hmem, (Bool.and_eq_true_iff.mp hcapable).1⟩

/-- A fleet without nodes. -/
def noNodes : FleetSystem where
  monitor := { registry := .init, timeout_pos := by decide }
  balancer := {}
  clock := 0

/-- The planner is silent after its registration and marked, the parser beats after the check, and a
writer joins. -/
def silentPlanner : List (ℚ × FleetAction) :=
  [(0, .register { agentId := "planner", lastHeartbeat := 0 }),
   (20, .register { agentId := "parser", lastHeartbeat := 20 }),
   (40, .checkAll), (45, .recordHeartbeat "parser" (some (1 / 2))),
   (50, .register { agentId := "writer", lastHeartbeat := 50 }), (60, .select none 0)]

/-- `fleet_selects_fresh` on them. -/
theorem fleet_selects_fresh_silentPlanner :
    ∃ s, run fleetStep noNodes silentPlanner = some s ∧ s.checked = some 40 ∧
      ∀ (lb : LoadBalancer) (requiredCapability : Option String) (draw : ℕ) (node : AgentNode),
        (lb.select s.monitor.registry requiredCapability draw).1 = .ok (some node) →
          s.clock - node.lastHeartbeat ≤ s.monitor.heartbeatTimeout + (s.clock - 40) := by
  obtain ⟨s, hs⟩ := Option.isSome_iff_exists.mp
    (show (run fleetStep noNodes silentPlanner).isSome by decide +kernel)
  have hchecked : s.checked = some 40 := by
    have h : ((run fleetStep noNodes silentPlanner).map FleetSystem.checked) = some (some 40) := by
      decide +kernel
    rw [hs] at h
    exact Option.some.inj h
  exact ⟨s, hs, hchecked, (fleet_selects_fresh rfl (by decide +kernel) hs hchecked).1⟩

end Run

end MeshRouter.Fleet
