import Mathlib.Data.Finset.Card
import MeshRouter.Fleet.Registry
import MeshRouter.Lib.StableSort
import MeshRouter.Routing.Strategy

/-!
# The fleet load balancer

`LoadBalancer` of `fleet/load_balancer.py`. A balancer and its registry are separate values: other
parties change the registry between the calls. The `RANDOM` strategy takes what its generator draws,
a number for a selection and a rearrangement for a ranking. Scores are exact rationals.

`select` and `select_many` are two implementations of the strategies. `selectMany_agrees_iff` says
when they agree after a history of calls: `select` takes turns with the counter of the balancer, and
`select_many` ranks the nodes by their ids alone.
-/

namespace MeshRouter.Fleet

open Lib
open Routing (sortedBy sortedByDesc sortedBy_perm)

/-- Available load-balancing strategies. -/
inductive Strategy where
  | ROUND_ROBIN
  | LEAST_LOADED
  | RANDOM
  | CAPABILITY_WEIGHTED
deriving DecidableEq

/-- What a selection could raise. -/
inductive SelectError where
  /-- An index is out of range. -/
  | indexError
  /-- `min` or `max` of an empty sequence. -/
  | valueError
deriving DecidableEq

/-- Select an agent node from the fleet using a configurable strategy. -/
structure LoadBalancer where
  strategy : Strategy := .ROUND_ROBIN
  rrCounter : ℕ := 0

namespace LoadBalancer

/-- The healthy nodes that a call selects from. -/
def eligible (registry : FleetRegistry) (requiredCapability : Option String) : List AgentNode :=
  let healthy := registry.listNodes true
  match requiredCapability with
  | some capability => healthy.filter fun n => n.hasCapability capability
  | none => healthy

/-! ## Strategy implementations -/

/-- `_round_robin`. -/
def roundRobin (lb : LoadBalancer) (candidates : List AgentNode) :
    Except SelectError AgentNode × LoadBalancer :=
  let candidatesSorted := sortedBy AgentNode.agentId candidates
  let index := lb.rrCounter % candidatesSorted.length
  let lb := { lb with rrCounter := lb.rrCounter + 1 }
  match candidatesSorted[index]? with
  | some node => (.ok node, lb)
  | none => (.error .indexError, lb)

/-- `_least_loaded`: the first with the lowest load. -/
def leastLoaded (candidates : List AgentNode) : Except SelectError AgentNode :=
  match candidates.argmin AgentNode.loadScore with
  | some node => .ok node
  | none => .error .valueError

/-- `_random`, with the number that the generator draws. -/
def random (candidates : List AgentNode) (draw : ℕ) : Except SelectError AgentNode :=
  match candidates[draw % candidates.length]? with
  | some node => .ok node
  | none => .error .indexError

/-- The score of the `CAPABILITY_WEIGHTED` strategy. -/
def score (node : AgentNode) : ℚ := (1 + node.capabilities.card) / (1 + node.loadScore)

/-- `_capability_weighted`: the first with the highest score. -/
def capabilityWeighted (candidates : List AgentNode) : Except SelectError AgentNode :=
  match candidates.argmax score with
  | some node => .ok node
  | none => .error .valueError

/-- `_rank`, with what the generator's `shuffle` makes of a list. -/
def rank (lb : LoadBalancer) (candidates : List AgentNode)
    (shuffle : List AgentNode → List AgentNode) : List AgentNode :=
  match lb.strategy with
  | .ROUND_ROBIN => sortedBy AgentNode.agentId candidates
  | .LEAST_LOADED => sortedBy AgentNode.loadScore candidates
  | .RANDOM => shuffle candidates
  | .CAPABILITY_WEIGHTED => sortedByDesc score candidates

/-! ## Selection API -/

/-- `select`. -/
def select (lb : LoadBalancer) (registry : FleetRegistry) (requiredCapability : Option String)
    (draw : ℕ) : Except SelectError (Option AgentNode) × LoadBalancer :=
  let healthy := eligible registry requiredCapability
  if healthy = [] then
    (.ok none, lb)
  else
    match lb.strategy with
    | .ROUND_ROBIN => ((lb.roundRobin healthy).1.map some, (lb.roundRobin healthy).2)
    | .LEAST_LOADED => ((leastLoaded healthy).map some, lb)
    | .RANDOM => ((random healthy draw).map some, lb)
    | .CAPABILITY_WEIGHTED => ((capabilityWeighted healthy).map some, lb)

/-- `select_many`. -/
def selectMany (lb : LoadBalancer) (registry : FleetRegistry) (count : ℤ)
    (requiredCapability : Option String) (shuffle : List AgentNode → List AgentNode) :
    List AgentNode :=
  if count ≤ 0 then
    []
  else
    let healthy := eligible registry requiredCapability
    if healthy = [] then [] else (lb.rank healthy shuffle).take count.toNat

variable {lb : LoadBalancer}

/-! ## What a call chooses -/

/-- The node that the strategy chooses, if there is one to choose from. -/
def chosen (lb : LoadBalancer) (candidates : List AgentNode) (draw : ℕ) : Option AgentNode :=
  match lb.strategy with
  | .ROUND_ROBIN => (sortedBy AgentNode.agentId candidates)[lb.rrCounter % candidates.length]?
  | .LEAST_LOADED => candidates.argmin AgentNode.loadScore
  | .RANDOM => candidates[draw % candidates.length]?
  | .CAPABILITY_WEIGHTED => candidates.argmax score

/-- Of some nodes, one is chosen. -/
theorem exists_chosen {candidates : List AgentNode} (hne : candidates ≠ []) (draw : ℕ) :
    ∃ node, lb.chosen candidates draw = some node := by
  have hlength : 0 < candidates.length := List.length_pos_iff.mpr hne
  unfold chosen
  cases lb.strategy with
  | ROUND_ROBIN =>
    refine ⟨_, List.getElem?_eq_getElem ?_⟩
    rw [(sortedBy_perm AgentNode.agentId candidates).length_eq]
    exact Nat.mod_lt _ hlength
  | LEAST_LOADED => exact Option.ne_none_iff_exists'.mp (List.argmin_eq_none.not.mpr hne)
  | RANDOM => exact ⟨_, List.getElem?_eq_getElem (Nat.mod_lt _ hlength)⟩
  | CAPABILITY_WEIGHTED => exact Option.ne_none_iff_exists'.mp (List.argmax_eq_none.not.mpr hne)

/-- Of no nodes, none is chosen. -/
theorem chosen_nil (lb : LoadBalancer) (draw : ℕ) : lb.chosen [] draw = none := by
  unfold chosen
  cases lb.strategy with
  | ROUND_ROBIN | LEAST_LOADED | RANDOM | CAPABILITY_WEIGHTED => rfl

theorem chosen_eq_none_iff {candidates : List AgentNode} {draw : ℕ} :
    lb.chosen candidates draw = none ↔ candidates = [] := by
  constructor
  · intro hnone
    by_contra hne
    obtain ⟨node, hnode⟩ := lb.exists_chosen hne draw
    exact Option.some_ne_none node (hnode.symm.trans hnone)
  · rintro rfl
    exact chosen_nil lb draw

/-- The chosen node is one of them. -/
theorem mem_of_chosen {candidates : List AgentNode} {draw : ℕ} {node : AgentNode}
    (h : lb.chosen candidates draw = some node) : node ∈ candidates := by
  unfold chosen at h
  cases hstrategy : lb.strategy with
  | ROUND_ROBIN =>
    rw [hstrategy] at h
    exact (sortedBy_perm _ _).subset (List.mem_of_getElem? h)
  | LEAST_LOADED =>
    rw [hstrategy] at h
    exact List.argmin_mem h
  | RANDOM =>
    rw [hstrategy] at h
    exact List.mem_of_getElem? h
  | CAPABILITY_WEIGHTED =>
    rw [hstrategy] at h
    exact List.argmax_mem h

/-- A selection raises nothing, and returns the node that the strategy chooses. -/
theorem select_fst (lb : LoadBalancer) (registry : FleetRegistry)
    (requiredCapability : Option String) (draw : ℕ) :
    (lb.select registry requiredCapability draw).1 =
      .ok (lb.chosen (eligible registry requiredCapability) draw) := by
  unfold select
  dsimp only
  by_cases hne : eligible registry requiredCapability = []
  · rw [if_pos hne, hne, chosen_nil]
  · obtain ⟨node, hnode⟩ := lb.exists_chosen hne draw
    rw [if_neg hne, hnode]
    unfold chosen at hnode
    cases hstrategy : lb.strategy with
    | ROUND_ROBIN =>
      rw [hstrategy, ← (sortedBy_perm AgentNode.agentId _).length_eq] at hnode
      dsimp only at hnode ⊢
      unfold roundRobin
      dsimp only
      rw [hnode]
      rfl
    | LEAST_LOADED =>
      rw [hstrategy] at hnode
      dsimp only at hnode ⊢
      rw [leastLoaded, hnode]
      rfl
    | RANDOM =>
      rw [hstrategy] at hnode
      dsimp only at hnode ⊢
      rw [random, hnode]
      rfl
    | CAPABILITY_WEIGHTED =>
      rw [hstrategy] at hnode
      dsimp only at hnode ⊢
      rw [capabilityWeighted, hnode]
      rfl

/-- A ranking by a strategy without chance starts with the node that the strategy chooses, except
that the turns are not taken into account. -/
theorem head?_rank {candidates : List AgentNode} (draw : ℕ)
    (shuffle : List AgentNode → List AgentNode) (hstrategy : lb.strategy ≠ .RANDOM) :
    (lb.rank candidates shuffle).head? =
      { lb with rrCounter := 0 }.chosen candidates draw := by
  unfold rank chosen
  cases hkind : lb.strategy with
  | ROUND_ROBIN =>
    dsimp only
    rw [Nat.zero_mod, List.head?_eq_getElem?]
  | LEAST_LOADED => exact head?_insertionSort_le _ _
  | RANDOM => exact absurd hkind hstrategy
  | CAPABILITY_WEIGHTED => exact head?_insertionSort_ge _ _

/-- The first node of `select_many` is the head of the ranking. -/
theorem head?_selectMany (registry : FleetRegistry) (requiredCapability : Option String) {count : ℤ}
    (hcount : 0 < count) (draw : ℕ) (shuffle : List AgentNode → List AgentNode)
    (hstrategy : lb.strategy ≠ .RANDOM) :
    (lb.selectMany registry count requiredCapability shuffle).head? =
      { lb with rrCounter := 0 }.chosen (eligible registry requiredCapability) draw := by
  unfold selectMany
  dsimp only
  rw [if_neg (not_le.mpr hcount)]
  split_ifs with hne
  · rw [hne, chosen_nil]
    rfl
  · rw [List.head?_take, if_neg (by omega), head?_rank draw shuffle hstrategy]

/-- A node to select from is one of the healthy nodes. -/
theorem mem_listNodes_of_eligible {registry : FleetRegistry} {requiredCapability : Option String}
    {node : AgentNode} (h : node ∈ eligible registry requiredCapability) :
    node ∈ registry.listNodes true := by
  unfold eligible at h
  cases requiredCapability with
  | none => exact h
  | some capability => exact List.mem_of_mem_filter h

/-- The nodes to select from have distinct ids. -/
theorem nodup_eligible (registry : FleetRegistry) (requiredCapability : Option String) :
    ((eligible registry requiredCapability).map AgentNode.agentId).Nodup := by
  have hhealthy : ((registry.listNodes true).map AgentNode.agentId).Nodup :=
    registry.nodup_values.sublist (List.filter_sublist.map _)
  unfold eligible
  dsimp only
  cases requiredCapability with
  | none => exact hhealthy
  | some capability => exact hhealthy.sublist (List.filter_sublist.map _)

/-- The counter makes no difference exactly when it has come round. -/
theorem chosen_eq_iff {candidates : List AgentNode}
    (hnodup : (candidates.map AgentNode.agentId).Nodup) (draw : ℕ) :
    lb.chosen candidates draw = { lb with rrCounter := 0 }.chosen candidates draw ↔
      (lb.strategy = .ROUND_ROBIN → candidates ≠ [] → candidates.length ∣ lb.rrCounter) := by
  unfold chosen
  dsimp only
  cases lb.strategy with
  | LEAST_LOADED | RANDOM | CAPABILITY_WEIGHTED => simp
  | ROUND_ROBIN =>
    dsimp only
    have hsorted := sortedBy_perm AgentNode.agentId candidates
    rw [Nat.zero_mod]
    constructor
    · intro heq _ hne
      have hlength : lb.rrCounter % candidates.length <
          (sortedBy AgentNode.agentId candidates).length := by
        rw [hsorted.length_eq]
        exact Nat.mod_lt _ (List.length_pos_iff.mpr hne)
      have hdistinct : (sortedBy AgentNode.agentId candidates).Nodup :=
        hsorted.nodup_iff.mpr (.of_map _ hnodup)
      exact Nat.dvd_of_mod_eq_zero ((List.getElem?_inj hlength hdistinct).mp heq)
    · intro hdvd
      by_cases hne : candidates = []
      · rw [hne]
        rfl
      · rw [Nat.mod_eq_zero_of_dvd (hdvd rfl hne)]

/-! ## Histories -/

/-- An earlier call of a balancer, with the registry that it finds. -/
inductive Call where
  | select (registry : FleetRegistry) (requiredCapability : Option String) (draw : ℕ)
  | selectMany (registry : FleetRegistry) (count : ℤ) (requiredCapability : Option String)
      (shuffle : List AgentNode → List AgentNode)

/-- What a call leaves: `select_many` changes nothing in the balancer. -/
def Call.next (lb : LoadBalancer) : Call → LoadBalancer
  | .select registry requiredCapability draw => (lb.select registry requiredCapability draw).2
  | .selectMany _ _ _ _ => lb

/-- A `select` that has a node to select. -/
def Call.selects : Call → Bool
  | .select registry requiredCapability _ => decide (eligible registry requiredCapability ≠ [])
  | .selectMany _ _ _ _ => false

/-- A new balancer after some calls. -/
def afterCalls (strategy : Strategy) (calls : List Call) : LoadBalancer :=
  calls.foldl Call.next { strategy := strategy }

/-- A selection is counted if it takes a turn. -/
theorem select_snd (lb : LoadBalancer) (registry : FleetRegistry)
    (requiredCapability : Option String) (draw : ℕ) :
    (lb.select registry requiredCapability draw).2 =
      if lb.strategy = .ROUND_ROBIN ∧ eligible registry requiredCapability ≠ [] then
        { lb with rrCounter := lb.rrCounter + 1 }
      else lb := by
  unfold select
  dsimp only
  by_cases hne : eligible registry requiredCapability = []
  · rw [if_pos hne, if_neg fun h => h.2 hne]
  · rw [if_neg hne]
    cases hstrategy : lb.strategy with
    | ROUND_ROBIN =>
      rw [if_pos ⟨rfl, hne⟩]
      unfold roundRobin
      dsimp only
      rw [hstrategy]
      split
      · rfl
      · rfl
    | LEAST_LOADED | RANDOM | CAPABILITY_WEIGHTED => simp

theorem Call.strategy_next (lb : LoadBalancer) (call : Call) :
    (call.next lb).strategy = lb.strategy := by
  cases call with
  | selectMany => rfl
  | select registry requiredCapability draw =>
    rw [Call.next, select_snd]
    split_ifs
    · rfl
    · rfl

/-- The turns are counted. -/
theorem Call.rrCounter_next (hstrategy : lb.strategy = .ROUND_ROBIN) (call : Call) :
    (call.next lb).rrCounter = lb.rrCounter + if call.selects then 1 else 0 := by
  cases call with
  | selectMany => rfl
  | select registry requiredCapability draw =>
    rw [Call.next, select_snd, hstrategy, Call.selects]
    by_cases hne : eligible registry requiredCapability = []
    · simp [hne]
    · simp [hne]

theorem strategy_afterCalls (strategy : Strategy) (calls : List Call) :
    (afterCalls strategy calls).strategy = strategy := by
  unfold afterCalls
  induction calls using List.reverseRecOn with
  | nil => rfl
  | append_singleton calls call ih => rw [List.foldl_concat, Call.strategy_next, ih]

theorem rrCounter_afterCalls (calls : List Call) :
    (afterCalls .ROUND_ROBIN calls).rrCounter = calls.countP Call.selects := by
  have hstrategy := strategy_afterCalls .ROUND_ROBIN
  unfold afterCalls at hstrategy ⊢
  induction calls using List.reverseRecOn with
  | nil => rfl
  | append_singleton calls call ih =>
    rw [List.foldl_concat, Call.rrCounter_next (hstrategy calls), ih, List.countP_append,
      List.countP_singleton]

/-- The two ways to select agree in a state: the first node of `select_many` is the one that
`select` returns, and `select_many` is empty exactly if `select` returns none. -/
def PathsAgree (lb : LoadBalancer) (registry : FleetRegistry) (count : ℤ)
    (requiredCapability : Option String) (draw : ℕ) (shuffle : List AgentNode → List AgentNode) :
    Prop :=
  (lb.select registry requiredCapability draw).1 =
      .ok (lb.selectMany registry count requiredCapability shuffle).head? ∧
    (lb.selectMany registry count requiredCapability shuffle = [] ↔
      (lb.select registry requiredCapability draw).1 = .ok none)

/-- After any history of calls, with any registry, count, and filter, `select_many` agrees with
`select` exactly if the strategy does not take turns, or there is no node to select, or the number
of the earlier selections that found a node is a multiple of the number of nodes to select from. -/
theorem selectMany_agrees_iff (strategy : Strategy) (hstrategy : strategy ≠ .RANDOM)
    (calls : List Call) (registry : FleetRegistry) (count : ℤ) (hcount : 0 < count)
    (requiredCapability : Option String) (draw : ℕ) (shuffle : List AgentNode → List AgentNode) :
    (afterCalls strategy calls).PathsAgree registry count requiredCapability draw shuffle ↔
      (strategy = .ROUND_ROBIN → eligible registry requiredCapability ≠ [] →
        (eligible registry requiredCapability).length ∣ calls.countP Call.selects) := by
  have hkind := strategy_afterCalls strategy calls
  have hhead := head?_selectMany registry requiredCapability hcount draw shuffle
    (ne_of_eq_of_ne hkind hstrategy)
  have hempty :
      (afterCalls strategy calls).selectMany registry count requiredCapability shuffle = [] ↔
        (afterCalls strategy calls).chosen (eligible registry requiredCapability) draw = none := by
    rw [← List.head?_eq_none_iff, hhead, chosen_eq_none_iff, chosen_eq_none_iff]
  have hcounter : strategy = .ROUND_ROBIN →
      (afterCalls strategy calls).rrCounter = calls.countP Call.selects := by
    rintro rfl
    exact rrCounter_afterCalls calls
  unfold PathsAgree
  rw [select_fst, hhead, hempty, Except.ok.injEq, Except.ok.injEq, and_iff_left Iff.rfl,
    chosen_eq_iff (nodup_eligible registry requiredCapability), hkind]
  exact forall_congr' fun hround => by rw [hcounter hround]

/-- A node that is idle. -/
def idleNode (agentId : String) : AgentNode := { agentId := agentId, lastHeartbeat := 0 }

theorem idleNode_inRange (agentId : String) : (idleNode agentId).LoadInRange :=
  ⟨le_refl (0 : ℚ), zero_le_one⟩

/-- A registry of two nodes. -/
def twoNodes : FleetRegistry :=
  (FleetRegistry.init.put (idleNode "worker-1") (idleNode_inRange _)).put (idleNode "worker-2")
    (idleNode_inRange _)

/-- `selectMany_agrees_iff` after two selections among two nodes. -/
theorem selectMany_agrees_iff_twoNodes :
    (afterCalls .ROUND_ROBIN [.select twoNodes none 0, .select twoNodes none 0]).PathsAgree twoNodes
      1 none 0 id := by
  refine (selectMany_agrees_iff .ROUND_ROBIN (by decide) _ twoNodes 1 (by decide) none 0 id).mpr
    fun _ _ => ?_
  decide +kernel

/-- After one selection among two nodes, the next one returns the second node, and `select_many`
starts with the first. -/
theorem selectMany_out_of_turn :
    ¬ (afterCalls .ROUND_ROBIN [.select twoNodes none 0]).PathsAgree twoNodes 1 none 0 id := by
  unfold PathsAgree
  decide +kernel

end LoadBalancer

end MeshRouter.Fleet
