import MeshRouter.Deadlock.Detector

/-!
# The wait-for graph as a relation

The graph of a detector is an adjacency list beside a list of edges. What it stands for is a
relation between agents, and each operation changes this relation in a way that is said without the
adjacency list (`WaitOp.effect`): `waits_run` is the refinement. The relation that operations reach
has no agent that waits for itself, its holders are agents of the graph, and the registered edges
are the edges of the adjacency list (`WellFormed`). An edge may be registered more than once, but
the adjacency list holds sets, so what `detect` counts are the distinct pairs
(`WellFormed.edgeCount`).
-/

namespace MeshRouter.Deadlock

open Lib

/-- A public operation that changes the graph. -/
inductive WaitOp where
  | addWait (waiter holder resourceId : String)
  | removeWait (waiter holder : String)
  | clearAgent (agentId : String)
  | clear
deriving DecidableEq

/-- What an operation does to the relation "waits for". -/
def WaitOp.effect (waits : String → String → Prop) : WaitOp → String → String → Prop
  | .addWait waiter holder _, a, b => waits a b ∨ waiter ≠ holder ∧ a = waiter ∧ b = holder
  | .removeWait waiter holder, a, b => waits a b ∧ ¬ (a = waiter ∧ b = holder)
  | .clearAgent agentId, a, b => waits a b ∧ a ≠ agentId ∧ b ≠ agentId
  | .clear, _, _ => False

namespace DeadlockDetector

/-- The detector after an operation. An operation that raises changes nothing. -/
def apply (d : DeadlockDetector) : WaitOp → DeadlockDetector
  | .addWait waiter holder resourceId =>
    match d.addWait waiter holder resourceId with
    | .ok d' => d'
    | .error _ => d
  | .removeWait waiter holder => (d.removeWait waiter holder).2
  | .clearAgent agentId => d.clearAgent agentId
  | .clear => d.clear

/-- The agent `a` waits for `b`. -/
def Waits (d : DeadlockDetector) (a b : String) : Prop := b ∈ (d.graph.get? a).getD ∅

instance (d : DeadlockDetector) (a b : String) : Decidable (d.Waits a b) := by
  unfold Waits
  infer_instance

/-- An agent that is added without holders does not change whom the agents wait for. -/
@[simp]
theorem getD_ensureAgent (graph : Dict String (Finset String)) (agent a : String) :
    ((ensureAgent graph agent).get? a).getD ∅ = (graph.get? a).getD ∅ := by
  unfold ensureAgent
  split_ifs with h
  · rfl
  · rw [Dict.get?_set]
    split_ifs with ha
    · rw [ha, Dict.get?_eq_none_iff.mpr h]
      rfl
    · rfl

@[simp]
theorem mem_keys_ensureAgent (graph : Dict String (Finset String)) (agent a : String) :
    a ∈ (ensureAgent graph agent).keys ↔ a = agent ∨ a ∈ graph.keys := by
  unfold ensureAgent
  split_ifs with h
  · constructor
    · exact Or.inr
    · rintro (rfl | ha)
      · exact h
      · exact ha
  · exact Dict.mem_keys_set

/-- `add_wait` raises on a self-loop, and otherwise registers the edge. -/
theorem apply_addWait (d : DeadlockDetector) (waiter holder resourceId : String) :
    (waiter = holder ∧ d.apply (.addWait waiter holder resourceId) = d) ∨
    (waiter ≠ holder ∧ ∃ graph, graph = ensureAgent (ensureAgent d.graph waiter) holder ∧
      d.apply (.addWait waiter holder resourceId) =
        { d with graph := graph.set waiter (insert holder ((graph.get? waiter).getD ∅)),
                 edges := d.edges ++ [⟨waiter, holder, resourceId⟩] }) := by
  unfold apply addWait
  by_cases h : waiter = holder
  · exact Or.inl ⟨h, by simp [h]⟩
  · exact Or.inr ⟨h, _, rfl, by simp [h]⟩

/-- `remove_wait` leaves a graph without the edge alone, and otherwise removes it. -/
theorem apply_removeWait (d : DeadlockDetector) (waiter holder : String) :
    (¬ d.Waits waiter holder ∧ d.apply (.removeWait waiter holder) = d) ∨
    (∃ holders, d.graph.get? waiter = some holders ∧ holder ∈ holders ∧
      d.apply (.removeWait waiter holder) =
        { d with graph := d.graph.set waiter (holders.erase holder),
                 edges := d.edges.filter fun e => ¬ (e.waiter = waiter ∧ e.holder = holder) }) := by
  unfold apply removeWait Waits
  dsimp only
  cases hget : d.graph.get? waiter with
  | none => exact Or.inl ⟨by simp, rfl⟩
  | some holders =>
    by_cases hmem : holder ∈ holders
    · exact Or.inr ⟨holders, rfl, hmem, by simp [hmem]⟩
    · exact Or.inl ⟨by simpa using hmem, by simp [hmem]⟩

/-- Each operation changes the relation as its effect says. -/
theorem waits_apply (d : DeadlockDetector) (op : WaitOp) (a b : String) :
    (d.apply op).Waits a b ↔ op.effect d.Waits a b := by
  cases op with
  | addWait waiter holder resourceId =>
    unfold WaitOp.effect
    rcases apply_addWait d waiter holder resourceId with ⟨heq, he⟩ | ⟨hne, graph, rfl, he⟩
    · rw [he]
      simp [heq]
    · rw [he]
      unfold Waits
      simp only [Dict.get?_set, getD_ensureAgent]
      -- Only the holders of the waiter change.
      by_cases ha : a = waiter
      · subst ha
        simp [hne, or_comm]
      · simp [ha]
  | removeWait waiter holder =>
    unfold WaitOp.effect
    rcases apply_removeWait d waiter holder with ⟨hnot, he⟩ | ⟨holders, hget, -, he⟩
    · rw [he]
      constructor
      · intro h
        refine ⟨h, fun hab => hnot ?_⟩
        rwa [hab.1, hab.2] at h
      · exact And.left
    · rw [he]
      unfold Waits
      rw [Dict.get?_set]
      by_cases ha : a = waiter
      · subst ha
        simp [hget, and_comm]
      · simp [ha]
  | clearAgent agentId =>
    unfold apply clearAgent WaitOp.effect Waits
    dsimp only
    rw [Dict.get?_mapValues, Dict.get?_erase]
    -- The agent is no key any more, and no holder of another agent.
    by_cases ha : a = agentId
    · simp [ha]
    · cases hget : d.graph.get? a with
      | none => simp [ha]
      | some holders => simp [ha, and_comm]
  | clear => simp [apply, clear, WaitOp.effect, Waits]

/-- After any operations the agents wait for each other as the effects of the operations say. -/
theorem waits_run (d : DeadlockDetector) (ops : List WaitOp) :
    (ops.foldl apply d).Waits = ops.foldl WaitOp.effect d.Waits := by
  induction ops generalizing d with
  | nil => rfl
  | cons op ops ih =>
    rw [List.foldl_cons, List.foldl_cons, ih]
    congr 1
    funext a b
    exact propext (waits_apply d op a b)

/-- What every reachable graph satisfies. -/
structure WellFormed (d : DeadlockDetector) : Prop where
  irrefl : ∀ a, ¬ d.Waits a a
  holder_mem : ∀ a b, d.Waits a b → b ∈ d.graph.keys
  edges : ∀ a b, d.Waits a b ↔ ∃ e ∈ d.edges, e.waiter = a ∧ e.holder = b

/-- No operation makes an agent wait for itself. -/
theorem WellFormed.irrefl_apply {d : DeadlockDetector} (h : WellFormed d) (op : WaitOp)
    (a : String) : ¬ (d.apply op).Waits a a := by
  intro ha
  rw [waits_apply] at ha
  cases op with
  | addWait waiter holder resourceId =>
    rcases ha with ha | ⟨hne, rfl, heq⟩
    · exact h.irrefl a ha
    · exact hne heq
  | removeWait waiter holder => exact h.irrefl a ha.1
  | clearAgent agentId => exact h.irrefl a ha.1
  | clear => exact ha

/-- After each operation the holders are agents of the graph. -/
theorem WellFormed.holder_mem_apply {d : DeadlockDetector} (h : WellFormed d) (op : WaitOp)
    {a b : String} (hab : (d.apply op).Waits a b) : b ∈ (d.apply op).graph.keys := by
  rw [waits_apply] at hab
  cases op with
  | addWait waiter holder resourceId =>
    rcases apply_addWait d waiter holder resourceId with ⟨heq, he⟩ | ⟨-, graph, rfl, he⟩
    · rw [he]
      rcases hab with hab | ⟨hne, -⟩
      · exact h.holder_mem a b hab
      · exact absurd heq hne
    · rw [he]
      dsimp only
      rw [Dict.mem_keys_set, mem_keys_ensureAgent, mem_keys_ensureAgent]
      rcases hab with hab | ⟨-, -, rfl⟩
      · exact Or.inr (Or.inr (Or.inr (h.holder_mem a b hab)))
      · exact Or.inr (Or.inl rfl)
  | removeWait waiter holder =>
    have hkey := h.holder_mem a b hab.1
    rcases apply_removeWait d waiter holder with ⟨-, he⟩ | ⟨holders, -, -, he⟩
    · rwa [he]
    · rw [he]
      exact Dict.mem_keys_set.mpr (Or.inr hkey)
  | clearAgent agentId =>
    have hkey := h.holder_mem a b hab.1
    simpa [DeadlockDetector.apply, clearAgent, Dict.keys_erase] using ⟨hkey, hab.2.2⟩
  | clear => exact hab.elim

/-- An edge between two agents is kept by a filter on the agents of the edges as they pass it. -/
theorem exists_edge_filter (keep : String → String → Prop) [∀ a b, Decidable (keep a b)]
    {edges : List WaitEdge} {a b : String} :
    (∃ e ∈ edges.filter fun e => keep e.waiter e.holder, e.waiter = a ∧ e.holder = b) ↔
      (∃ e ∈ edges, e.waiter = a ∧ e.holder = b) ∧ keep a b := by
  constructor
  · rintro ⟨e, he, rfl, rfl⟩
    obtain ⟨hmem, hkeep⟩ := List.mem_filter.mp he
    exact ⟨⟨e, hmem, rfl, rfl⟩, of_decide_eq_true hkeep⟩
  · rintro ⟨⟨e, he, rfl, rfl⟩, hkeep⟩
    exact ⟨e, List.mem_filter.mpr ⟨he, decide_eq_true hkeep⟩, rfl, rfl⟩

/-- After each operation the registered edges are those of the adjacency list. -/
theorem WellFormed.edges_apply {d : DeadlockDetector} (h : WellFormed d) (op : WaitOp)
    (a b : String) :
    (d.apply op).Waits a b ↔ ∃ e ∈ (d.apply op).edges, e.waiter = a ∧ e.holder = b := by
  rw [waits_apply]
  cases op with
  | addWait waiter holder resourceId =>
    unfold WaitOp.effect
    dsimp only
    rw [h.edges]
    rcases apply_addWait d waiter holder resourceId with ⟨heq, he⟩ | ⟨hne, graph, -, he⟩
    · rw [he]
      simp [heq]
    · rw [he]
      simp [hne, or_and_right, exists_or, eq_comm]
  | removeWait waiter holder =>
    unfold WaitOp.effect
    dsimp only
    rw [h.edges]
    rcases apply_removeWait d waiter holder with ⟨hnot, he⟩ | ⟨holders, -, -, he⟩
    · rw [he]
      constructor
      · exact And.left
      · intro hab
        refine ⟨hab, fun heq => hnot ?_⟩
        rw [← heq.1, ← heq.2, h.edges]
        exact hab
    · rw [he]
      exact (exists_edge_filter fun a b => ¬ (a = waiter ∧ b = holder)).symm
  | clearAgent agentId =>
    unfold WaitOp.effect
    dsimp only
    rw [h.edges]
    exact (exists_edge_filter fun a b => a ≠ agentId ∧ b ≠ agentId).symm
  | clear => simp [DeadlockDetector.apply, clear, WaitOp.effect]

/-- Each operation keeps the graph well formed. -/
theorem WellFormed.apply {d : DeadlockDetector} (h : WellFormed d) (op : WaitOp) :
    WellFormed (d.apply op) where
  irrefl := h.irrefl_apply op
  holder_mem _ _ hab := h.holder_mem_apply op hab
  edges := h.edges_apply op

/-- Operations keep the graph well formed. -/
theorem WellFormed.run {d : DeadlockDetector} (h : WellFormed d) (ops : List WaitOp) :
    WellFormed (ops.foldl DeadlockDetector.apply d) := by
  induction ops generalizing d with
  | nil => exact h
  | cons op ops ih =>
    rw [List.foldl_cons]
    exact ih (h.apply op)

/-- A new detector is well formed. -/
theorem init_wellFormed {bound : ℤ} {d : DeadlockDetector} (h : init bound = .ok d) :
    WellFormed d := by
  unfold init at h
  split_ifs at h
  obtain rfl := Except.ok.inj h
  exact ⟨by simp [Waits], by simp [Waits], by simp [Waits]⟩

/-- Who waits for another is an agent of the graph. -/
theorem waiter_mem_keys {d : DeadlockDetector} {a b : String} (h : d.Waits a b) :
    a ∈ d.graph.keys := by
  unfold Waits at h
  cases hget : d.graph.get? a with
  | none =>
    rw [hget] at h
    exact absurd h (Finset.notMem_empty b)
  | some holders => exact Dict.mem_keys_of_get? hget

/-! ## The number of edges -/

/-- The pairs of agents that the counter of `detect` goes through. -/
def waitPairs (d : DeadlockDetector) : List (String × String) :=
  d.snapshot.entries.flatMap fun e => e.2.map (Prod.mk e.1)

/-- `edge_count` counts them. -/
theorem length_waitPairs (d : DeadlockDetector) : d.waitPairs.length = d.detect.edgeCount := by
  unfold waitPairs detect Dict.values
  rw [List.length_flatMap, List.map_map]
  congr 1
  exact List.map_congr_left fun e _ => List.length_map _

/-- They are the pairs of a waiter and its holder. -/
theorem mem_waitPairs {d : DeadlockDetector} {a b : String} :
    (a, b) ∈ d.waitPairs ↔ d.Waits a b := by
  have hpair : (a, b) ∈ d.waitPairs ↔
      ∃ holders, d.snapshot.get? a = some holders ∧ b ∈ holders := by
    unfold waitPairs
    simp only [List.mem_flatMap, List.mem_map, Prod.mk.injEq, Prod.exists, Dict.get?_eq_some_iff]
    constructor
    · rintro ⟨w, holders, hentry, h, hmem, rfl, rfl⟩
      exact ⟨holders, hentry, hmem⟩
    · rintro ⟨holders, hentry, hmem⟩
      exact ⟨a, holders, hentry, b, hmem, rfl, rfl⟩
  rw [hpair]
  unfold snapshot Waits
  rw [Dict.get?_mapValues]
  cases d.graph.get? a with
  | none => simp
  | some holders => simp

/-- No pair is counted twice: the agents are distinct keys, and their holders are sets. -/
theorem nodup_waitPairs (d : DeadlockDetector) : d.waitPairs.Nodup := by
  unfold waitPairs
  rw [List.nodup_flatMap]
  constructor
  · rintro ⟨w, holders⟩ hentry
    have hget : d.snapshot.get? w = some holders := Dict.get?_eq_some_iff.mpr hentry
    unfold snapshot at hget
    rw [Dict.get?_mapValues] at hget
    obtain ⟨set, -, rfl⟩ := Option.map_eq_some_iff.mp hget
    exact (set.sort_nodup _).map (Prod.mk_right_injective w)
  · have hkeys : d.snapshot.entries.Pairwise fun e e' => e.1 ≠ e'.1 :=
      List.pairwise_map.mp d.snapshot.nodup
    refine hkeys.imp fun {e e'} hne => List.disjoint_left.mpr ?_
    rintro ⟨a, b⟩ hmem hmem'
    obtain ⟨h, -, heq⟩ := List.mem_map.mp hmem
    obtain ⟨h', -, heq'⟩ := List.mem_map.mp hmem'
    exact hne ((congrArg Prod.fst heq).trans (congrArg Prod.fst heq').symm)

/-- In a well-formed graph `edge_count` is the number of distinct pairs among the registered
edges. -/
theorem WellFormed.edgeCount {d : DeadlockDetector} (h : WellFormed d) :
    d.detect.edgeCount = (d.edges.map fun e => (e.waiter, e.holder)).toFinset.card := by
  rw [← length_waitPairs, ← List.toFinset_card_of_nodup (nodup_waitPairs d)]
  congr 1
  refine Finset.ext fun ⟨a, b⟩ => ?_
  rw [List.mem_toFinset, List.mem_toFinset, mem_waitPairs, h.edges]
  simp only [List.mem_map, Prod.mk.injEq]

/-- After any operations: an agent is a holder of another exactly when such an edge is registered;
the agents of the edges and the holders are agents of the graph; no agent waits for itself; an
`add_wait` that raises changes nothing; and `edge_count` is the number of distinct pairs among the
edges, which may be registered more than once. -/
theorem graph_consistent {bound : ℤ} {d : DeadlockDetector} (hinit : init bound = .ok d)
    (ops : List WaitOp) :
    let graph := ops.foldl apply d
    (∀ w h, graph.Waits w h ↔ ∃ e ∈ graph.edges, e.waiter = w ∧ e.holder = h) ∧
    (∀ e ∈ graph.edges, e.waiter ∈ graph.graph.keys ∧ e.holder ∈ graph.graph.keys) ∧
    (∀ w h, graph.Waits w h → h ∈ graph.graph.keys) ∧
    (∀ a, ¬ graph.Waits a a) ∧
    (∀ waiter holder resourceId error, graph.addWait waiter holder resourceId = .error error →
      waiter = holder ∧ graph.apply (.addWait waiter holder resourceId) = graph) ∧
    graph.detect.edgeCount = (graph.edges.map fun e => (e.waiter, e.holder)).toFinset.card := by
  intro graph
  have hwf : WellFormed graph := (init_wellFormed hinit).run ops
  have hedge : ∀ e ∈ graph.edges, graph.Waits e.waiter e.holder := fun e he =>
    (hwf.edges _ _).mpr ⟨e, he, rfl, rfl⟩
  refine ⟨hwf.edges, fun e he => ?_, hwf.holder_mem, hwf.irrefl, ?_, hwf.edgeCount⟩
  · exact ⟨waiter_mem_keys (hedge e he), hwf.holder_mem _ _ (hedge e he)⟩
  · intro waiter holder resourceId error herror
    unfold addWait at herror
    split_ifs at herror with heq
    refine ⟨heq, ?_⟩
    rcases apply_addWait graph waiter holder resourceId with ⟨-, hsame⟩ | ⟨hne, -⟩
    · exact hsame
    · exact absurd heq hne

/-- `graph_consistent` on an edge that is registered for two resources: it counts once. -/
theorem graph_consistent_twoResources :
    ∃ d, init 2 = .ok d ∧
      ([WaitOp.addWait "a" "b" "x", .addWait "a" "b" "y"].foldl apply d).detect.edgeCount = 1 := by
  refine ⟨⟨2, le_rfl, .empty, []⟩, rfl, ?_⟩
  obtain ⟨-, -, -, -, -, hcount⟩ :=
    graph_consistent (show init 2 = .ok ⟨2, le_rfl, .empty, []⟩ from rfl)
      [.addWait "a" "b" "x", .addWait "a" "b" "y"]
  rw [hcount]
  decide

end DeadlockDetector

end MeshRouter.Deadlock
