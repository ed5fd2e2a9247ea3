import MeshRouter.Lib.Isolation
import MeshRouter.Operator.MeshController

/-!
# Meshes do not notice each other

One process of the operator handles the events of all meshes, and keeps their circuit breakers in
one registry. A handler touches only the breaker under the key of its own mesh. So the status that a
mesh is given, the errors of its handlers and the state of its breaker are what they would be if the
operator served this mesh alone (`meshes_isolated`).

The handlers also share one Kubernetes client, which is configured once in the process. A handler
that fails to configure it raises, and would not if the handler of another mesh had configured it
before. So meshes are isolated as long as the configuration can be loaded.
-/

namespace MeshRouter.Operator

open Lib

/-- What a handler reports: the status of a mesh if it patches one, or the error that it raises. -/
abbrev Handled := Except HandlerError (Option MeshStatus)

/-- A handler, with the registry that it leaves. -/
def Registry.serve (conv : TextConversions) (registry : Registry) : MeshEvent → Handled × Registry
  | .create ns name spec created patched =>
    let (status, registry) := onMeshCreate registry ns name spec created patched
    (status.map some, registry)
  | .update _ _ spec replaced recreated patched =>
    ((onMeshUpdate spec replaced recreated patched).map fun _ => none, registry)
  | .delete ns name deleted =>
    let (done, registry) := onMeshDelete registry ns name deleted
    (done.map fun _ => none, registry)
  | .reconcile ns name spec observed times =>
    reconcileMeshStatus conv registry ns name spec observed times

/-- The key of the mesh that an event is for. -/
def MeshEvent.key : MeshEvent → String
  | .create ns name _ _ _ | .update ns name _ _ _ _ | .delete ns name _
  | .reconcile ns name _ _ _ => meshKey ns name

/-- The event is for the mesh. -/
def MeshEvent.concerns (key : String) (e : MeshEvent) : Bool := e.key = key

variable {conv : TextConversions} {registry other : Registry} {key k : String}

/-- What becomes of a breaker in a reconciliation, and the state that is reported. -/
def tickBreaker (conv : TextConversions) (cb : CircuitBreakerState) (failedAgents : ℕ)
    (recordedAt probedAt : ℚ) : Except HandlerError CircuitState × CircuitBreakerState :=
  let cb := if 0 < failedAgents then cb.recordFailure recordedAt else cb.recordSuccess
  match cb.maybeProbe conv probedAt with
  | .error e => (.error (.timeout e), cb)
  | .ok (_, cb) => (.ok cb.state, cb)

/-- A reconciliation ticks the breaker that it finds or makes, and puts it back. -/
theorem updateCircuitBreaker_eq (conv : TextConversions) (registry : Registry) (key : String)
    (config : CircuitBreakerSpec) (failedAgents : ℕ) (recordedAt probedAt : ℚ) :
    updateCircuitBreaker conv registry key config failedAgents recordedAt probedAt =
      ((tickBreaker conv (getOrCreateCircuitBreaker registry key config).1 failedAgents recordedAt
          probedAt).1,
        (getOrCreateCircuitBreaker registry key config).2.set key
          (tickBreaker conv (getOrCreateCircuitBreaker registry key config).1 failedAgents
            recordedAt probedAt).2) := by
  unfold updateCircuitBreaker tickBreaker
  dsimp only
  generalize CircuitBreakerState.maybeProbe conv probedAt _ = probe
  cases probe with
  | error e => rfl
  | ok probe => rfl

/-- The breaker that is found or made depends on what is under its key. -/
theorem getOrCreate_congr (h : registry.get? key = other.get? key) (config : CircuitBreakerSpec) :
    (getOrCreateCircuitBreaker registry key config).1 =
      (getOrCreateCircuitBreaker other key config).1 := by
  unfold getOrCreateCircuitBreaker
  rw [h]
  cases other.get? key with
  | some cb => rfl
  | none => rfl

/-- A breaker is there after it was found or made, and the others are as they were. -/
theorem get?_getOrCreate (registry : Registry) (key k : String) (config : CircuitBreakerSpec) :
    (getOrCreateCircuitBreaker registry key config).2.get? k =
      if k = key then some (getOrCreateCircuitBreaker registry key config).1
      else registry.get? k := by
  unfold getOrCreateCircuitBreaker
  cases hget : registry.get? key with
  | some cb =>
    dsimp only
    split_ifs with hk
    · rw [hk, hget]
    · rfl
  | none =>
    dsimp only
    rw [Dict.get?_set]

/-- A reconciliation changes the breaker under its key only. -/
theorem get?_updateCircuitBreaker (config : CircuitBreakerSpec) (failedAgents : ℕ)
    (recordedAt probedAt : ℚ) (hk : k ≠ key) :
    (updateCircuitBreaker conv registry key config failedAgents recordedAt probedAt).2.get? k =
      registry.get? k := by
  rw [updateCircuitBreaker_eq, Dict.get?_set, if_neg hk, get?_getOrCreate, if_neg hk]

/-- The event of another mesh leaves the breaker alone. -/
theorem get?_serve_of_ne (e : MeshEvent) (hk : k ≠ e.key) :
    (registry.serve conv e).2.get? k = registry.get? k := by
  cases e with
  | create ns name spec created patched =>
    change k ≠ meshKey ns name at hk
    dsimp only [Registry.serve, onMeshCreate]
    cases provision spec created patched with
    | error err => rfl
    | ok meshSpec =>
      dsimp only
      split_ifs
      · rw [get?_getOrCreate, if_neg hk]
      · rfl
  | update => rfl
  | delete ns name deleted =>
    change k ≠ meshKey ns name at hk
    dsimp only [Registry.serve, onMeshDelete]
    cases deleted.check fun _ => true with
    | error err => rfl
    | ok done =>
      dsimp only
      rw [Dict.get?_erase, if_neg hk]
  | reconcile ns name spec observed times =>
    change k ≠ meshKey ns name at hk
    dsimp only [Registry.serve, reconcileMeshStatus]
    cases spec with
    | none => rfl
    | some meshSpec =>
      dsimp only
      cases rollUp conv meshSpec observed with
      | error err => rfl
      | ok totals =>
        dsimp only
        split_ifs
        · exact get?_updateCircuitBreaker _ _ _ _ hk
        · rfl

/-- An event is handled by what is under the key of its mesh. -/
theorem serve_congr (e : MeshEvent) (h : registry.get? e.key = other.get? e.key) :
    (registry.serve conv e).1 = (other.serve conv e).1 ∧
      (registry.serve conv e).2.get? e.key = (other.serve conv e).2.get? e.key := by
  cases e with
  | create ns name spec created patched =>
    change registry.get? (meshKey ns name) = other.get? (meshKey ns name) at h
    dsimp only [Registry.serve, onMeshCreate, MeshEvent.key]
    cases provision spec created patched with
    | error err => exact ⟨rfl, h⟩
    | ok meshSpec =>
      refine ⟨rfl, ?_⟩
      dsimp only
      split_ifs
      · rw [get?_getOrCreate, get?_getOrCreate, getOrCreate_congr h, h]
      · exact h
  | update => exact ⟨rfl, h⟩
  | delete ns name deleted =>
    change registry.get? (meshKey ns name) = other.get? (meshKey ns name) at h
    dsimp only [Registry.serve, onMeshDelete, MeshEvent.key]
    cases deleted.check fun _ => true with
    | error err => exact ⟨rfl, h⟩
    | ok done =>
      refine ⟨rfl, ?_⟩
      dsimp only
      rw [Dict.get?_erase, Dict.get?_erase, h]
  | reconcile ns name spec observed times =>
    change registry.get? (meshKey ns name) = other.get? (meshKey ns name) at h
    dsimp only [Registry.serve, reconcileMeshStatus, MeshEvent.key]
    cases spec with
    | none => exact ⟨rfl, h⟩
    | some meshSpec =>
      dsimp only
      cases rollUp conv meshSpec observed with
      | error err => exact ⟨rfl, h⟩
      | ok totals =>
        dsimp only
        split_ifs
        · rw [updateCircuitBreaker_eq, updateCircuitBreaker_eq, getOrCreate_congr h]
          refine ⟨rfl, ?_⟩
          dsimp only
          rw [Dict.get?_set, Dict.get?_set, if_pos rfl, if_pos rfl]
        · exact ⟨rfl, h⟩

/-- The operator isolates a mesh. -/
theorem Registry.isolates (conv : TextConversions) (key : String) :
    Isolates (Registry.serve conv) (fun registry => registry.get? key)
      (MeshEvent.concerns key) where
  others registry e he := get?_serve_of_ne e (Ne.symm (of_decide_eq_false he))
  own registry other e he h := by
    obtain rfl := of_decide_eq_true he
    exact serve_congr e h

/-! ## The process -/

/-- How a configuration of the client is loaded. -/
inductive ConfigLoad where
  | loaded
  | configException
  | otherException
deriving DecidableEq

/-- The state that all handlers of the process share. -/
structure Process where
  k8sInitialised : Bool := false
  circuitBreakers : Registry := .empty

/-- An event, with how the configurations would be loaded at the time. -/
structure Delivery where
  event : MeshEvent
  incluster : ConfigLoad := .loaded
  kubeConfig : ConfigLoad := .loaded

/-- A configuration can be loaded: that of the cluster, or the other where there is none. -/
def Delivery.Configures (d : Delivery) : Prop :=
  d.incluster = .loaded ∨ d.incluster = .configException ∧ d.kubeConfig = .loaded

instance (d : Delivery) : Decidable d.Configures := inferInstanceAs (Decidable (_ ∨ _ ∧ _))

/-- The delivery is for the mesh. -/
def Delivery.concerns (key : String) (d : Delivery) : Bool := d.event.concerns key

/-- `_ensure_k8s_client`: the flag, unless it raises. -/
def ensureK8sClient (initialised : Bool) (incluster kubeConfig : ConfigLoad) :
    Except HandlerError Bool :=
  if initialised then
    .ok true
  else
    match incluster with
    | .loaded => .ok true
    | .otherException => .error .otherException
    | .configException =>
      match kubeConfig with
      | .loaded => .ok true
      | .configException | .otherException => .error .otherException

/-- A handler of the process: it ensures the client first. -/
def Process.deliver (conv : TextConversions) (p : Process) (d : Delivery) : Handled × Process :=
  match ensureK8sClient p.k8sInitialised d.incluster d.kubeConfig with
  | .error e => (.error e, p)
  | .ok initialised =>
    let (handled, circuitBreakers) := p.circuitBreakers.serve conv d.event
    (handled, { k8sInitialised := initialised, circuitBreakers := circuitBreakers })

/-- Where the client is configured, or can be, an event is handled by the registry. -/
theorem Process.deliver_eq (conv : TextConversions) {p : Process} {d : Delivery}
    (h : p.k8sInitialised = true ∨ d.Configures) :
    p.deliver conv d = ((p.circuitBreakers.serve conv d.event).1,
      { k8sInitialised := true, circuitBreakers := (p.circuitBreakers.serve conv d.event).2 }) := by
  have hensured : ensureK8sClient p.k8sInitialised d.incluster d.kubeConfig = .ok true := by
    unfold ensureK8sClient
    split_ifs with hinitialised
    · rfl
    · rcases h.resolve_left hinitialised with hloaded | ⟨hnone, hloaded⟩
      · rw [hloaded]
      · rw [hnone, hloaded]
  unfold Process.deliver
  rw [hensured]

/-- The process isolates a mesh where the client is configured, or can be. -/
theorem Process.alone (conv : TextConversions) (key : String) {p q : Process} {ds : List Delivery}
    (hp : p.k8sInitialised = true ∨ ∀ d ∈ ds, d.Configures)
    (hq : q.k8sInitialised = true ∨ ∀ d ∈ ds, d.Configures)
    (hview : p.circuitBreakers.get? key = q.circuitBreakers.get? key) :
    replies (Process.deliver conv) (Delivery.concerns key) p ds =
        replies (Process.deliver conv) (Delivery.concerns key) q
          (ds.filter (Delivery.concerns key)) ∧
      (afterCalls (Process.deliver conv) p ds).circuitBreakers.get? key =
        (afterCalls (Process.deliver conv) q
          (ds.filter (Delivery.concerns key))).circuitBreakers.get? key := by
  induction ds generalizing p q with
  | nil => exact ⟨rfl, hview⟩
  | cons d ds ih =>
    have hrest : ∀ r : Process, (r.k8sInitialised = true ∨ ∀ d' ∈ d :: ds, d'.Configures) →
        r.k8sInitialised = true ∨ ∀ d' ∈ ds, d'.Configures :=
      fun r hr => hr.imp_right fun hall d' hd' => hall d' (List.mem_cons_of_mem d hd')
    have hdeliver := Process.deliver_eq conv
      (hp.imp_right fun hall => hall d List.mem_cons_self)
    have hinitialised : (p.deliver conv d).2.k8sInitialised = true ∨
        ∀ d' ∈ ds, d'.Configures := by
      rw [hdeliver]
      exact .inl rfl
    by_cases hd : d.concerns key = true
    · have hdeliver' := Process.deliver_eq conv
        (hq.imp_right fun hall => hall d List.mem_cons_self)
      obtain ⟨hreply, hafter⟩ :=
        (Registry.isolates conv key).own p.circuitBreakers q.circuitBreakers d.event hd hview
      have hinitialised' : (q.deliver conv d).2.k8sInitialised = true ∨
          ∀ d' ∈ ds, d'.Configures := by
        rw [hdeliver']
        exact .inl rfl
      have hviews : (p.deliver conv d).2.circuitBreakers.get? key =
          (q.deliver conv d).2.circuitBreakers.get? key := by
        rw [hdeliver, hdeliver']
        exact hafter
      obtain ⟨hreplies, hlast⟩ := ih hinitialised hinitialised' hviews
      rw [List.filter_cons_of_pos hd]
      refine ⟨?_, hlast⟩
      rw [replies, replies, if_pos hd, if_pos hd, hreplies, hdeliver, hdeliver', hreply]
    · -- The other run skips the event, which leaves the breaker of the mesh alone.
      have hothers := (Registry.isolates conv key).others p.circuitBreakers d.event
        (Bool.eq_false_iff.mpr hd)
      have hskip : (p.deliver conv d).2.circuitBreakers.get? key =
          q.circuitBreakers.get? key := by
        rw [hdeliver]
        exact hothers.trans hview
      obtain ⟨hreplies, hlast⟩ := ih hinitialised (hrest q hq) hskip
      rw [List.filter_cons_of_neg hd]
      refine ⟨?_, hlast⟩
      rw [replies, if_neg hd, hreplies]

/-- In every interleaving of the events of any number of meshes, if the client is configured or can
be configured at each of them: the statuses and the errors that the handlers of one mesh report, and
the state of its breaker, are what they would be if the operator had handled the events of this mesh
alone. -/
theorem meshes_isolated (conv : TextConversions) (key : String) (p : Process)
    (ds : List Delivery) (hp : p.k8sInitialised = true ∨ ∀ d ∈ ds, d.Configures) :
    (replies (Process.deliver conv) (Delivery.concerns key) p ds =
        replies (Process.deliver conv) (Delivery.concerns key) p
          (ds.filter (Delivery.concerns key)) ∧
      (afterCalls (Process.deliver conv) p ds).circuitBreakers.get? key =
        (afterCalls (Process.deliver conv) p
          (ds.filter (Delivery.concerns key))).circuitBreakers.get? key) ∧
    ∀ ds' : List Delivery, (p.k8sInitialised = true ∨ ∀ d ∈ ds', d.Configures) →
      ds.filter (Delivery.concerns key) = ds'.filter (Delivery.concerns key) →
      replies (Process.deliver conv) (Delivery.concerns key) p ds =
          replies (Process.deliver conv) (Delivery.concerns key) p ds' ∧
        (afterCalls (Process.deliver conv) p ds).circuitBreakers.get? key =
          (afterCalls (Process.deliver conv) p ds').circuitBreakers.get? key := by
  have halone := Process.alone conv key hp hp rfl
  refine ⟨halone, fun ds' hp' hsame => ?_⟩
  have halone' := Process.alone conv key hp' hp' rfl
  rw [hsame] at halone
  exact ⟨halone.1.trans halone'.1.symm, halone.2.trans halone'.2.symm⟩

/-- Two meshes of one agent, which fails: one of them is deleted. -/
def twoMeshes : List Delivery :=
  [⟨.reconcile "default" "a" (some { agents := ["coder"] }) (fun _ => .status "Failed") ⟨0, 0, 0⟩,
      .loaded, .loaded⟩,
    ⟨.delete "default" "b" .done, .loaded, .loaded⟩]

/-- `meshes_isolated` on them: the first reports the same without the second. -/
theorem meshes_isolated_twoMeshes :
    replies (Process.deliver unreadable) (Delivery.concerns "default/a") {} twoMeshes =
      replies (Process.deliver unreadable) (Delivery.concerns "default/a") {}
        (twoMeshes.filter (Delivery.concerns "default/a")) :=
  (meshes_isolated unreadable "default/a" {} twoMeshes (.inr (by decide))).1.1

end MeshRouter.Operator
