import MeshRouter.Lib.Dict
import MeshRouter.Lib.Fallible
import MeshRouter.Operator.CircuitBreakerState

/-!
# The controller of meshes

The handlers of `k8s/operator/controllers/mesh_controller.py`, as far as they decide the circuit
breakers and the status of a mesh. What the Kubernetes API and the validation of a spec answer is an
input of each event: of the queries and patches for the agents of a mesh there is one answer for
each of them, in their order. The breakers are kept in a registry across all events, by the
namespace and the name of their mesh. A handler that cannot configure its client raises before it
does anything (`ensureK8sClient`), so that such events do not show here.

A breaker keeps the spec that it was made with, and `on_mesh_update` does not touch the registry. So
a reconciliation uses the spec of the first event that asked for the breaker since the mesh was
last deleted (`origin`), and `current_iff` says in which runs this is the spec that it is given.
-/

namespace MeshRouter.Operator

open Lib

/-- The spec of a mesh: the agents that it refers to, and its circuit breaker. -/
structure AgentMeshSpec where
  agents : List String
  circuitBreaker : CircuitBreakerSpec := {}
deriving DecidableEq

/-- Two specs have the same thresholds and the same recovery timeout. -/
structure CircuitBreakerSpec.SameThresholds (a b : CircuitBreakerSpec) : Prop where
  failureThreshold : a.failureThreshold = b.failureThreshold
  recoveryTimeout : a.recoveryTimeout = b.recoveryTimeout
  successThreshold : a.successThreshold = b.successThreshold

/-- How a call of the Kubernetes API ends: it returns, it raises an `ApiException` with a status, or
it raises something else, which may be a `ValueError`. -/
inductive ApiOutcome where
  | done
  | apiException (status : ℕ)
  | valueError
  | otherException
deriving DecidableEq

/-- How the query for the status of an agent ends: with the phase and the cost of the agent, or as
another call. -/
inductive AgentObservation where
  | status (agentPhase : String) (totalCost : Option String := none)
  | apiException (status : ℕ)
  | otherException
deriving DecidableEq

/-- What a handler can raise. -/
inductive HandlerError where
  /-- `kopf.PermanentError`: "Invalid AgentMesh spec: …." -/
  | permanentError
  | apiException (status : ℕ)
  | otherException
  /-- What `int` raised for the recovery timeout. -/
  | timeout (error : PyError)
deriving DecidableEq

/-- The status of a mesh that a handler reports. -/
structure MeshStatus where
  phase : String
  activeAgents : ℕ
  circuitBreakerState : CircuitState
  /-- The costs that a reconciliation adds up, in their order. It reports the sum. -/
  totalCost : Option (List PyFloat) := none
  /-- When a reconciliation ended. -/
  lastUpdated : Option ℚ := none
deriving DecidableEq

/-- `_circuit_breakers`: the breakers by mesh key. -/
abbrev Registry := Dict String CircuitBreakerState

/-- The key of a mesh. -/
def meshKey (ns name : String) : String := ns ++ "/" ++ name

/-- `_get_or_create_circuit_breaker`. -/
def getOrCreateCircuitBreaker (registry : Registry) (key : String) (config : CircuitBreakerSpec) :
    CircuitBreakerState × Registry :=
  match registry.get? key with
  | some cb => (cb, registry)
  | none => ({ config := config }, registry.set key { config := config })

/-- An API call whose exceptions with a tolerated status are only logged. -/
def ApiOutcome.check (tolerated : ℕ → Bool) : ApiOutcome → Except HandlerError Unit
  | .done => .ok ()
  | .apiException status => if tolerated status then .ok () else .error (.apiException status)
  | .valueError | .otherException => .error .otherException

/-- `AgentMeshSpec.model_validate`, whose result is given. -/
def validated : Option AgentMeshSpec → Except HandlerError AgentMeshSpec
  | some meshSpec => .ok meshSpec
  | none => .error .permanentError

/-- `_patch_agent_deployment_with_configmap` for each agent: every `ApiException` is only logged. -/
def patchAgents (meshSpec : AgentMeshSpec) (patched : ℕ → ApiOutcome) : Except HandlerError Unit :=
  meshSpec.agents.zipIdx.forM fun agent => (patched agent.2).check fun _ => true

/-- `on_mesh_create` before it comes to the circuit breaker. A ConfigMap that exists already is no
error. -/
def provision (spec : Option AgentMeshSpec) (created : ApiOutcome) (patched : ℕ → ApiOutcome) :
    Except HandlerError AgentMeshSpec := do
  let meshSpec ← validated spec
  created.check (· = 409)
  patchAgents meshSpec patched
  return meshSpec

/-- `on_mesh_create`. -/
def onMeshCreate (registry : Registry) (ns name : String) (spec : Option AgentMeshSpec)
    (created : ApiOutcome) (patched : ℕ → ApiOutcome) :
    Except HandlerError MeshStatus × Registry :=
  match provision spec created patched with
  | .error e => (.error e, registry)
  | .ok meshSpec =>
    (.ok { phase := "Forming", activeAgents := 0, circuitBreakerState := .closed },
      if meshSpec.circuitBreaker.enabled then
        (getOrCreateCircuitBreaker registry (meshKey ns name) meshSpec.circuitBreaker).2
      else
        registry)

/-- `on_mesh_update`: a ConfigMap that is missing is created again. -/
def onMeshUpdate (spec : Option AgentMeshSpec) (replaced recreated : ApiOutcome)
    (patched : ℕ → ApiOutcome) : Except HandlerError Unit := do
  let meshSpec ← validated spec
  if replaced = .apiException 404 then
    recreated.check fun _ => false
  else
    replaced.check fun _ => false
  patchAgents meshSpec patched

/-- `on_mesh_delete`: every `ApiException` is only logged. -/
def onMeshDelete (registry : Registry) (ns name : String) (deleted : ApiOutcome) :
    Except HandlerError Unit × Registry :=
  match deleted.check fun _ => true with
  | .error e => (.error e, registry)
  | .ok () => (.ok (), registry.erase (meshKey ns name))

/-! ## Reconciliation -/

/-- What a reconciliation counts and adds up. -/
structure Rollup where
  activeAgents : ℕ := 0
  failedAgents : ℕ := 0
  costs : List PyFloat := []
deriving DecidableEq

/-- The query for the status of an agent. A cost that is no number is skipped, and an agent whose
query raises an `ApiException` is not counted. -/
def Rollup.add (conv : TextConversions) (totals : Rollup) :
    AgentObservation → Except HandlerError Rollup
  | .status agentPhase totalCost => .ok {
      activeAgents := if agentPhase = "Running" then totals.activeAgents + 1
        else totals.activeAgents
      failedAgents := if agentPhase = "Failed" ∨ agentPhase = "Terminated"
        then totals.failedAgents + 1 else totals.failedAgents
      costs := totals.costs ++
        ((totalCost.filter (· ≠ "")).bind fun costStr => conv.readFloat costStr).toList }
  | .apiException _ => .ok totals
  | .otherException => .error .otherException

/-- The loop of `reconcile_mesh_status` over the agents. -/
def rollUp (conv : TextConversions) (meshSpec : AgentMeshSpec) (observed : ℕ → AgentObservation) :
    Except HandlerError Rollup :=
  meshSpec.agents.zipIdx.foldlM (fun totals agent => totals.add conv (observed agent.2)) {}

/-- The phase of a mesh. -/
def meshPhase (activeAgents failedAgents totalAgents : ℕ) : String :=
  if activeAgents = totalAgents then "Ready"
  else if activeAgents = 0 then
    if 0 < failedAgents then "Failed" else "Forming"
  else "Degraded"

/-- The circuit breaker's part of a reconciliation: its state afterwards. -/
def updateCircuitBreaker (conv : TextConversions) (registry : Registry) (key : String)
    (config : CircuitBreakerSpec) (failedAgents : ℕ) (recordedAt probedAt : ℚ) :
    Except HandlerError CircuitState × Registry :=
  let (cb, registry) := getOrCreateCircuitBreaker registry key config
  let cb := if 0 < failedAgents then cb.recordFailure recordedAt else cb.recordSuccess
  match cb.maybeProbe conv probedAt with
  | .error e => (.error (.timeout e), registry.set key cb)
  | .ok (_, cb) => (.ok cb.state, registry.set key cb)

/-- When a reconciliation reads the clock: when a failure is recorded, when a probe is considered,
and at its end. -/
structure ReconcileTimes where
  recordedAt : ℚ
  probedAt : ℚ
  updatedAt : ℚ
deriving DecidableEq

/-- `reconcile_mesh_status`: the status that it patches, unless the spec is invalid. -/
def reconcileMeshStatus (conv : TextConversions) (registry : Registry) (ns name : String)
    (spec : Option AgentMeshSpec) (observed : ℕ → AgentObservation) (times : ReconcileTimes) :
    Except HandlerError (Option MeshStatus) × Registry :=
  match spec with
  | none => (.ok none, registry)
  | some meshSpec =>
    match rollUp conv meshSpec observed with
    | .error e => (.error e, registry)
    | .ok totals =>
      let (cbState, registry) :=
        if meshSpec.circuitBreaker.enabled then
          updateCircuitBreaker conv registry (meshKey ns name) meshSpec.circuitBreaker
            totals.failedAgents times.recordedAt times.probedAt
        else
          (.ok .closed, registry)
      (cbState.map fun state =>
        some
          { phase := meshPhase totals.activeAgents totals.failedAgents meshSpec.agents.length
            activeAgents := totals.activeAgents
            circuitBreakerState := state
            totalCost := some totals.costs
            lastUpdated := some times.updatedAt }, registry)

/-! ## Runs -/

/-- An event of a mesh, with what the validation of its spec and the API answer to the handler. -/
inductive MeshEvent where
  | create (ns name : String) (spec : Option AgentMeshSpec) (created : ApiOutcome)
    (patched : ℕ → ApiOutcome)
  | update (ns name : String) (spec : Option AgentMeshSpec) (replaced recreated : ApiOutcome)
    (patched : ℕ → ApiOutcome)
  | delete (ns name : String) (deleted : ApiOutcome)
  | reconcile (ns name : String) (spec : Option AgentMeshSpec) (observed : ℕ → AgentObservation)
    (times : ReconcileTimes)

/-- The operator: its registry, and the events that it has handled, the latest first. -/
structure Controller where
  registry : Registry := .empty
  events : List MeshEvent := []

namespace MeshEvent

/-- The breaker that a reconciliation uses: its key, and the spec that the reconciliation is given.
None if it raises or returns before, or if the breaker is not enabled. -/
def uses (conv : TextConversions) : MeshEvent → Option (String × CircuitBreakerSpec)
  | .reconcile ns name (some meshSpec) observed _ =>
    match rollUp conv meshSpec observed with
    | .ok _ =>
      if meshSpec.circuitBreaker.enabled then
        some (meshKey ns name, meshSpec.circuitBreaker)
      else
        none
    | .error _ => none
  | _ => none

/-- The breaker that an event makes sure to exist: that of a reconciliation, or of a creation. -/
def asks (conv : TextConversions) : MeshEvent → Option (String × CircuitBreakerSpec)
  | .create ns name spec created patched =>
    match provision spec created patched with
    | .ok meshSpec =>
      if meshSpec.circuitBreaker.enabled then
        some (meshKey ns name, meshSpec.circuitBreaker)
      else
        none
    | .error _ => none
  | e => e.uses conv

/-- The breaker that an event removes. -/
def removes : MeshEvent → Option String
  | .delete ns name deleted =>
    match deleted.check fun _ => true with
    | .ok () => some (meshKey ns name)
    | .error _ => none
  | _ => none

end MeshEvent

/-- The spec of the first event that asked for a breaker since it was last removed. The latest event
comes first. -/
def origin (conv : TextConversions) (key : String) : List MeshEvent → Option CircuitBreakerSpec
  | [] => none
  | e :: older =>
    if e.removes = some key then
      none
    else
      (origin conv key older).or (((e.asks conv).filter fun asked => asked.1 = key).map Prod.snd)

/-! ## Configurations in the registry -/

/-- The spec that a breaker in the registry was made with. -/
def configOf (registry : Registry) (key : String) : Option CircuitBreakerSpec :=
  (registry.get? key).map CircuitBreakerState.config

/-- The breaker that is found or made. -/
theorem config_getOrCreate (registry : Registry) (key : String) (config : CircuitBreakerSpec) :
    (getOrCreateCircuitBreaker registry key config).1.config =
      (configOf registry key).getD config := by
  unfold getOrCreateCircuitBreaker configOf
  cases registry.get? key <;> rfl

/-- The registry with the breaker that is found or made, whatever its state becomes. -/
theorem configOf_set {registry : Registry} {key : String} {config : CircuitBreakerSpec}
    {cb : CircuitBreakerState}
    (hcb : cb.config = (getOrCreateCircuitBreaker registry key config).1.config) (k : String) :
    configOf ((getOrCreateCircuitBreaker registry key config).2.set key cb) k =
      (configOf registry k).or (if key = k then some config else none) := by
  rw [config_getOrCreate] at hcb
  unfold configOf at hcb ⊢
  rw [Dict.get?_set]
  unfold getOrCreateCircuitBreaker
  by_cases hk : key = k
  · subst hk
    rw [if_pos rfl, if_pos rfl, Option.map_some, hcb]
    cases registry.get? key <;> rfl
  · rw [if_neg (Ne.symm hk), if_neg hk, Option.or_none]
    cases registry.get? key with
    | some found => rfl
    | none =>
      dsimp only
      rw [Dict.get?_set, if_neg (Ne.symm hk)]

/-- The registry with the breaker that is found or made. -/
theorem configOf_getOrCreate (registry : Registry) (key : String) (config : CircuitBreakerSpec)
    (k : String) :
    configOf (getOrCreateCircuitBreaker registry key config).2 k =
      (configOf registry k).or (if key = k then some config else none) := by
  have hset : (getOrCreateCircuitBreaker registry key config).2.set key
      (getOrCreateCircuitBreaker registry key config).1 =
        (getOrCreateCircuitBreaker registry key config).2 := by
    refine Dict.set_of_get? ?_
    unfold getOrCreateCircuitBreaker
    cases hget : registry.get? key with
    | some found => exact hget
    | none =>
      dsimp only
      rw [Dict.get?_set, if_pos rfl]
  rw [← hset]
  exact configOf_set rfl k

/-- A breaker that records a failure keeps its spec. -/
theorem config_recordFailure (cb : CircuitBreakerState) (now : ℚ) :
    (cb.recordFailure now).config = cb.config := by
  unfold CircuitBreakerState.recordFailure
  split
  · rfl
  · dsimp only
    split_ifs <;> rfl
  · dsimp only
    split_ifs <;> rfl

/-- A breaker that records a success keeps its spec. -/
theorem config_recordSuccess (cb : CircuitBreakerState) : cb.recordSuccess.config = cb.config := by
  unfold CircuitBreakerState.recordSuccess
  split
  · dsimp only
    split_ifs <;> rfl
  · rfl
  · rfl

/-- A breaker that considers a probe keeps its spec. -/
theorem config_maybeProbe {conv : TextConversions} {cb cb' : CircuitBreakerState} {now : ℚ}
    {probes : Bool} (h : cb.maybeProbe conv now = .ok (probes, cb')) : cb'.config = cb.config := by
  unfold CircuitBreakerState.maybeProbe at h
  split at h
  · obtain ⟨timeout, -, h⟩ := bind_eq_ok.mp h
    split_ifs at h
    · obtain ⟨-, rfl⟩ := Prod.mk.inj (Except.ok.inj h)
      rfl
    · obtain ⟨-, rfl⟩ := Prod.mk.inj (Except.ok.inj h)
      rfl
  · obtain ⟨-, rfl⟩ := Prod.mk.inj (Except.ok.inj h)
    rfl

/-- The circuit breaker's part of a reconciliation leaves every breaker with its spec. -/
theorem configOf_updateCircuitBreaker (conv : TextConversions) (registry : Registry) (key : String)
    (config : CircuitBreakerSpec) (failedAgents : ℕ) (recordedAt probedAt : ℚ) (k : String) :
    configOf (updateCircuitBreaker conv registry key config failedAgents recordedAt probedAt).2 k =
      (configOf registry k).or (if key = k then some config else none) := by
  unfold updateCircuitBreaker
  dsimp only
  set cb := (getOrCreateCircuitBreaker registry key config).1 with hcb
  have hrecorded : (if 0 < failedAgents then cb.recordFailure recordedAt
      else cb.recordSuccess).config = cb.config := by
    split_ifs
    · exact config_recordFailure cb recordedAt
    · exact config_recordSuccess cb
  rcases hprobe : (if 0 < failedAgents then cb.recordFailure recordedAt
      else cb.recordSuccess).maybeProbe conv probedAt with e | ⟨probes, cb'⟩
  · exact configOf_set hrecorded k
  · exact configOf_set ((config_maybeProbe hprobe).trans hrecorded) k

namespace Controller

/-- The operator handles an event. -/
def step (conv : TextConversions) (s : Controller) (e : MeshEvent) : Option Controller :=
  let registry :=
    match e with
    | .create ns name spec created patched =>
      (onMeshCreate s.registry ns name spec created patched).2
    | .update _ _ _ _ _ _ => s.registry
    | .delete ns name deleted => (onMeshDelete s.registry ns name deleted).2
    | .reconcile ns name spec observed times =>
      (reconcileMeshStatus conv s.registry ns name spec observed times).2
  some { registry := registry, events := e :: s.events }

/-- The breaker that the event uses has the thresholds and the timeout of the spec that the event is
given. -/
def UsesCurrent (conv : TextConversions) (s : Controller) (e : MeshEvent) : Prop :=
  ∀ key config, e.uses conv = some (key, config) →
    (getOrCreateCircuitBreaker s.registry key config).1.config.SameThresholds config

/-- If the event uses a breaker, then the first event that asked for this breaker since it was last
removed was given the same thresholds and the same timeout. -/
def OriginCurrent (conv : TextConversions) (s : Controller) (e : MeshEvent) : Prop :=
  ∀ key config, e.uses conv = some (key, config) →
    ∀ first, origin conv key s.events = some first → first.SameThresholds config

/-- The registry has for each breaker the spec of the event that it goes back to. -/
def Originated (conv : TextConversions) (s : Controller) : Prop :=
  ∀ key, configOf s.registry key = origin conv key s.events

variable {conv : TextConversions} {s t : Controller}

/-- A breaker that is asked for under one key. -/
theorem filter_asked (key k : String) (config : CircuitBreakerSpec) :
    (((some (key, config)).filter fun asked => asked.1 = k).map Prod.snd) =
      if key = k then some config else none := by
  by_cases hk : key = k <;> simp [hk]

/-- The spec of a breaker that is removed is no longer there. -/
theorem configOf_erase (registry : Registry) (meshKey key : String) :
    configOf (registry.erase meshKey) key =
      if key = meshKey then none else configOf registry key := by
  unfold configOf
  rw [Dict.get?_erase]
  split_ifs
  · rfl
  · rfl

/-- What an event does to the specs in the registry: it removes one, or adds the one that it asks
for unless there is one. -/
theorem configOf_step {e : MeshEvent} (hst : s.step conv e = some t) (key : String) :
    configOf t.registry key =
      if e.removes = some key then
        none
      else
        (configOf s.registry key).or
          (((e.asks conv).filter fun asked => asked.1 = key).map Prod.snd) := by
  obtain rfl := Option.some.inj hst
  cases e with
  | create ns name spec created patched =>
    unfold onMeshCreate MeshEvent.asks MeshEvent.removes
    dsimp only
    rw [if_neg (by simp)]
    cases provision spec created patched with
    | error e => simp
    | ok meshSpec =>
      dsimp only
      split_ifs
      · rw [configOf_getOrCreate, filter_asked]
      · simp
  | update ns name spec replaced recreated patched =>
    simp [MeshEvent.asks, MeshEvent.removes, MeshEvent.uses]
  | delete ns name deleted =>
    unfold onMeshDelete MeshEvent.asks MeshEvent.removes MeshEvent.uses
    rcases hcheck : deleted.check fun _ => true with err | ⟨⟩
    · simp [hcheck]
    · simp only [hcheck, Option.some.injEq, Option.filter_none, Option.map_none, Option.or_none]
      rw [configOf_erase]
      simp only [eq_comm]
  | reconcile ns name spec observed times =>
    unfold reconcileMeshStatus MeshEvent.asks MeshEvent.removes
    dsimp only
    rw [if_neg (by simp)]
    cases spec with
    | none => simp [MeshEvent.uses]
    | some meshSpec =>
      unfold MeshEvent.uses
      dsimp only
      cases rollUp conv meshSpec observed with
      | error e => simp
      | ok totals =>
        dsimp only
        split_ifs
        · rw [configOf_updateCircuitBreaker, filter_asked]
        · simp

/-- An event keeps the origins. -/
theorem Originated.step (h : s.Originated conv) {e : MeshEvent} (hst : s.step conv e = some t) :
    t.Originated conv := by
  intro key
  rw [configOf_step hst key, h key]
  obtain rfl := Option.some.inj hst
  rfl

/-- An event uses a current spec exactly if the origin of its breaker is current. -/
theorem Originated.usesCurrent_iff (h : s.Originated conv) (e : MeshEvent) :
    s.UsesCurrent conv e ↔ s.OriginCurrent conv e := by
  unfold UsesCurrent OriginCurrent
  refine forall_congr' fun key => forall_congr' fun config => forall_congr' fun _ => ?_
  rw [config_getOrCreate, h key]
  cases origin conv key s.events with
  | none => exact iff_of_true ⟨rfl, rfl, rfl⟩ fun first hfirst => (by cases hfirst)
  | some first => simp

end Controller

/-- In every run of events on a new operator: each reconciliation uses a breaker with the thresholds
and the timeout of the spec that it is given, if and only if this spec agrees with that of the first
event that asked for the breaker since its mesh was last deleted. -/
theorem current_iff (conv : TextConversions) (es : List MeshEvent) :
    Along (Controller.step conv) (Controller.UsesCurrent conv) {} es ↔
      Along (Controller.step conv) (Controller.OriginCurrent conv) {} es := by
  have hinit : Controller.Originated conv {} := fun _ => rfl
  exact along_iff_of_invariant (I := Controller.Originated conv) (fun _ _ _ hI hst => hI.step hst)
    (fun _ e hI => hI.usesCurrent_iff e) hinit es

/-- A mesh of one agent that is created with a threshold of five, updated to one, and reconciled. -/
def thresholdLowered : List MeshEvent :=
  [.create "default" "mesh" (some { agents := ["coder"] }) .done fun _ => .done,
    .update "default" "mesh"
      (some { agents := ["coder"], circuitBreaker := { failureThreshold := 1 } }) .done .done
      fun _ => .done,
    .reconcile "default" "mesh"
      (some { agents := ["coder"], circuitBreaker := { failureThreshold := 1 } })
      (fun _ => .status "Failed") ⟨0, 0, 0⟩]

/-- The reconciliation still uses the threshold of five. -/
theorem thresholdLowered_ignored :
    ¬ ∀ (conv : TextConversions) (es : List MeshEvent),
      Along (Controller.step conv) (Controller.UsesCurrent conv) {} es := by
  intro hall
  have hrun := hall unreadable thresholdLowered
  have hcurrent := ((hrun.2 _ rfl).2 _ rfl).1 "default/mesh" { failureThreshold := 1 }
    (by decide +kernel)
  exact absurd hcurrent.failureThreshold (by decide +kernel)

end MeshRouter.Operator
