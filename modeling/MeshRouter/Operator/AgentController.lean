import MeshRouter.Lib.History
import MeshRouter.Operator.MeshController

/-!
# The controller of agents

The handlers of `k8s/operator/controllers/agent_controller.py` for one agent, with the deployment
that they keep in the cluster. The Kubernetes API server is not part of the program. It is a
parameter (`ApiServer`), of which only what its documentation promises is assumed (`Lawful`): a
request that it answers with success has had its effect, and a request that fails has had its
effect or none, as when a time runs out before the answer arrives. Others may delete the deployment
at any time. Each handler first configures its client, and an event whose handler fails to do so
does not show here.

The budget is enforced by scaling the deployment to zero, and nothing scales it up again but an
update of the spec. So the deployment at the end of a run follows from the changes that the events
of the run made: which spec created it, which was applied last, and whether the agent has been
suspended since (`deployment_exact`).
-/

namespace MeshRouter.Operator

open Lib

/-- The fields of an agent's spec that its deployment is made of. -/
structure AgentSpec where
  image : String
  capabilities : List String
  replicas : ℤ := 1
  /-- The names of the variables in `env`, where they have one. -/
  env : List (Option String) := []
deriving DecidableEq

/-- The budget of a raw spec. -/
structure AgentBudget where
  maxCostPerHour : Option String := none
  alertThreshold : Value := .float 0.8
deriving DecidableEq

/-- A deployment: its replicas, the image of its container, and its label of capabilities. -/
structure Deployment where
  replicas : ℤ
  image : String
  capabilities : String
deriving DecidableEq

/-- What a reconciliation writes to the status of an agent. -/
structure AgentStatus where
  phase : String
  readyReplicas : ℤ
  lastHeartbeat : Option ℚ := none
deriving DecidableEq

/-! ## The API server -/

/-- What a patch sets: the replicas, and the image of the container unless it is left out. -/
structure DeploymentPatch where
  replicas : ℤ
  image : Option String := none
deriving DecidableEq

/-- A deployment with a patch. -/
def DeploymentPatch.apply (patch : DeploymentPatch) (d : Deployment) : Deployment :=
  { d with replicas := patch.replicas, image := patch.image.getD d.image }

/-- The requests that the handlers send to change something. -/
inductive ApiRequest where
  | createDeployment (body : Deployment)
  | createService
  | patchDeployment (body : DeploymentPatch)
  | deleteDeployment
  | deleteService
deriving DecidableEq

/-- What a request makes of the deployment, if it can be met. -/
def ApiRequest.effect : ApiRequest → Option Deployment → Option (Option Deployment)
  | .createDeployment body, none => some (some body)
  | .createDeployment _, some _ => none
  | .patchDeployment body, some d => some (some (body.apply d))
  | .deleteDeployment, some _ => some none
  | .patchDeployment _, none | .deleteDeployment, none => none
  | .createService, d | .deleteService, d => some d

/-- How the query for the deployment ends: with the replicas that are ready, if its status says how
many, or as another call. -/
inductive DeploymentRead where
  | found (readyReplicas : Option ℤ)
  | apiException (status : ℕ)
  | otherException
deriving DecidableEq

/-- The API server as the handlers of an agent meet it: how it answers in each of its states, and
the deployment that it holds. -/
structure ApiServer (κ : Type) where
  request : ApiRequest → κ → ApiOutcome × κ
  read : κ → DeploymentRead × κ
  deployment : κ → Option Deployment

variable {κ : Type}

/-- The server does what is asked of it. -/
structure ApiServer.Lawful (server : ApiServer κ) : Prop where
  /-- A request that is answered with success has had its effect. -/
  done : ∀ r k, (server.request r k).1 = .done →
    r.effect (server.deployment k) = some (server.deployment (server.request r k).2)
  /-- A request that fails has had its effect or none. -/
  failed : ∀ r k, (server.request r k).1 ≠ .done →
    server.deployment (server.request r k).2 = server.deployment k ∨
      r.effect (server.deployment k) = some (server.deployment (server.request r k).2)
  /-- A query changes nothing. -/
  read : ∀ k, server.deployment (server.read k).2 = server.deployment k

/-! ## The handlers -/

/-- `x >= y`, which is false for what is not a number. -/
def floatGe : PyFloat → PyFloat → Bool
  | .nan, _ => false
  | _, .nan => false
  | .finite x, .finite y => decide (y ≤ x)
  | .infinite negative, .finite _ => !negative
  | .finite _, .infinite negative => negative
  | .infinite negative, .infinite negative' => !negative || negative'

/-- `_build_deployment_manifest`. -/
def buildDeploymentManifest (spec : AgentSpec) : Deployment where
  replicas := spec.replicas
  image := spec.image
  capabilities := ",".intercalate (spec.capabilities.take 5)

/-- What `on_agent_update` patches: the replicas and the container, and not the labels. -/
def updatePatch (spec : AgentSpec) : DeploymentPatch where
  replicas := spec.replicas
  image := some spec.image

/-- What enforces the budget. -/
def suspension : DeploymentPatch where
  replicas := 0

/-- `_build_env_list`, which raises for a variable without a name. -/
def buildEnvList (spec : AgentSpec) : Except HandlerError Unit :=
  if none ∈ spec.env then .error .otherException else .ok ()

/-- The spec that a handler acts on: `AgentSpec.model_validate`, whose result is given, and the
variables of the container. -/
def actedOn : Option AgentSpec → Except HandlerError AgentSpec
  | none => .error .permanentError
  | some spec => (buildEnvList spec).map fun _ => spec

section Handlers

variable (server : ApiServer κ)

/-- The second half of `on_agent_create`, which creates the service. -/
def createService (k : κ) : Except HandlerError AgentStatus × κ :=
  let (created, k) := server.request .createService k
  ((created.check (· = 409)).map fun _ => { phase := "Pending", readyReplicas := 0 }, k)

/-- `on_agent_create`: what is there already is no error. -/
def onAgentCreate (spec : Option AgentSpec) (k : κ) : Except HandlerError AgentStatus × κ :=
  match actedOn spec with
  | .error e => (.error e, k)
  | .ok agentSpec =>
    let (created, k) := server.request (.createDeployment (buildDeploymentManifest agentSpec)) k
    match created.check (· = 409) with
    | .error e => (.error e, k)
    | .ok () => createService server k

/-- `on_agent_update`: a deployment that is missing is no error, and is not created. -/
def onAgentUpdate (spec : Option AgentSpec) (k : κ) : Except HandlerError Unit × κ :=
  match actedOn spec with
  | .error e => (.error e, k)
  | .ok agentSpec =>
    let (patched, k) := server.request (.patchDeployment (updatePatch agentSpec)) k
    (patched.check (· = 404), k)

/-- The second turn of the loop of `on_agent_delete`, which deletes the service. -/
def deleteService (k : κ) : Except HandlerError Unit × κ :=
  let (deleted, k) := server.request .deleteService k
  (deleted.check fun _ => true, k)

/-- `on_agent_delete`: every `ApiException` is only logged. -/
def onAgentDelete (k : κ) : Except HandlerError Unit × κ :=
  let (deleted, k) := server.request .deleteDeployment k
  match deleted.check fun _ => true with
  | .error e => (.error e, k)
  | .ok () => deleteService server k

/-- The phase of an agent by its replicas. -/
def agentPhase (readyReplicas desiredReplicas : ℤ) : String :=
  if readyReplicas = desiredReplicas ∧ 0 < desiredReplicas then "Running"
  else if readyReplicas = 0 ∧ desiredReplicas = 0 then "Suspended"
  else if readyReplicas = 0 then "Pending"
  else "Running"

/-- The comparison of the costs, which raises if one of them is not a number. -/
def budgetExceeded (conv : TextConversions) (budget : AgentBudget) (totalCost : Option String)
    (desiredReplicas : ℤ) : Except PyError Bool :=
  match budget.maxCostPerHour.filter (· ≠ ""), totalCost.filter (· ≠ "") with
  | some maxCostStr, some totalCostStr => do
    let maxCost ← (Value.str maxCostStr).toFloat conv
    let totalCost ← (Value.str totalCostStr).toFloat conv
    let _alertThreshold ← budget.alertThreshold.toFloat conv
    return floatGe totalCost maxCost && decide (0 < desiredReplicas)
  | _, _ => .ok false

/-- What a reconciliation is given: the replicas and the budget of the raw spec, the costs in the
status, and the time. -/
structure AgentView where
  desiredReplicas : ℤ := 1
  budget : AgentBudget := {}
  totalCost : Option String := none
  now : ℚ := 0
deriving DecidableEq

/-- The enforcement of the budget in `reconcile_agent_status`: the status that is written, and how
the handler ends. A `ValueError` of the patch is only logged, like one of the conversions. -/
def enforceBudget (status : AgentStatus) (k : κ) :
    Option AgentStatus × Except HandlerError Unit × κ :=
  let (patched, k) := server.request (.patchDeployment suspension) k
  match patched with
  | .done => (some { status with phase := "Suspended" }, .ok (), k)
  | .valueError => (some status, .ok (), k)
  | patched => (some status, patched.check fun _ => false, k)

/-- `reconcile_agent_status`: the status that is written, and how the handler ends. -/
def reconcileAgentStatus (conv : TextConversions) (view : AgentView) (k : κ) :
    Option AgentStatus × Except HandlerError Unit × κ :=
  match server.read k with
  | (.apiException status, k) => (none, (ApiOutcome.apiException status).check (· = 404), k)
  | (.otherException, k) => (none, .error .otherException, k)
  | (.found readyReplicas, k) =>
    let ready := readyReplicas.getD 0
    let status : AgentStatus :=
      { phase := agentPhase ready view.desiredReplicas
        readyReplicas := ready
        lastHeartbeat := some view.now }
    match budgetExceeded conv view.budget view.totalCost view.desiredReplicas with
    | .error .valueError | .ok false => (some status, .ok (), k)
    | .error _ => (some status, .error .otherException, k)
    | .ok true => enforceBudget server status k

/-! ## Runs -/

/-- What others do to the server: they delete the deployment, or leave it as it is. -/
structure Interference where
  act : κ → κ
  lost : ∀ k, server.deployment (act k) = server.deployment k ∨ server.deployment (act k) = none

/-- What can happen to an agent. -/
inductive AgentEvent where
  | create (spec : Option AgentSpec)
  | update (spec : Option AgentSpec)
  | delete
  | reconcile (view : AgentView)
  | elsewhere (change : Interference server)

end Handlers

variable {server : ApiServer κ}

/-- The server after an event. -/
def AgentEvent.after (conv : TextConversions) (k : κ) : AgentEvent server → κ
  | .create spec => (onAgentCreate server spec k).2
  | .update spec => (onAgentUpdate server spec k).2
  | .delete => (onAgentDelete server k).2
  | .reconcile view => (reconcileAgentStatus server conv view k).2.2
  | .elsewhere change => change.act k

/-- What can become of the deployment. -/
inductive DeploymentChange where
  | created (spec : AgentSpec)
  | patched (spec : AgentSpec)
  | suspended
  | removed
deriving DecidableEq

namespace DeploymentChange

/-- The deployment after a change. -/
def apply : DeploymentChange → Option Deployment → Option Deployment
  | .created spec, _ => some (buildDeploymentManifest spec)
  | .patched spec, d => d.map (updatePatch spec).apply
  | .suspended, d => d.map suspension.apply
  | .removed, _ => none

/-- The change brings a deployment. -/
def Creates : DeploymentChange → Prop
  | .created _ => True
  | _ => False

/-- The change takes the deployment away. -/
def Removes (change : DeploymentChange) : Prop := change = .removed

/-- The spec that a deployment is created with. -/
def createdSpec : DeploymentChange → Option AgentSpec
  | .created spec => some spec
  | _ => none

/-- The spec that is applied to the deployment: it is created or patched with it. -/
def appliedSpec : DeploymentChange → Option AgentSpec
  | .created spec | .patched spec => some spec
  | _ => none

end DeploymentChange

/-- The request has its effect on the deployment. -/
def ApiServer.Effective (server : ApiServer κ) (r : ApiRequest) (k : κ) : Prop :=
  r.effect (server.deployment k) = some (server.deployment (server.request r k).2)

instance (r : ApiRequest) (k : κ) : Decidable (server.Effective r k) :=
  inferInstanceAs (Decidable (_ = _))

/-- The change, if the request for it has its effect. -/
def ApiServer.changeBy (server : ApiServer κ) (r : ApiRequest) (change : DeploymentChange) (k : κ) :
    Option DeploymentChange :=
  if server.Effective r k then some change else none

/-- The change that an event makes. A creation and an update apply their spec, a reconciliation
suspends an agent whose costs have reached its budget, and a deletion removes the deployment, each
if the request for it has its effect. Somebody else only removes the deployment. -/
def AgentEvent.change (conv : TextConversions) (k : κ) :
    AgentEvent server → Option DeploymentChange
  | .create spec =>
    match actedOn spec with
    | .ok agentSpec =>
      server.changeBy (.createDeployment (buildDeploymentManifest agentSpec)) (.created agentSpec) k
    | .error _ => none
  | .update spec =>
    match actedOn spec with
    | .ok agentSpec =>
      server.changeBy (.patchDeployment (updatePatch agentSpec)) (.patched agentSpec) k
    | .error _ => none
  | .delete => server.changeBy .deleteDeployment .removed k
  | .reconcile view =>
    match server.read k, budgetExceeded conv view.budget view.totalCost view.desiredReplicas with
    | (.found _, k), .ok true => server.changeBy (.patchDeployment suspension) .suspended k
    | _, _ => none
  | .elsewhere change =>
    if server.deployment (change.act k) ≠ server.deployment k then some .removed else none

/-- The server after a run of events, and the changes that the events made. -/
def agentRun (conv : TextConversions) (k : κ) (events : List (AgentEvent server)) :
    κ × List DeploymentChange :=
  events.foldl
    (fun run e => (e.after conv run.1, run.2 ++ (e.change conv run.1).toList)) (k, [])

/-! ## What an event does to the deployment -/

/-- The deployment after what may be a change. -/
def changed (change : Option DeploymentChange) (d : Option Deployment) : Option Deployment :=
  change.elim d fun change => change.apply d

namespace ApiServer.Lawful

variable (lawful : server.Lawful) {k : κ}
include lawful

/-- A request has its effect or none. -/
theorem deployment_request (r : ApiRequest) (k : κ) :
    server.deployment (server.request r k).2 = server.deployment k ∨ server.Effective r k := by
  by_cases hdone : (server.request r k).1 = .done
  · exact .inr (lawful.done r k hdone)
  · exact lawful.failed r k hdone

/-- A request about the service leaves the deployment alone. -/
theorem deployment_of_service {r : ApiRequest} (hr : r.effect = some) (k : κ) :
    server.deployment (server.request r k).2 = server.deployment k := by
  rcases lawful.deployment_request r k with hkept | heffective
  · exact hkept
  · unfold Effective at heffective
    rw [hr] at heffective
    exact (Option.some.inj heffective).symm

/-- The deployment after a request: it is changed if the request has its effect. -/
theorem deployment_changeBy (r : ApiRequest) (change : DeploymentChange)
    (hchange : ∀ d d', r.effect d = some d' → d' = change.apply d) (k : κ) :
    server.deployment (server.request r k).2 =
      changed (server.changeBy r change k) (server.deployment k) := by
  unfold ApiServer.changeBy
  split_ifs with heffective
  · exact hchange _ _ heffective
  · exact (lawful.deployment_request r k).resolve_right heffective

/-- What the request of a creation does. -/
theorem deployment_created (agentSpec : AgentSpec) (k : κ) :
    server.deployment
        (server.request (.createDeployment (buildDeploymentManifest agentSpec)) k).2 =
      changed (server.changeBy (.createDeployment (buildDeploymentManifest agentSpec))
        (.created agentSpec) k) (server.deployment k) := by
  refine lawful.deployment_changeBy _ _ (fun d d' heffect => ?_) k
  cases d with
  | none => exact (Option.some.inj heffect).symm
  | some d => cases heffect

/-- What a patch does, if the change applies it. -/
theorem deployment_patched (patch : DeploymentPatch) (change : DeploymentChange)
    (hchange : ∀ d, change.apply d = d.map patch.apply) (k : κ) :
    server.deployment (server.request (.patchDeployment patch) k).2 =
      changed (server.changeBy (.patchDeployment patch) change k) (server.deployment k) := by
  refine lawful.deployment_changeBy _ _ (fun d d' heffect => ?_) k
  rw [hchange]
  cases d with
  | none => cases heffect
  | some d => exact (Option.some.inj heffect).symm

/-- What the request of a deletion does. -/
theorem deployment_deleted (k : κ) :
    server.deployment (server.request .deleteDeployment k).2 =
      changed (server.changeBy .deleteDeployment .removed k) (server.deployment k) := by
  refine lawful.deployment_changeBy _ _ (fun d d' heffect => ?_) k
  cases d with
  | none => cases heffect
  | some d => exact (Option.some.inj heffect).symm

/-- The enforcement of the budget scales the deployment to zero, if its patch has its effect. -/
theorem deployment_enforceBudget (status : AgentStatus) (k : κ) :
    server.deployment (enforceBudget server status k).2.2 =
      changed (server.changeBy (.patchDeployment suspension) .suspended k)
        (server.deployment k) := by
  have hpatched := lawful.deployment_patched suspension .suspended (fun _ => rfl) k
  unfold enforceBudget
  dsimp only
  cases (server.request (.patchDeployment suspension) k).1 with
  | done | apiException | valueError | otherException => exact hpatched

/-- An event leaves the deployment with the change that it makes. -/
theorem deployment_after (conv : TextConversions) (e : AgentEvent server) (k : κ) :
    server.deployment (e.after conv k) = changed (e.change conv k) (server.deployment k) := by
  cases e with
  | create spec =>
    dsimp only [AgentEvent.after, AgentEvent.change, onAgentCreate]
    cases actedOn spec with
    | error e => rfl
    | ok agentSpec =>
      have hcreated := lawful.deployment_created agentSpec k
      dsimp only
      cases (server.request (.createDeployment (buildDeploymentManifest agentSpec)) k).1.check
          (· = 409) with
      | error e => exact hcreated
      | ok u => exact (lawful.deployment_of_service rfl _).trans hcreated
  | update spec =>
    dsimp only [AgentEvent.after, AgentEvent.change, onAgentUpdate]
    cases actedOn spec with
    | error e => rfl
    | ok agentSpec => exact lawful.deployment_patched _ (.patched agentSpec) (fun _ => rfl) k
  | delete =>
    have hdeleted := lawful.deployment_deleted k
    dsimp only [AgentEvent.after, AgentEvent.change, onAgentDelete]
    cases (server.request .deleteDeployment k).1.check fun _ => true with
    | error e => exact hdeleted
    | ok u => exact (lawful.deployment_of_service rfl _).trans hdeleted
  | reconcile view =>
    have hread := lawful.read k
    dsimp only [AgentEvent.after, AgentEvent.change, reconcileAgentStatus]
    rcases hk : server.read k with ⟨answer, k'⟩
    rw [hk] at hread
    rw [← hread]
    cases answer with
    | apiException status => rfl
    | otherException => rfl
    | found readyReplicas =>
      dsimp only
      cases budgetExceeded conv view.budget view.totalCost view.desiredReplicas with
      | error e => cases e <;> rfl
      | ok exceeded =>
        cases exceeded with
        | false => rfl
        | true => exact lawful.deployment_enforceBudget _ k'
  | elsewhere change =>
    dsimp only [AgentEvent.after, AgentEvent.change]
    split_ifs with hchanged
    · exact (change.lost k).resolve_left hchanged
    · exact not_not.mp hchanged

end ApiServer.Lawful

/-! ## What the changes of a run leave -/

open DeploymentChange

section Run

variable {changes : List DeploymentChange} {d : Deployment}

/-- The deployment after some changes, from nothing. -/
def leftBy (changes : List DeploymentChange) : Option Deployment :=
  changes.foldl (fun d change => change.apply d) none

/-- One more change. -/
theorem leftBy_concat (changes : List DeploymentChange) (change : DeploymentChange) :
    leftBy (changes ++ [change]) = change.apply (leftBy changes) := by
  unfold leftBy
  rw [List.foldl_append]
  rfl

/-- The deployment at the end of a run is what its changes leave. -/
theorem deployment_agentRun (lawful : server.Lawful) (conv : TextConversions) {k : κ}
    (hnew : server.deployment k = none) (events : List (AgentEvent server)) :
    server.deployment (agentRun conv k events).1 = leftBy (agentRun conv k events).2 := by
  induction events using List.reverseRecOn with
  | nil => exact hnew
  | append_singleton events e ih =>
    have hrun : agentRun conv k (events ++ [e]) =
        (e.after conv (agentRun conv k events).1,
          (agentRun conv k events).2 ++ (e.change conv (agentRun conv k events).1).toList) := by
      unfold agentRun
      rw [List.foldl_append]
      rfl
    have hafter := lawful.deployment_after conv e (agentRun conv k events).1
    rw [hrun]
    rw [ih] at hafter
    cases hchange : e.change conv (agentRun conv k events).1 with
    | none =>
      rw [hchange] at hafter
      rw [Option.toList_none, List.append_nil]
      exact hafter
    | some change =>
      rw [hchange] at hafter
      rw [Option.toList_some, leftBy_concat]
      exact hafter

/-- There is a deployment exactly if one was created and has not been removed since. -/
theorem leftBy_ne_none_iff : leftBy changes ≠ none ↔ Since Creates Removes changes := by
  induction changes using List.reverseRecOn with
  | nil => exact iff_of_false (fun hne => hne rfl) not_since_nil
  | append_singleton changes change ih =>
    rw [leftBy_concat, since_concat, ← ih]
    cases change with
    | created spec => simp [apply, Creates]
    | patched spec => simp [apply, Creates, Removes]
    | suspended => simp [apply, Creates, Removes]
    | removed => simp [apply, Creates, Removes]

/-- What the changes say of a deployment: its label is that of the spec that it was created with,
and its image and its replicas are those of the spec applied last, unless the agent has been
suspended since. -/
structure Recorded (changes : List DeploymentChange) (d : Deployment) : Prop where
  created : ∃ spec after, LatestOf (fun _ => createdSpec) changes spec after ∧
    d.capabilities = (buildDeploymentManifest spec).capabilities
  applied : ∃ spec after, LatestOf (fun _ => appliedSpec) changes spec after ∧
    d.image = spec.image ∧ d.replicas = if .suspended ∈ after then 0 else spec.replicas

/-- The deployment that the changes leave is as they say. -/
theorem recorded_of_leftBy (hd : leftBy changes = some d) : Recorded changes d := by
  induction changes using List.reverseRecOn generalizing d with
  | nil => cases hd
  | append_singleton changes change ih =>
    rw [leftBy_concat] at hd
    cases change with
    | created spec =>
      obtain rfl := Option.some.inj hd
      exact {
        created := ⟨spec, [], latestOf_concat.mpr (.inl ⟨rfl, rfl⟩), rfl⟩
        applied := ⟨spec, [], latestOf_concat.mpr (.inl ⟨rfl, rfl⟩), rfl, rfl⟩ }
    | patched spec =>
      obtain ⟨d₀, hd₀, rfl⟩ := Option.map_eq_some_iff.mp hd
      obtain ⟨created, after, hlatest, hlabel⟩ := (ih hd₀).created
      exact {
        created := ⟨created, after ++ [.patched spec],
          latestOf_concat.mpr (.inr ⟨rfl, after, rfl, hlatest⟩), hlabel⟩
        applied := ⟨spec, [], latestOf_concat.mpr (.inl ⟨rfl, rfl⟩), rfl, rfl⟩ }
    | suspended =>
      obtain ⟨d₀, hd₀, rfl⟩ := Option.map_eq_some_iff.mp hd
      obtain ⟨created, after, hlatest, hlabel⟩ := (ih hd₀).created
      obtain ⟨applied, since, hlatest', himage, -⟩ := (ih hd₀).applied
      have hmem : DeploymentChange.suspended ∈ since ++ [.suspended] := by simp
      exact {
        created := ⟨created, after ++ [.suspended],
          latestOf_concat.mpr (.inr ⟨rfl, after, rfl, hlatest⟩), hlabel⟩
        applied := ⟨applied, since ++ [.suspended],
          latestOf_concat.mpr (.inr ⟨rfl, since, rfl, hlatest'⟩), himage, (if_pos hmem).symm⟩ }
    | removed => cases hd

/-- After every run of the handlers of an agent, with any failures of a lawful API server: there is
a deployment exactly if one was created and not removed since, so that no update and no
reconciliation brings back a deployment that was lost. Its label of capabilities is that of the spec
that it was created with, whatever was applied later; its image is that of the spec applied last. It
has the replicas of that spec, or none if a reconciliation has suspended the agent since: no
reconciliation scales an agent up again, whatever the costs are later. -/
theorem deployment_exact (lawful : server.Lawful) (conv : TextConversions) {k : κ}
    (hnew : server.deployment k = none) (events : List (AgentEvent server)) :
    (server.deployment (agentRun conv k events).1 ≠ none ↔
        Since Creates Removes (agentRun conv k events).2) ∧
      ∀ d, server.deployment (agentRun conv k events).1 = some d →
        Recorded (agentRun conv k events).2 d := by
  rw [deployment_agentRun lawful conv hnew events]
  exact ⟨leftBy_ne_none_iff, fun d hd => recorded_of_leftBy hd⟩

/-- A server that answers the first request too late: its state has the number of requests so far
and the deployment. -/
def lateServer : ApiServer (ℕ × Option Deployment) where
  request r k :=
    match r.effect k.2 with
    | some d => (if k.1 = 0 then .otherException else .done, k.1 + 1, d)
    | none =>
      (.apiException (match r with | .createDeployment _ => 409 | _ => 404), k.1 + 1, k.2)
  read k := (if k.2 = none then .apiException 404 else .found none, k)
  deployment k := k.2

/-- The server does what is asked of it. -/
theorem lawful_lateServer : lateServer.Lawful where
  done r k hdone := by
    dsimp only [lateServer] at hdone ⊢
    cases heffect : r.effect k.2 with
    | none => rw [heffect] at hdone; cases hdone
    | some d => rfl
  failed r k _ := by
    dsimp only [lateServer]
    cases heffect : r.effect k.2 with
    | none => exact .inl rfl
    | some d => exact .inr rfl
  read k := rfl

/-- A creation whose answer is lost, so that it is tried again; a reconciliation over the budget;
and one below it, after the costs have fallen. -/
def overspent : List (AgentEvent lateServer) :=
  [.create (some { image := "coder:1", capabilities := ["code"] }),
    .create (some { image := "coder:1", capabilities := ["code"] }),
    .reconcile { budget := { maxCostPerHour := some "2" }, totalCost := some "2" },
    .reconcile { budget := { maxCostPerHour := some "2" }, totalCost := some "1" }]

/-- The reading of the two costs. -/
def costReader : TextConversions :=
  { unreadable with readFloat := fun text => some (.finite (if text = "1" then 1 else 2)) }

/-- The agent has been created once, and stays suspended. -/
theorem deployment_exact_overspent :
    (agentRun costReader (0, none) overspent).2 =
        [.created { image := "coder:1", capabilities := ["code"] }, .suspended] ∧
      Recorded (agentRun costReader (0, none) overspent).2
        { replicas := 0, image := "coder:1", capabilities := "code" } :=
  ⟨by decide +kernel,
    (deployment_exact lawful_lateServer costReader rfl overspent).2 _ (by decide +kernel)⟩

end Run

end MeshRouter.Operator
