import Mathlib.Data.List.Chain
import Mathlib.Data.List.Infix
import MeshRouter.Lib.Dict
import MeshRouter.Lib.Runs
import MeshRouter.Value

/-!
# The life of an A2A task

The task models of `a2a/models.py` and the `TaskManager` of `a2a/task_lifecycle.py`. A call gives
its result and the manager that it leaves, so that what a call has changed when it raises is part of
the model. `create_task` takes the identifier that it draws, and the calls that record a status take
the time.

`task_lifecycle` says what holds in every run: the states of a task follow the state machine from
`SUBMITTED`, a terminal task keeps its status and its history, and a call changes its own task only,
and none if it raises.
-/

namespace MeshRouter.A2A

open Lib

/-- Valid states in the A2A task lifecycle state machine. -/
inductive TaskState where
  | SUBMITTED
  | WORKING
  | INPUT_REQUIRED
  | COMPLETED
  | FAILED
  | CANCELED
deriving DecidableEq

/-- A single content part within an A2A message. -/
structure MessagePart where
  type : String := "text"
  text : String := ""
deriving DecidableEq

/-- A message exchanged between user and agent within a task. -/
structure A2AMessage where
  role : String
  parts : List MessagePart
  metadata : Dict String Value := .empty
deriving DecidableEq

/-- A discrete output artifact produced by an agent during task execution. -/
structure Artifact where
  name : String
  description : String := ""
  parts : List MessagePart
  index : ℤ := 0
deriving DecidableEq

/-- Point-in-time snapshot of a task's state. -/
structure TaskStatus where
  state : TaskState
  message : Option A2AMessage := none
  timestamp : ℚ
deriving DecidableEq

/-- The full representation of an A2A task, including its history. -/
structure A2ATask where
  id : String
  status : TaskStatus
  artifacts : List Artifact := []
  /-- The prior statuses, oldest first. -/
  history : List TaskStatus := []
  metadata : Dict String Value := .empty
deriving DecidableEq

/-- `_VALID_TRANSITIONS`. -/
def validTransitions : TaskState → List TaskState
  | .SUBMITTED => [.WORKING, .CANCELED]
  | .WORKING => [.COMPLETED, .FAILED, .INPUT_REQUIRED, .CANCELED]
  | .INPUT_REQUIRED => [.WORKING, .CANCELED]
  | .COMPLETED => []
  | .FAILED => []
  | .CANCELED => []

/-- `_TERMINAL_STATES`. -/
def terminalStates : List TaskState := [.COMPLETED, .FAILED, .CANCELED]

/-- The errors of the manager. -/
inductive TaskError where
  /-- `TaskNotFoundError`: "Task … not found." -/
  | taskNotFound (taskId : String)
  /-- `InvalidTaskTransitionError`: "Cannot transition task … from … to …." -/
  | invalidTaskTransition (taskId : String) (currentState requestedState : TaskState)
deriving DecidableEq

/-- In-memory A2A task store with enforced state machine transitions. -/
structure TaskManager where
  trackHistory : Bool
  tasks : Dict String A2ATask := .empty
deriving DecidableEq

namespace TaskManager

/-- `__init__`. -/
def init (trackHistory : Bool) : TaskManager := { trackHistory := trackHistory }

/-- `create_task`, with the identifier that the new task draws. -/
def createTask (m : TaskManager) (initialMessage : A2AMessage) (id : String) (now : ℚ) :
    A2ATask × TaskManager :=
  let initialStatus : TaskStatus :=
    { state := .SUBMITTED, message := some initialMessage, timestamp := now }
  let task : A2ATask := { id := id, status := initialStatus }
  (task, { m with tasks := m.tasks.set task.id task })

/-- `_get_or_raise`. -/
def getOrRaise (m : TaskManager) (taskId : String) : Except TaskError A2ATask :=
  match m.tasks.get? taskId with
  | some task => .ok task
  | none => .error (.taskNotFound taskId)

/-- `transition`. -/
def transition (m : TaskManager) (taskId : String) (newState : TaskState)
    (message : Option A2AMessage) (now : ℚ) : Except TaskError A2ATask × TaskManager :=
  match m.getOrRaise taskId with
  | .error e => (.error e, m)
  | .ok task =>
    if newState ∉ validTransitions task.status.state then
      (.error (.invalidTaskTransition taskId task.status.state newState), m)
    else
      let task :=
        if m.trackHistory then { task with history := task.history ++ [task.status] } else task
      let task :=
        { task with status := { state := newState, message := message, timestamp := now } }
      (.ok task, { m with tasks := m.tasks.set taskId task })

/-- `cancel_task`. -/
def cancelTask (m : TaskManager) (taskId : String) (now : ℚ) :
    Except TaskError A2ATask × TaskManager :=
  m.transition taskId .CANCELED none now

/-- `add_artifact`. -/
def addArtifact (m : TaskManager) (taskId : String) (artifact : Artifact) :
    Except TaskError A2ATask × TaskManager :=
  match m.getOrRaise taskId with
  | .error e => (.error e, m)
  | .ok task =>
    let task := { task with artifacts := task.artifacts ++ [artifact] }
    (.ok task, { m with tasks := m.tasks.set taskId task })

end TaskManager

/-- A call on a task manager. -/
inductive TaskCall where
  | createTask (initialMessage : A2AMessage) (id : String) (now : ℚ)
  | transition (taskId : String) (newState : TaskState) (message : Option A2AMessage) (now : ℚ)
  | cancelTask (taskId : String) (now : ℚ)
  | addArtifact (taskId : String) (artifact : Artifact)
deriving DecidableEq

/-- The task that a call is about. -/
def TaskCall.taskId : TaskCall → String
  | .createTask _ id _ => id
  | .transition taskId _ _ _ => taskId
  | .cancelTask taskId _ => taskId
  | .addArtifact taskId _ => taskId

namespace TaskManager

/-- What a call returns or raises, and the manager that it leaves. -/
def call (m : TaskManager) : TaskCall → Except TaskError A2ATask × TaskManager
  | .createTask initialMessage id now =>
    let (task, m) := m.createTask initialMessage id now
    (.ok task, m)
  | .transition taskId newState message now => m.transition taskId newState message now
  | .cancelTask taskId now => m.cancelTask taskId now
  | .addArtifact taskId artifact => m.addArtifact taskId artifact

/-- A new task draws an identifier that no task has. -/
def DrawsFresh (m : TaskManager) : TaskCall → Prop
  | .createTask _ id _ => id ∉ m.tasks.keys
  | _ => True

instance (m : TaskManager) (c : TaskCall) : Decidable (m.DrawsFresh c) :=
  match c with
  | .createTask _ id _ => inferInstanceAs (Decidable (id ∉ m.tasks.keys))
  | .transition _ _ _ _ => isTrue trivial
  | .cancelTask _ _ => isTrue trivial
  | .addArtifact _ _ => isTrue trivial

/-- The manager after a call, whether it returned or raised. -/
def step (m : TaskManager) (c : TaskCall) : Option TaskManager :=
  if m.DrawsFresh c then some (m.call c).2 else none

end TaskManager

/-- A state is terminal exactly when it allows no transition. -/
theorem mem_terminalStates_iff {state : TaskState} :
    state ∈ terminalStates ↔ validTransitions state = [] := by
  cases state <;> decide

/-- What a successful call does to a task that exists. -/
inductive TaskStep (trackHistory : Bool) (task : A2ATask) : A2ATask → Prop
  | moved (status : TaskStatus) (hvalid : status.state ∈ validTransitions task.status.state) :
    TaskStep trackHistory task { task with
      status := status
      history := if trackHistory then task.history ++ [task.status] else task.history }
  | gained (artifact : Artifact) :
    TaskStep trackHistory task { task with artifacts := task.artifacts ++ [artifact] }

namespace TaskManager

variable {m m' : TaskManager} {c : TaskCall}

/-- A task that is not registered is not found. -/
theorem getOrRaise_cases (m : TaskManager) (taskId : String) :
    m.getOrRaise taskId = .error (.taskNotFound taskId) ∨
      ∃ task, m.tasks.get? taskId = some task ∧ m.getOrRaise taskId = .ok task := by
  unfold getOrRaise
  cases hget : m.tasks.get? taskId with
  | none => exact Or.inl rfl
  | some task => exact Or.inr ⟨task, rfl, rfl⟩

/-- A transition raises and changes nothing, or moves its task along a valid edge. -/
theorem transition_cases (m : TaskManager) (taskId : String) (newState : TaskState)
    (message : Option A2AMessage) (now : ℚ) :
    (∃ e, m.transition taskId newState message now = (.error e, m)) ∨
    ∃ task task', m.tasks.get? taskId = some task ∧ TaskStep m.trackHistory task task' ∧
      m.transition taskId newState message now =
        (.ok task', { m with tasks := m.tasks.set taskId task' }) := by
  unfold transition
  rcases m.getOrRaise_cases taskId with heq | ⟨task, hget, heq⟩
  · rw [heq]
    exact Or.inl ⟨_, rfl⟩
  · rw [heq]
    dsimp only
    split_ifs with hvalid hhistory
    · refine Or.inr ⟨task, _, hget, ?_, rfl⟩
      have hstep : TaskStep m.trackHistory task _ :=
        .moved { state := newState, message := message, timestamp := now } hvalid
      rwa [if_pos hhistory] at hstep
    · refine Or.inr ⟨task, _, hget, ?_, rfl⟩
      have hstep : TaskStep m.trackHistory task _ :=
        .moved { state := newState, message := message, timestamp := now } hvalid
      rwa [if_neg hhistory] at hstep
    · exact Or.inl ⟨_, rfl⟩

/-- What a call does: it raises and changes nothing, adds a task in the state `SUBMITTED`, or takes
a step with its task. -/
theorem call_cases (m : TaskManager) (c : TaskCall) :
    (∃ e, m.call c = (.error e, m)) ∨
    (∃ message now, c = .createTask message c.taskId now ∧
      let task : A2ATask :=
        { id := c.taskId
          status := { state := .SUBMITTED, message := some message, timestamp := now } }
      m.call c = (.ok task, { m with tasks := m.tasks.set c.taskId task })) ∨
    ∃ task task', m.tasks.get? c.taskId = some task ∧ TaskStep m.trackHistory task task' ∧
      m.call c = (.ok task', { m with tasks := m.tasks.set c.taskId task' }) := by
  cases c with
  | createTask message id now => exact Or.inr (Or.inl ⟨message, now, rfl, rfl⟩)
  | transition taskId newState message now =>
    rcases m.transition_cases taskId newState message now with herror | hstep
    · exact Or.inl herror
    · exact Or.inr (Or.inr hstep)
  | cancelTask taskId now =>
    rcases m.transition_cases taskId .CANCELED none now with herror | hstep
    · exact Or.inl herror
    · exact Or.inr (Or.inr hstep)
  | addArtifact taskId artifact =>
    rcases m.getOrRaise_cases taskId with heq | ⟨task, hget, heq⟩
    · refine Or.inl ⟨.taskNotFound taskId, ?_⟩
      unfold call addArtifact
      dsimp only
      rw [heq]
    · refine Or.inr (Or.inr ⟨task, _, hget, .gained artifact, ?_⟩)
      unfold call addArtifact
      dsimp only
      rw [heq]
      rfl

/-- A call that raises changes nothing. -/
theorem call_of_error {e : TaskError} (h : (m.call c).1 = .error e) : (m.call c).2 = m := by
  rcases m.call_cases c with ⟨e', heq⟩ | ⟨message, now, -, heq⟩ | ⟨task, task', -, -, heq⟩
  · rw [heq]
  · rw [heq] at h
    cases h
  · rw [heq] at h
    cases h

/-- A call leaves the other tasks as they are. -/
theorem get?_call (m : TaskManager) {id : String} (hne : id ≠ c.taskId) :
    (m.call c).2.tasks.get? id = m.tasks.get? id := by
  rcases m.call_cases c with ⟨e, heq⟩ | ⟨message, now, -, heq⟩ | ⟨task, task', -, -, heq⟩
  · rw [heq]
  · rw [heq]
    exact (Dict.get?_set ..).trans (if_neg hne)
  · rw [heq]
    exact (Dict.get?_set ..).trans (if_neg hne)

end TaskManager

/-- The states of a task: those of its history, then the current one. -/
def A2ATask.states (task : A2ATask) : List TaskState :=
  (task.history ++ [task.status]).map TaskStatus.state

/-- A path of the state machine that starts at `SUBMITTED`. -/
def IsLifecycle (states : List TaskState) : Prop :=
  states.head? = some .SUBMITTED ∧ states.IsChain fun a b => b ∈ validTransitions a

/-- A step with a recorded history extends the path. -/
theorem TaskStep.isLifecycle {task task' : A2ATask} (h : TaskStep true task task')
    (hpath : IsLifecycle task.states) : IsLifecycle task'.states := by
  cases h with
  | gained artifact => exact hpath
  | moved status hvalid =>
    obtain ⟨hhead, hchain⟩ := hpath
    unfold A2ATask.states at hhead hchain ⊢
    simp only [if_true, List.map_append, List.map_cons, List.map_nil] at hhead hchain ⊢
    refine ⟨?_, ?_⟩
    · rw [List.head?_append, hhead]
      rfl
    · -- The last state of the path is the current one, which allows the new state.
      refine hchain.append (List.isChain_singleton _) fun x hx y hy => ?_
      rw [List.getLast?_concat, Option.mem_some_iff] at hx
      rw [List.head?_cons, Option.mem_some_iff] at hy
      rwa [← hx, ← hy]

/-- What is left of a task by later calls: its artifacts are a prefix of the later ones, and a
terminal task keeps its status and its history. -/
structure Succeeds (task task' : A2ATask) : Prop where
  id : task'.id = task.id
  artifacts : task.artifacts <+: task'.artifacts
  terminal : task.status.state ∈ terminalStates →
    task'.status = task.status ∧ task'.history = task.history

/-- A task succeeds itself. -/
theorem Succeeds.refl (task : A2ATask) : Succeeds task task :=
  ⟨rfl, List.prefix_refl _, fun _ => ⟨rfl, rfl⟩⟩

/-- Two successions compose. -/
theorem Succeeds.trans {task task' task'' : A2ATask} (h : Succeeds task task')
    (h' : Succeeds task' task'') : Succeeds task task'' := by
  refine ⟨h'.id.trans h.id, h.artifacts.trans h'.artifacts, fun hterminal => ?_⟩
  obtain ⟨hstatus, hhistory⟩ := h.terminal hterminal
  obtain ⟨hstatus', hhistory'⟩ := h'.terminal (hstatus ▸ hterminal)
  exact ⟨hstatus'.trans hstatus, hhistory'.trans hhistory⟩

/-- A step is a succession: a terminal task allows no move. -/
theorem TaskStep.succeeds {trackHistory : Bool} {task task' : A2ATask}
    (h : TaskStep trackHistory task task') : Succeeds task task' := by
  cases h with
  | gained artifact => exact ⟨rfl, List.prefix_append _ _, fun _ => ⟨rfl, rfl⟩⟩
  | moved status hvalid =>
    refine ⟨rfl, List.prefix_refl _, fun hterminal => ?_⟩
    rw [mem_terminalStates_iff.mp hterminal] at hvalid
    cases hvalid

namespace TaskManager

variable {m m' : TaskManager} {c : TaskCall} {cs : List TaskCall}

/-- Every task of the manager is registered under its identifier, and its states are a path. -/
structure Lawful (m : TaskManager) : Prop where
  trackHistory : m.trackHistory = true
  id : ∀ id task, m.tasks.get? id = some task → task.id = id
  path : ∀ id task, m.tasks.get? id = some task → IsLifecycle task.states

/-- A call keeps the manager lawful. -/
theorem Lawful.step (h : Lawful m) (hst : m.step c = some m') : Lawful m' := by
  unfold TaskManager.step at hst
  split_ifs at hst
  obtain rfl := Option.some.inj hst
  rcases m.call_cases c with ⟨e, heq⟩ | ⟨message, now, -, heq⟩ | ⟨task, task', hget, hstep, heq⟩
  · rw [heq]
    exact h
  · rw [heq]
    refine ⟨h.trackHistory, fun id task hid => ?_, fun id task hid => ?_⟩
    · rw [Dict.get?_set] at hid
      split_ifs at hid with hid'
      · rw [← Option.some.inj hid]
        exact hid'.symm
      · exact h.id id task hid
    · rw [Dict.get?_set] at hid
      split_ifs at hid with hid'
      · rw [← Option.some.inj hid]
        exact ⟨rfl, List.isChain_singleton _⟩
      · exact h.path id task hid
  · rw [heq]
    rw [h.trackHistory] at hstep
    refine ⟨h.trackHistory, fun id task'' hid => ?_, fun id task'' hid => ?_⟩
    · rw [Dict.get?_set] at hid
      split_ifs at hid with hid'
      · rw [← Option.some.inj hid, hid', hstep.succeeds.id]
        exact h.id _ _ hget
      · exact h.id id task'' hid
    · rw [Dict.get?_set] at hid
      split_ifs at hid with hid'
      · rw [← Option.some.inj hid]
        exact hstep.isLifecycle (h.path _ _ hget)
      · exact h.path id task'' hid

/-- After a call, every task is still there and succeeds what it was. -/
theorem succeeds_step (hst : m.step c = some m') {id : String} {task : A2ATask}
    (hid : m.tasks.get? id = some task) :
    ∃ task', m'.tasks.get? id = some task' ∧ Succeeds task task' := by
  unfold TaskManager.step at hst
  split_ifs at hst with hfresh
  obtain rfl := Option.some.inj hst
  by_cases hne : id = c.taskId
  · rcases m.call_cases c with ⟨e, heq⟩ | ⟨message, now, hc, heq⟩ | ⟨task₀, task', hget, hstep, heq⟩
    · rw [heq]
      exact ⟨task, hid, .refl task⟩
    · rw [hc] at hfresh
      exact absurd (Dict.mem_keys_of_get? hid) (hne ▸ hfresh)
    · obtain rfl : task₀ = task := Option.some.inj (hget.symm.trans (hne ▸ hid))
      rw [heq]
      exact ⟨task', (Dict.get?_set ..).trans (if_pos hne), hstep.succeeds⟩
  · exact ⟨task, (m.get?_call hne).trans hid, .refl task⟩

/-- After a run, every task is still there and succeeds what it was. -/
theorem succeeds_run (h : run step m cs = some m') {id : String} {task : A2ATask}
    (hid : m.tasks.get? id = some task) :
    ∃ task', m'.tasks.get? id = some task' ∧ Succeeds task task' := by
  refine run_induction
    (I := fun m' => ∃ task', m'.tasks.get? id = some task' ∧ Succeeds task task') ?_
    ⟨task, hid, .refl task⟩ h
  rintro m c m' ⟨task', hid', hsucceeds⟩ hst
  obtain ⟨task'', hid'', hsucceeds'⟩ := succeeds_step hst hid'
  exact ⟨task'', hid'', hsucceeds.trans hsucceeds'⟩

/-- In every run that tracks the history: the states of every task are a path of the state machine
from `SUBMITTED`; in the rest of the run a terminal task keeps its status and its history, and the
artifacts of a task are only appended to; a call that raises changes nothing; and a call changes
no task but its own. -/
theorem task_lifecycle (h : run step (.init true) cs = some m) :
    (∀ id task, m.tasks.get? id = some task → task.id = id ∧ IsLifecycle task.states) ∧
    (∀ cs' m', run step m cs' = some m' → ∀ id task, m.tasks.get? id = some task →
      ∃ task', m'.tasks.get? id = some task' ∧ task.artifacts <+: task'.artifacts ∧
        (task.status.state ∈ terminalStates →
          task'.status = task.status ∧ task'.history = task.history)) ∧
    (∀ c e, (m.call c).1 = .error e → (m.call c).2 = m) ∧
    ∀ c task, (m.call c).1 = .ok task → ∀ id, id ≠ c.taskId →
      (m.call c).2.tasks.get? id = m.tasks.get? id := by
  have hempty : Lawful (.init true) := ⟨rfl, by simp [init], by simp [init]⟩
  have hlawful : Lawful m :=
    run_induction (I := Lawful) (fun _ _ _ hI hst => hI.step hst) hempty h
  refine ⟨fun id task hid => ⟨hlawful.id id task hid, hlawful.path id task hid⟩, ?_, ?_, ?_⟩
  · intro cs' m' hrest id task hid
    obtain ⟨task', hid', hsucceeds⟩ := succeeds_run hrest hid
    exact ⟨task', hid', hsucceeds.artifacts, hsucceeds.terminal⟩
  · intro c e herror
    exact call_of_error herror
  · intro c task _ id hne
    exact m.get?_call hne

/-- The first message of a task. -/
def hello : A2AMessage := { role := "user", parts := [{ text := "hello" }] }

/-- A task is worked on and canceled, and is then asked to complete, which raises. -/
def canceledTask : List TaskCall :=
  [.createTask hello "t1" 0, .transition "t1" .WORKING none 1,
    .addArtifact "t1" { name := "draft", parts := [] }, .cancelTask "t1" 2,
    .transition "t1" .COMPLETED none 3]

/-- `task_lifecycle` on a task that is canceled. -/
theorem task_lifecycle_canceledTask :
    ∃ m task, run step (.init true) canceledTask = some m ∧ m.tasks.get? "t1" = some task ∧
      task.states = [.SUBMITTED, .WORKING, .CANCELED] ∧ IsLifecycle task.states := by
  obtain ⟨m, hm, hstates⟩ := Option.map_eq_some_iff.mp
    (show (run step (.init true) canceledTask).map
      (fun m => (m.tasks.get? "t1").map A2ATask.states) =
        some (some [.SUBMITTED, .WORKING, .CANCELED]) by decide +kernel)
  obtain ⟨task, htask, hstates⟩ := Option.map_eq_some_iff.mp hstates
  exact ⟨m, task, hm, htask, hstates, ((task_lifecycle hm).1 "t1" task htask).2⟩

end TaskManager

end MeshRouter.A2A
