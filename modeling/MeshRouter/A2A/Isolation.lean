import MeshRouter.A2A.TaskLifecycle
import MeshRouter.Lib.Isolation

/-!
# Tasks do not notice each other

The requests to a `TaskManager` that name a task, with the two that only read: `get_task` and
`is_terminal`. Each looks up the task that it names and writes this task only, so that the life of a
task does not depend on the other tasks that the manager holds (`tasks_isolated`).
-/

namespace MeshRouter.A2A

open Lib

/-- A request that names a task. -/
inductive TaskRequest where
  | call (c : TaskCall)
  | getTask (taskId : String)
  | isTerminal (taskId : String)
deriving DecidableEq

/-- What a request returns. -/
inductive TaskReply where
  | task (task : A2ATask)
  | flag (value : Bool)
deriving DecidableEq

/-- The task that a request names. -/
def TaskRequest.taskId : TaskRequest → String
  | .call c => c.taskId
  | .getTask taskId | .isTerminal taskId => taskId

/-- The request names the task. -/
def TaskRequest.concerns (taskId : String) (request : TaskRequest) : Bool :=
  request.taskId = taskId

namespace TaskManager

/-- `get_task`. -/
def getTask (m : TaskManager) (taskId : String) : Except TaskError A2ATask := m.getOrRaise taskId

/-- `is_terminal`. -/
def isTerminal (m : TaskManager) (taskId : String) : Except TaskError Bool :=
  (m.getOrRaise taskId).map fun task => task.status.state ∈ terminalStates

/-- What a request returns or raises, and the manager that it leaves. -/
def serve (m : TaskManager) : TaskRequest → Except TaskError TaskReply × TaskManager
  | .call c => ((m.call c).1.map .task, (m.call c).2)
  | .getTask taskId => ((m.getTask taskId).map .task, m)
  | .isTerminal taskId => ((m.isTerminal taskId).map .flag, m)

/-- What a task depends on: itself, and whether the manager tracks histories. -/
def view (taskId : String) (m : TaskManager) : Bool × Option A2ATask :=
  (m.trackHistory, m.tasks.get? taskId)

variable {m n : TaskManager} {taskId : String}

/-- No call changes whether histories are tracked. -/
theorem trackHistory_call (m : TaskManager) (c : TaskCall) :
    (m.call c).2.trackHistory = m.trackHistory := by
  rcases m.call_cases c with ⟨e, heq⟩ | ⟨message, now, -, heq⟩ | ⟨task, task', -, -, heq⟩
  · rw [heq]
  · rw [heq]
  · rw [heq]

/-- A task that is written. -/
theorem view_set (h : m.view taskId = n.view taskId) (task : A2ATask) :
    view taskId { m with tasks := m.tasks.set taskId task } =
      view taskId { n with tasks := n.tasks.set taskId task } := by
  obtain ⟨htrack, -⟩ := Prod.mk.inj h
  unfold view
  dsimp only
  rw [htrack, Dict.get?_set, Dict.get?_set, if_pos rfl, if_pos rfl]

/-- A task is found in its view. -/
theorem getOrRaise_congr (h : m.view taskId = n.view taskId) :
    m.getOrRaise taskId = n.getOrRaise taskId := by
  obtain ⟨-, htask⟩ := Prod.mk.inj h
  unfold getOrRaise
  rw [htask]

/-- A transition depends on its task and on the setting of the manager. -/
theorem transition_congr (h : m.view taskId = n.view taskId) (newState : TaskState)
    (message : Option A2AMessage) (now : ℚ) :
    (m.transition taskId newState message now).1 = (n.transition taskId newState message now).1 ∧
      (m.transition taskId newState message now).2.view taskId =
        (n.transition taskId newState message now).2.view taskId := by
  have hfound := getOrRaise_congr h
  obtain ⟨track, tasks⟩ := m
  obtain ⟨track', tasks'⟩ := n
  obtain rfl : track = track' := (Prod.mk.inj h).1
  unfold transition
  rw [hfound]
  cases getOrRaise ⟨track, tasks'⟩ taskId with
  | error e => exact ⟨rfl, h⟩
  | ok task =>
    dsimp only
    split_ifs
    · exact ⟨rfl, view_set h _⟩
    · exact ⟨rfl, view_set h _⟩
    · exact ⟨rfl, h⟩

/-- A request depends on the task that it names and on the setting of the manager. -/
theorem serve_congr (request : TaskRequest)
    (h : m.view request.taskId = n.view request.taskId) :
    (m.serve request).1 = (n.serve request).1 ∧
      (m.serve request).2.view request.taskId = (n.serve request).2.view request.taskId := by
  have hfound := getOrRaise_congr h
  cases request with
  | getTask taskId => exact ⟨congrArg (Except.map TaskReply.task) hfound, h⟩
  | isTerminal taskId =>
    refine ⟨?_, h⟩
    change (m.isTerminal taskId).map _ = (n.isTerminal taskId).map _
    unfold isTerminal
    rw [show m.getOrRaise taskId = n.getOrRaise taskId from hfound]
  | call c =>
    cases c with
    | createTask message id now => exact ⟨rfl, view_set h _⟩
    | transition taskId newState message now =>
      obtain ⟨hreply, hview⟩ := transition_congr h newState message now
      exact ⟨congrArg (Except.map TaskReply.task) hreply, hview⟩
    | cancelTask taskId now =>
      obtain ⟨hreply, hview⟩ := transition_congr h .CANCELED none now
      exact ⟨congrArg (Except.map TaskReply.task) hreply, hview⟩
    | addArtifact taskId artifact =>
      change m.getOrRaise taskId = n.getOrRaise taskId at hfound
      unfold serve call addArtifact
      dsimp only
      rw [hfound]
      cases n.getOrRaise taskId with
      | error e => exact ⟨rfl, h⟩
      | ok task => exact ⟨rfl, view_set h _⟩

/-- The manager isolates a task. -/
theorem isolates (taskId : String) :
    Isolates serve (view taskId) (TaskRequest.concerns taskId) where
  others m request hc := by
    have hne : taskId ≠ request.taskId := Ne.symm (of_decide_eq_false hc)
    cases request with
    | call c =>
      change view taskId (m.call c).2 = view taskId m
      unfold view
      rw [trackHistory_call, get?_call m hne]
    | getTask => rfl
    | isTerminal => rfl
  own m n request hc h := by
    obtain rfl := of_decide_eq_true hc
    exact serve_congr request h

end TaskManager

/-- In every interleaving of requests for any number of tasks: what the requests for one task return
or raise, and the task itself, are what they would be if the manager held this task alone. -/
theorem tasks_isolated (taskId : String) (m : TaskManager) (requests : List TaskRequest) :
    (replies TaskManager.serve (TaskRequest.concerns taskId) m requests =
        replies TaskManager.serve (TaskRequest.concerns taskId) m
          (requests.filter (TaskRequest.concerns taskId)) ∧
      (afterCalls TaskManager.serve m requests).view taskId =
        (afterCalls TaskManager.serve m
          (requests.filter (TaskRequest.concerns taskId))).view taskId) ∧
    ∀ others : List TaskRequest,
      requests.filter (TaskRequest.concerns taskId) =
          others.filter (TaskRequest.concerns taskId) →
      replies TaskManager.serve (TaskRequest.concerns taskId) m requests =
          replies TaskManager.serve (TaskRequest.concerns taskId) m others ∧
        (afterCalls TaskManager.serve m requests).view taskId =
          (afterCalls TaskManager.serve m others).view taskId :=
  ⟨(TaskManager.isolates taskId).alone m requests,
    fun _ hrequests => (TaskManager.isolates taskId).congr rfl hrequests⟩

end MeshRouter.A2A
