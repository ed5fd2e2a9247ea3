import Mathlib.Algebra.Order.Field.Basic
import Mathlib.Data.List.Basic
import MeshRouter.Backpressure.Monitor

/-!
# The task queue with backpressure

`BackpressureQueue` of `backpressure/task_queue.py`. Its methods are composed of atomic parts: a
call on the bounded `queue.Queue` that holds the tasks, and a section that holds the lock and keeps
the books. The parts are defined first and the methods, run without interruption, from them.
-/

namespace MeshRouter.Backpressure

open Lib

/-- What is offered as a task: an object, of which the queue asks whether it can be called. -/
structure Task where
  object : String
  callable : Bool := true
deriving DecidableEq

/-- The parameters of a queue, with the bounds that `__init__` checks. -/
structure QueueConfig where
  maxSize : ℕ := 100
  queueName : String := "backpressure_queue"
  highWatermark : ℚ := 8 / 10
  lowWatermark : ℚ := 1 / 2
  maxSize_pos : 1 ≤ maxSize
  highWatermark_pos : 0 < highWatermark
  highWatermark_le : highWatermark ≤ 1
  lowWatermark_nonneg : 0 ≤ lowWatermark
  lowWatermark_lt : lowWatermark < highWatermark

/-- What a method of the queue can raise. -/
inductive QueueError where
  /-- `TypeError`: "task must be callable, got …." -/
  | notCallable
  /-- `ValueError`: "'timeout' must be a non-negative number", from `queue.Queue`. -/
  | negativeTimeout
  /-- `QueueFullError`: "Queue … is full (… tasks)." -/
  | queueFull (queueName : String) (maxSize : ℕ)
  /-- `QueueEmptyError`: "Queue … is empty." -/
  | queueEmpty (queueName : String)
  /-- What `update_depth` raised. -/
  | monitor (error : MonitorError)
deriving DecidableEq

/-- Bounded task queue with backpressure awareness. -/
structure BackpressureQueue where
  /-- The tasks in `queue.Queue`, the next to leave first. -/
  q : List Task := []
  enqueuedTotal : ℕ := 0
  dequeuedTotal : ℕ := 0
  droppedTotal : ℕ := 0
  underPressure : Bool := false
  monitor : BackpressureMonitor
deriving DecidableEq

/-- How long a call waits for room or for a task: the arguments `block` and `timeout`. -/
structure Waiting where
  block : Bool := true
  timeout : Option ℚ := none
deriving DecidableEq

/-- `queue.Queue` refuses a negative timeout of a call that may wait. -/
def Waiting.negative (w : Waiting) : Bool :=
  w.block && match w.timeout with
    | none => false
    | some timeout => decide (timeout < 0)

/-- The call waits as long as it has to. -/
def Waiting.forever (w : Waiting) : Bool := w.block && w.timeout.isNone

namespace BackpressureQueue

variable (cfg : QueueConfig)

/-- `__init__`, with the monitor that is given or created. -/
def init (monitor : BackpressureMonitor) : BackpressureQueue :=
  { monitor := (monitor.registerQueue cfg.queueName cfg.maxSize 1).2 }

/-- `qsize`. -/
def size (bq : BackpressureQueue) : ℕ := bq.q.length

/-- `current_size / self._max_size`. -/
def fill (bq : BackpressureQueue) : ℚ := bq.size / cfg.maxSize

/-! ## The atomic parts -/

/-- `queue.Queue.put` puts the task if there is room. -/
def putTask (bq : BackpressureQueue) (task : Task) : Option BackpressureQueue :=
  if bq.q.length < cfg.maxSize then some { bq with q := bq.q ++ [task] } else none

/-- `queue.Queue.get` takes a task if there is one. -/
def getTask (bq : BackpressureQueue) : Option (Task × BackpressureQueue) :=
  match bq.q with
  | [] => none
  | task :: rest => some (task, { bq with q := rest })

/-- `self._monitor.update_depth` at the end of a section. -/
def updateDepth (bq : BackpressureQueue) (depth : ℤ) :
    Except QueueError Unit × BackpressureQueue :=
  match bq.monitor.updateDepth cfg.queueName depth with
  | (.ok (), monitor) => (.ok (), { bq with monitor := monitor })
  | (.error e, monitor) => (.error (.monitor e), { bq with monitor := monitor })

/-- The section of `enqueue` after its put. -/
def enqueueSection (bq : BackpressureQueue) : Except QueueError Unit × BackpressureQueue :=
  let bq := { bq with enqueuedTotal := bq.enqueuedTotal + 1 }
  let currentSize := bq.size
  let bq :=
    if cfg.highWatermark ≤ bq.fill cfg ∧ ¬ bq.underPressure then
      { bq with underPressure := true }
    else
      bq
  bq.updateDepth cfg currentSize

/-- The section of `enqueue` when the queue was full. -/
def dropSection (bq : BackpressureQueue) : BackpressureQueue :=
  { bq with droppedTotal := bq.droppedTotal + 1 }

/-- The section of `dequeue`. -/
def dequeueSection (bq : BackpressureQueue) : Except QueueError Unit × BackpressureQueue :=
  let bq := { bq with dequeuedTotal := bq.dequeuedTotal + 1 }
  let currentSize := bq.size
  let bq :=
    if bq.fill cfg < cfg.lowWatermark ∧ bq.underPressure then
      { bq with underPressure := false }
    else
      bq
  bq.updateDepth cfg currentSize

/-- The section of `drain`, which has taken `taken` tasks: it reports the depth zero and clears the
flag, whatever the queue holds by then. -/
def drainSection (bq : BackpressureQueue) (taken : ℕ) :
    Except QueueError Unit × BackpressureQueue :=
  let bq := { bq with dequeuedTotal := bq.dequeuedTotal + taken }
  match bq.updateDepth cfg 0 with
  | (.ok (), bq) =>
    (.ok (), if bq.underPressure then { bq with underPressure := false } else bq)
  | (.error e, bq) => (.error e, bq)

/-! ## The methods, run without interruption

`none` means that the method waits, and nothing happens any more. -/

/-- `enqueue`. -/
def enqueue (bq : BackpressureQueue) (task : Task) (w : Waiting) :
    Option (Except QueueError Unit × BackpressureQueue) :=
  if ¬ task.callable then
    some (.error .notCallable, bq)
  else if w.negative then
    some (.error .negativeTimeout, bq)
  else
    match bq.putTask cfg task with
    | some bq => some (bq.enqueueSection cfg)
    | none =>
      if w.forever then
        none
      else
        some (.error (.queueFull cfg.queueName cfg.maxSize), bq.dropSection)

/-- `dequeue`. -/
def dequeue (bq : BackpressureQueue) (w : Waiting) :
    Option (Except QueueError Task × BackpressureQueue) :=
  if w.negative then
    some (.error .negativeTimeout, bq)
  else
    match bq.getTask with
    | some (task, bq) =>
      match bq.dequeueSection cfg with
      | (.ok (), bq) => some (.ok task, bq)
      | (.error e, bq) => some (.error e, bq)
    | none =>
      if w.forever then
        none
      else
        some (.error (.queueEmpty cfg.queueName), bq)

/-- The loop of `drain`, for so many turns: it takes a task in each until there is none. -/
def takeAll : ℕ → BackpressureQueue → List Task × BackpressureQueue
  | 0, bq => ([], bq)
  | turns + 1, bq =>
    match bq.getTask with
    | none => ([], bq)
    | some (task, bq) =>
      let (tasks, bq) := takeAll turns bq
      (task :: tasks, bq)

/-- `drain`, whose loop ends after a turn for each task and one that finds the queue empty. -/
def drain (bq : BackpressureQueue) : Except QueueError (List Task) × BackpressureQueue :=
  let (tasks, bq) := takeAll (bq.size + 1) bq
  match bq.drainSection cfg tasks.length with
  | (.ok (), bq) => (.ok tasks, bq)
  | (.error e, bq) => (.error e, bq)

/-! ## What the parts do

The sections update the depth without an error if the monitor knows the queue. -/

variable {cfg} {bq : BackpressureQueue}

/-- A put adds the task at the end. -/
theorem putTask_cases (cfg : QueueConfig) (bq : BackpressureQueue) (task : Task) :
    bq.size < cfg.maxSize ∧ bq.putTask cfg task = some { bq with q := bq.q ++ [task] } ∨
      cfg.maxSize ≤ bq.size ∧ bq.putTask cfg task = none := by
  unfold putTask size
  split_ifs with hroom
  · exact Or.inl ⟨hroom, rfl⟩
  · exact Or.inr ⟨not_lt.mp hroom, rfl⟩

/-- A get takes the first task. -/
theorem getTask_cases (bq : BackpressureQueue) :
    bq.q = [] ∧ bq.getTask = none ∨
      ∃ task rest, bq.q = task :: rest ∧ bq.getTask = some (task, { bq with q := rest }) := by
  unfold getTask
  cases hq : bq.q with
  | nil => exact Or.inl ⟨rfl, rfl⟩
  | cons task rest => exact Or.inr ⟨task, rest, rfl, rfl⟩

/-- An update of the depth of a registered queue. -/
theorem updateDepth_eq (bq : BackpressureQueue) {old : ℤ}
    (h : bq.monitor.depth? cfg.queueName = some old) (depth : ℕ) :
    ∃ monitor : BackpressureMonitor, monitor.depth? cfg.queueName = some (depth : ℤ) ∧
      bq.updateDepth cfg depth = (.ok (), { bq with monitor := monitor }) := by
  have hupdate := BackpressureMonitor.updateDepth_of_registered h (Int.natCast_nonneg depth)
  refine ⟨(bq.monitor.updateDepth cfg.queueName depth).2, hupdate.2, ?_⟩
  unfold updateDepth
  rcases hresult : bq.monitor.updateDepth cfg.queueName depth with ⟨_ | ⟨⟩, monitor⟩
  · rw [hresult] at hupdate
    cases hupdate.1
  · rfl

/-- The section of `enqueue` counts the task, raises the flag at the high watermark and reports the
depth. -/
theorem enqueueSection_eq (bq : BackpressureQueue) {old : ℤ}
    (h : bq.monitor.depth? cfg.queueName = some old) :
    ∃ monitor : BackpressureMonitor, monitor.depth? cfg.queueName = some (bq.size : ℤ) ∧
      bq.enqueueSection cfg = (.ok (), { bq with
        enqueuedTotal := bq.enqueuedTotal + 1
        underPressure := bq.underPressure || decide (cfg.highWatermark ≤ bq.fill cfg)
        monitor := monitor }) := by
  unfold enqueueSection
  dsimp only
  split_ifs with hflag
  · obtain ⟨monitor, hdepth, heq⟩ := updateDepth_eq
      { bq with enqueuedTotal := bq.enqueuedTotal + 1, underPressure := true } h bq.size
    refine ⟨monitor, hdepth, heq.trans ?_⟩
    rw [decide_eq_true (show cfg.highWatermark ≤ bq.fill cfg from hflag.1), Bool.or_true]
  · obtain ⟨monitor, hdepth, heq⟩ := updateDepth_eq
      { bq with enqueuedTotal := bq.enqueuedTotal + 1 } h bq.size
    refine ⟨monitor, hdepth, heq.trans ?_⟩
    have hsame : (bq.underPressure || decide (cfg.highWatermark ≤ bq.fill cfg)) =
        bq.underPressure := by
      by_cases hpressure : bq.underPressure = true
      · rw [hpressure, Bool.true_or]
      · have hbelow : ¬ cfg.highWatermark ≤ bq.fill cfg := fun hhigh => hflag ⟨hhigh, hpressure⟩
        rw [decide_eq_false hbelow, Bool.or_false]
    rw [hsame]

/-- The section of `dequeue` counts the task, clears the flag below the low watermark and reports
the depth. -/
theorem dequeueSection_eq (bq : BackpressureQueue) {old : ℤ}
    (h : bq.monitor.depth? cfg.queueName = some old) :
    ∃ monitor : BackpressureMonitor, monitor.depth? cfg.queueName = some (bq.size : ℤ) ∧
      bq.dequeueSection cfg = (.ok (), { bq with
        dequeuedTotal := bq.dequeuedTotal + 1
        underPressure := bq.underPressure && decide (cfg.lowWatermark ≤ bq.fill cfg)
        monitor := monitor }) := by
  unfold dequeueSection
  dsimp only
  split_ifs with hflag
  · obtain ⟨monitor, hdepth, heq⟩ := updateDepth_eq
      { bq with dequeuedTotal := bq.dequeuedTotal + 1, underPressure := false } h bq.size
    refine ⟨monitor, hdepth, heq.trans ?_⟩
    rw [decide_eq_false (show ¬ cfg.lowWatermark ≤ bq.fill cfg from not_le.mpr hflag.1),
      Bool.and_false]
  · obtain ⟨monitor, hdepth, heq⟩ := updateDepth_eq
      { bq with dequeuedTotal := bq.dequeuedTotal + 1 } h bq.size
    refine ⟨monitor, hdepth, heq.trans ?_⟩
    have hsame : (bq.underPressure && decide (cfg.lowWatermark ≤ bq.fill cfg)) =
        bq.underPressure := by
      by_cases hpressure : bq.underPressure = true
      · have hat : cfg.lowWatermark ≤ bq.fill cfg :=
          not_lt.mp fun hbelow => hflag ⟨hbelow, hpressure⟩
        rw [decide_eq_true hat, Bool.and_true]
      · rw [Bool.not_eq_true] at hpressure
        rw [hpressure, Bool.false_and]
    rw [hsame]

/-- The section of `drain` counts the tasks, reports the depth zero and clears the flag. -/
theorem drainSection_eq (bq : BackpressureQueue) {old : ℤ}
    (h : bq.monitor.depth? cfg.queueName = some old) (taken : ℕ) :
    ∃ monitor : BackpressureMonitor, monitor.depth? cfg.queueName = some 0 ∧
      bq.drainSection cfg taken = (.ok (), { bq with
        dequeuedTotal := bq.dequeuedTotal + taken
        underPressure := false
        monitor := monitor }) := by
  obtain ⟨monitor, hdepth, heq⟩ := updateDepth_eq
    { bq with dequeuedTotal := bq.dequeuedTotal + taken } h 0
  refine ⟨monitor, hdepth, ?_⟩
  unfold drainSection
  dsimp only
  rw [Nat.cast_zero] at heq
  rw [heq]
  dsimp only
  split_ifs with hpressure
  · rfl
  · rw [Bool.not_eq_true] at hpressure
    rw [hpressure]

/-- The update of the depth raises if the queue is not registered. -/
theorem updateDepth_error (bq : BackpressureQueue)
    (h : bq.monitor.depth? cfg.queueName = none) (depth : ℕ) :
    bq.updateDepth cfg depth = (.error (.monitor (.notRegistered cfg.queueName)), bq) := by
  unfold updateDepth
  rw [BackpressureMonitor.updateDepth_of_unregistered h (Int.natCast_nonneg depth)]

/-- The section of `enqueue` raises if the queue is not registered. -/
theorem enqueueSection_error (bq : BackpressureQueue)
    (h : bq.monitor.depth? cfg.queueName = none) :
    (bq.enqueueSection cfg).1 = .error (.monitor (.notRegistered cfg.queueName)) := by
  unfold enqueueSection
  dsimp only
  split_ifs
  · exact congrArg Prod.fst (updateDepth_error _ (by exact h) _)
  · exact congrArg Prod.fst (updateDepth_error _ (by exact h) _)

/-- The section of `dequeue` raises if the queue is not registered. -/
theorem dequeueSection_error (bq : BackpressureQueue)
    (h : bq.monitor.depth? cfg.queueName = none) :
    (bq.dequeueSection cfg).1 = .error (.monitor (.notRegistered cfg.queueName)) := by
  unfold dequeueSection
  dsimp only
  split_ifs
  · exact congrArg Prod.fst (updateDepth_error _ (by exact h) _)
  · exact congrArg Prod.fst (updateDepth_error _ (by exact h) _)

/-- The section of `drain` raises if the queue is not registered, and has counted the tasks by then.
-/
theorem drainSection_error (bq : BackpressureQueue)
    (h : bq.monitor.depth? cfg.queueName = none) (taken : ℕ) :
    bq.drainSection cfg taken = (.error (.monitor (.notRegistered cfg.queueName)),
      { bq with dequeuedTotal := bq.dequeuedTotal + taken }) := by
  have hupdate := updateDepth_error { bq with dequeuedTotal := bq.dequeuedTotal + taken } h 0
  unfold drainSection
  dsimp only
  rw [Nat.cast_zero] at hupdate
  rw [hupdate]

/-- Given enough turns, the loop of `drain` takes every task. -/
theorem takeAll_eq {turns : ℕ} (h : bq.size < turns) :
    takeAll turns bq = (bq.q, { bq with q := [] }) := by
  induction turns generalizing bq with
  | zero => cases h
  | succ turns ih =>
    unfold takeAll
    rcases bq.getTask_cases with ⟨hq, hget⟩ | ⟨task, rest, hq, hget⟩
    · rw [hget, hq]
      dsimp only
      rw [← hq]
    · have hless : ({ bq with q := rest } : BackpressureQueue).size < turns := by
        unfold size at h ⊢
        rw [hq, List.length_cons] at h
        exact Nat.lt_of_succ_lt_succ h
      rw [hget]
      dsimp only
      rw [ih hless, hq]

end BackpressureQueue

end MeshRouter.Backpressure
