import MeshRouter.Broker.MessageBroker
import MeshRouter.Lib.Runs

/-!
# Runs of a message broker

The broker with its workers, its callers, and the clock. The state says where each worker stands in
`_dispatch_loop`, which publishes wait for room in the queue, and which calls of `stop` are under
way. A step is what one of them does between two points at which others can run, so a list of
`BrokerAction`s is an interleaving of any number of workers and callers. What the handlers do, when
a wait times out, and in which order a set of targets is traversed are choices of the run.

The state carries a history in its `Ledger`: what was accepted, what was handed to a handler, and
what was dead-lettered. The history is written by the steps and read by no operation of the broker.
-/

namespace MeshRouter.Broker

open Lib Messages

/-- How a call of a handler ends. -/
inductive HandlerOutcome where
  | returned
  /-- By an `Exception`, whose `str` is a message, or raises another `Exception` (`none`). -/
  | raised (message : Option String)
  /-- By a `CancelledError` or another exception that is no `Exception`, which `_deliver_to` does
  not catch. -/
  | cancelledError
deriving DecidableEq

/-- An envelope that a publish accepted, with its sequence number unless it was dead-lettered at
once. -/
structure Receipt where
  envelope : MessageEnvelope
  sequence : Option ℕ
deriving DecidableEq

/-- The receipt of an item. -/
def QueueItem.receipt (item : QueueItem) : Receipt := ⟨item.envelope, some item.sequence⟩

/-- What has become of the envelopes. -/
structure Ledger where
  accepted : List Receipt := []
  handed : List Receipt := []
  deadLettered : List Receipt := []

/-- Where a worker stands in `_dispatch_loop`. -/
inductive Worker where
  /-- At the test of the running flag. -/
  | polling
  /-- In `wait_for(self._queue.get())`. -/
  | waiting
  /-- At the check of the time to live in `_dispatch`. -/
  | dispatching (item : QueueItem)
  /-- At `_resolve_targets`. -/
  | resolving (item : QueueItem)
  /-- At `_deliver_to`, with the targets `rest` to follow. -/
  | delivering (item : QueueItem) (target : String) (attempt : ℕ) (rest : List String)
  /-- In the call of the handler. -/
  | handling (item : QueueItem) (target : String) (attempt : ℕ) (rest : List String)
  /-- In the pause before another attempt. -/
  | backoff (item : QueueItem) (target : String) (attempt : ℕ) (rest : List String)
  /-- Out of the loop. -/
  | left
deriving DecidableEq

/-- The item that a worker is dispatching. -/
def Worker.item : Worker → Option QueueItem
  | .polling | .waiting | .left => none
  | .dispatching item | .resolving item | .delivering item _ _ _ | .handling item _ _ _
  | .backoff item _ _ _ => some item

/-- What a worker can do next. -/
inductive WorkerMove where
  | poll
  | take
  | timeout
  | dispatch
  | resolve (targets : List String)
  | deliver
  | handle (outcome : HandlerOutcome)
  | resume
deriving DecidableEq

/-- What the workers share: the broker and the ledger. -/
structure Shared where
  broker : MessageBroker
  ledger : Ledger := {}

namespace Shared

/-- Push an accepted envelope to the dead-letter queue. -/
def deadLetter (s : Shared) (receipt : Receipt) (entry : DeadLetterEntry) : Shared :=
  { broker := s.broker.deadLetter entry
    ledger := { s.ledger with deadLettered := s.ledger.deadLettered ++ [receipt] } }

/-- Call a handler. -/
def hand (s : Shared) (receipt : Receipt) : Shared :=
  { s with ledger := { s.ledger with handed := s.ledger.handed ++ [receipt] } }

/-- Accept an envelope. -/
def accept (s : Shared) (receipt : Receipt) : Shared :=
  { s with ledger := { s.ledger with accepted := s.ledger.accepted ++ [receipt] } }

/-- The queue becomes `queue`. -/
def withQueue (s : Shared) (queue : PriorityMessageQueue) : Shared :=
  { s with broker := { s.broker with queue := queue } }

/-- The end of `_dispatch`: `task_done`, and back to the top of the loop. -/
def finish (s : Shared) : Shared × Worker := ({ s with broker := s.broker.taskDone }, .polling)

/-- The end of `_deliver_to`: the next target, or the end of `_dispatch`. -/
def next (s : Shared) (item : QueueItem) : List String → Shared × Worker
  | [] => s.finish
  | target :: rest => (s, .delivering item target 1 rest)

variable {s : Shared} {item : QueueItem} {rest : List String}

@[simp]
theorem ledger_next : (s.next item rest).1.ledger = s.ledger := by cases rest <;> rfl

@[simp]
theorem dlq_next : (s.next item rest).1.broker.dlq = s.broker.dlq := by cases rest <;> rfl

@[simp]
theorem running_next : (s.next item rest).1.broker.running = s.broker.running := by
  cases rest <;> rfl

@[simp]
theorem items_next : (s.next item rest).1.broker.queue.items = s.broker.queue.items := by
  cases rest <;> rfl

end Shared

/-- One step of a worker at the time `now`. -/
def workerStep (now : ℚ) (s : Shared) : Worker → WorkerMove → Option (Shared × Worker)
  | .polling, .poll => some (s, if s.broker.running then .waiting else .left)
  | .waiting, .take =>
    match s.broker.queue.getRound now with
    | none => none
    -- `get` goes on waiting after it has dropped an item.
    | some (none, queue) => some (s.withQueue queue, .waiting)
    | some (some item, queue) => some (s.withQueue queue, .dispatching item)
  | .waiting, .timeout => some (s, .polling)
  | .dispatching item, .dispatch =>
    if item.envelope.isExpired now then
      some (s.deadLetter item.receipt
        { envelope := item.envelope, reason := "ttl_expired_at_dispatch",
          deadLetteredAt := now }).finish
    else
      some (s, .resolving item)
  | .resolving item, .resolve targets =>
    -- The targets are a set, which the loop traverses in some order.
    if targets.Nodup ∧ targets.toFinset = s.broker.resolveTargets item.envelope then
      match targets with
      | [] =>
        some (s.deadLetter item.receipt
          { envelope := item.envelope, reason := "no_subscriber", deadLetteredAt := now }).finish
      | target :: rest => some (s, .delivering item target 1 rest)
    else
      none
  | .delivering item target attempt rest, .deliver =>
    match s.broker.agentHandlers.get? target with
    | none =>
      some ((s.deadLetter item.receipt
        { envelope := item.envelope, reason := "handler_disappeared", deadLetteredAt := now,
          attemptCount := attempt }).next item rest)
    | some _ => some (s.hand item.receipt, .handling item target attempt rest)
  | .handling item target attempt rest, .handle outcome =>
    match outcome with
    | .returned => some (s.next item rest)
    | .raised message =>
      -- The retry is logged, and logging keeps what formatting the exception raises to itself.
      if (attempt : ℤ) < s.broker.maxDeliveryAttempts then
        some (s, .backoff item target attempt rest)
      else
        match message with
        | some message =>
          some ((s.deadLetter item.receipt
            { envelope := item.envelope, reason := "handler_error", errorDetail := message,
              deadLetteredAt := now, attemptCount := attempt }).next item rest)
        -- `str(exc)` raises out of `_dispatch`. The loop logs it and goes on: no `task_done`.
        | none => some (s, .polling)
    -- It is no `Exception`, so the loop ends with it: no `task_done` either.
    | .cancelledError => some (s, .left)
  -- `_deliver_to` calls itself with the next attempt.
  | .backoff item target attempt rest, .resume =>
    some (s, .delivering item target (attempt + 1) rest)
  | _, _ => none

/-- What a step of a worker can be, with what it depends on. -/
inductive WorkerStep (now : ℚ) (s : Shared) : Worker → WorkerMove → Shared → Worker → Prop where
  | again (hrunning : s.broker.running = true) : WorkerStep now s .polling .poll s .waiting
  | leave (hrunning : s.broker.running = false) : WorkerStep now s .polling .poll s .left
  | drop {item : QueueItem} {queue : PriorityMessageQueue}
      (hitems : s.broker.queue.items = item :: queue.items)
      (hdiscard : s.broker.queue.discardExpired = true)
      (hexpired : item.envelope.isExpired now = true) :
      WorkerStep now s .waiting .take (s.withQueue queue) .waiting
  | take {item : QueueItem} {queue : PriorityMessageQueue}
      (hitems : s.broker.queue.items = item :: queue.items) :
      WorkerStep now s .waiting .take (s.withQueue queue) (.dispatching item)
  | timeout : WorkerStep now s .waiting .timeout s .polling
  | expired {item : QueueItem} {entry : DeadLetterEntry} (hentry : entry.envelope = item.envelope) :
      WorkerStep now s (.dispatching item) .dispatch (s.deadLetter item.receipt entry).finish.1
        .polling
  | dispatch {item : QueueItem} :
      WorkerStep now s (.dispatching item) .dispatch s (.resolving item)
  | noSubscriber {item : QueueItem} {entry : DeadLetterEntry}
      (hentry : entry.envelope = item.envelope) :
      WorkerStep now s (.resolving item) (.resolve []) (s.deadLetter item.receipt entry).finish.1
        .polling
  | resolve {item : QueueItem} {target : String} {rest : List String} :
      WorkerStep now s (.resolving item) (.resolve (target :: rest)) s
        (.delivering item target 1 rest)
  | disappeared {item : QueueItem} {target : String} {attempt : ℕ} {rest : List String}
      {entry : DeadLetterEntry} (hentry : entry.envelope = item.envelope) :
      WorkerStep now s (.delivering item target attempt rest) .deliver
        ((s.deadLetter item.receipt entry).next item rest).1
        ((s.deadLetter item.receipt entry).next item rest).2
  | deliver {item : QueueItem} {target : String} {attempt : ℕ} {rest : List String} :
      WorkerStep now s (.delivering item target attempt rest) .deliver (s.hand item.receipt)
        (.handling item target attempt rest)
  | returned {item : QueueItem} {target : String} {attempt : ℕ} {rest : List String} :
      WorkerStep now s (.handling item target attempt rest) (.handle .returned)
        (s.next item rest).1 (s.next item rest).2
  | retry {item : QueueItem} {target : String} {attempt : ℕ} {rest : List String}
      {message : Option String} (hlt : (attempt : ℤ) < s.broker.maxDeliveryAttempts) :
      WorkerStep now s (.handling item target attempt rest) (.handle (.raised message)) s
        (.backoff item target attempt rest)
  | exhausted {item : QueueItem} {target : String} {attempt : ℕ} {rest : List String}
      {message : String} {entry : DeadLetterEntry} (hentry : entry.envelope = item.envelope) :
      WorkerStep now s (.handling item target attempt rest) (.handle (.raised (some message)))
        ((s.deadLetter item.receipt entry).next item rest).1
        ((s.deadLetter item.receipt entry).next item rest).2
  | unprintable {item : QueueItem} {target : String} {attempt : ℕ} {rest : List String}
      (hge : s.broker.maxDeliveryAttempts ≤ attempt) :
      WorkerStep now s (.handling item target attempt rest) (.handle (.raised none)) s .polling
  | cancelled {item : QueueItem} {target : String} {attempt : ℕ} {rest : List String} :
      WorkerStep now s (.handling item target attempt rest) (.handle .cancelledError) s .left
  | resume {item : QueueItem} {target : String} {attempt : ℕ} {rest : List String} :
      WorkerStep now s (.backoff item target attempt rest) .resume s
        (.delivering item target (attempt + 1) rest)

/-- A step of a worker is one of these. -/
theorem workerStep_cases {now : ℚ} {s s' : Shared} {phase phase' : Worker} {move : WorkerMove}
    (h : workerStep now s phase move = some (s', phase')) :
    WorkerStep now s phase move s' phase' := by
  unfold workerStep at h
  split at h
  · -- The test of the flag.
    obtain ⟨rfl, rfl⟩ := Prod.mk.inj (Option.some.inj h)
    split_ifs with hrunning
    · exact .again hrunning
    · exact .leave (Bool.eq_false_iff.mpr hrunning)
  · -- A turn of the loop in `get`.
    split at h
    · cases h
    · rename_i hround
      obtain ⟨rfl, rfl⟩ := Prod.mk.inj (Option.some.inj h)
      -- The turn returned nothing, so that its item was dropped.
      obtain ⟨item, hitems, htaken⟩ := PriorityMessageQueue.getRound_cases hround
      split_ifs at htaken with hdrop
      obtain ⟨hdiscard, hexpired⟩ := Bool.and_eq_true_iff.mp hdrop
      exact .drop hitems hdiscard hexpired
    · rename_i hround
      obtain ⟨rfl, rfl⟩ := Prod.mk.inj (Option.some.inj h)
      obtain ⟨item', hitems, htaken⟩ := PriorityMessageQueue.getRound_cases hround
      split_ifs at htaken
      obtain rfl := Option.some.inj htaken
      exact .take hitems
  · obtain ⟨rfl, rfl⟩ := Prod.mk.inj (Option.some.inj h)
    exact .timeout
  · split_ifs at h
    · obtain ⟨rfl, rfl⟩ := Prod.mk.inj (Option.some.inj h)
      exact .expired rfl
    · obtain ⟨rfl, rfl⟩ := Prod.mk.inj (Option.some.inj h)
      exact .dispatch
  · -- The targets.
    split_ifs at h
    split at h
    · obtain ⟨rfl, rfl⟩ := Prod.mk.inj (Option.some.inj h)
      exact .noSubscriber rfl
    · obtain ⟨rfl, rfl⟩ := Prod.mk.inj (Option.some.inj h)
      exact .resolve
  · split at h
    · obtain ⟨rfl, rfl⟩ := Prod.mk.inj (Option.some.inj h)
      exact .disappeared rfl
    · obtain ⟨rfl, rfl⟩ := Prod.mk.inj (Option.some.inj h)
      exact .deliver
  · -- The end of a handler.
    split at h
    · obtain ⟨rfl, rfl⟩ := Prod.mk.inj (Option.some.inj h)
      exact .returned
    · split_ifs at h with hlt
      · obtain ⟨rfl, rfl⟩ := Prod.mk.inj (Option.some.inj h)
        exact .retry hlt
      · -- The last attempt, by whether the exception has a text.
        split at h
        · obtain ⟨rfl, rfl⟩ := Prod.mk.inj (Option.some.inj h)
          exact .exhausted rfl
        · obtain ⟨rfl, rfl⟩ := Prod.mk.inj (Option.some.inj h)
          exact .unprintable (not_lt.mp hlt)
    · obtain ⟨rfl, rfl⟩ := Prod.mk.inj (Option.some.inj h)
      exact .cancelled
  · obtain ⟨rfl, rfl⟩ := Prod.mk.inj (Option.some.inj h)
    exact .resume
  · cases h

/-- Whether a worker can be interrupted where it stands: it has not begun, or it awaits
something. -/
def Worker.suspended : Worker → Bool
  | .polling | .waiting | .handling _ _ _ _ | .backoff _ _ _ _ => true
  | .dispatching _ | .resolving _ | .delivering _ _ _ _ | .left => false

/-- Where a call of `stop` stands. -/
inductive StopCall where
  /-- It has cleared the flag, and waits for the queue to drain. -/
  | draining
  /-- It has cancelled the workers, and waits for them to end. -/
  | cancelling (workers : List ℕ)
  | returned
deriving DecidableEq

/-- Whether a call of `stop` has cancelled the worker. -/
def StopCall.cancels (worker : ℕ) : StopCall → Bool
  | .cancelling workers => worker ∈ workers
  | .draining | .returned => false

/-- The steps of the workers, the callers, and the clock. -/
inductive BrokerAction where
  | start
  | subscribe (agentId : String) (handler : MessageHandler)
  | unsubscribe (agentId : String)
  | subscribeTopic (agentId topic : String)
  | unsubscribeTopic (agentId topic : String)
  | publish (envelope : MessageEnvelope)
  /-- A publish that waited for room puts its item. -/
  | put (putter : ℕ)
  | publishNowait (envelope : MessageEnvelope)
  | advance (seconds : ℚ)
  | work (worker : ℕ) (move : WorkerMove)
  | stop
  /-- The queue has drained. -/
  | joined (call : ℕ)
  /-- The wait for the queue to drain times out. -/
  | joinTimeout (call : ℕ)
  /-- A cancelled worker ends where it is suspended. -/
  | cancel (worker : ℕ)
  /-- All cancelled workers have ended. -/
  | gathered (call : ℕ)
deriving DecidableEq

/-- A broker in use. -/
structure BrokerSystem where
  shared : Shared
  now : ℚ
  /-- The items of the publishes that wait for room. -/
  putters : List QueueItem := []
  /-- The workers ever started. -/
  workers : List Worker := []
  /-- `_worker_tasks`. -/
  workerTasks : List ℕ := []
  /-- The calls of `stop`. -/
  stops : List StopCall := []

namespace BrokerSystem

/-- A new broker. -/
def init (broker : MessageBroker) (now : ℚ) : BrokerSystem := { shared := ⟨broker, {}⟩, now := now }

/-- The broker of the system. -/
def broker (s : BrokerSystem) : MessageBroker := s.shared.broker

/-- The items in the queue. -/
def queued (s : BrokerSystem) : List QueueItem := s.shared.broker.queue.items

/-- The broker becomes `b`. -/
def withBroker (s : BrokerSystem) (b : MessageBroker) : BrokerSystem :=
  { s with shared := { s.shared with broker := b } }

/-- An envelope that has expired when it is published is dead-lettered. -/
def deadOnArrival (s : BrokerSystem) (envelope : MessageEnvelope) : BrokerSystem :=
  let receipt : Receipt := ⟨envelope, none⟩
  { s with shared := (s.shared.deadLetter receipt
      { envelope := envelope, reason := "ttl_expired_at_publish",
        deadLetteredAt := s.now }).accept receipt }

/-- An item is put, if the queue has room. -/
def enqueue (s : BrokerSystem) (item : QueueItem) : Option BrokerSystem :=
  (s.broker.queue.put item).map fun queue =>
    { s with shared := (s.shared.withQueue queue).accept item.receipt }

/-- `wait_for(self._queue.join(), …)` has ended: the workers are cancelled. -/
def cancelWorkers (s : BrokerSystem) (call : ℕ) : BrokerSystem :=
  { s with stops := s.stops.set call (.cancelling s.workerTasks) }

/-- One step. -/
def step (s : BrokerSystem) : BrokerAction → Option BrokerSystem
  | .start =>
    if s.broker.running then
      some s
    else
      -- The list of tasks is replaced: workers of an earlier start that still run are not in it.
      let n := s.broker.dispatchWorkers.toNat
      some { s.withBroker { s.broker with running := true } with
        workers := s.workers ++ List.replicate n .polling
        workerTasks := (List.range n).map (s.workers.length + ·) }
  | .subscribe agentId handler => some (s.withBroker (s.broker.subscribe agentId handler))
  | .unsubscribe agentId => some (s.withBroker (s.broker.unsubscribe agentId))
  | .subscribeTopic agentId topic => some (s.withBroker (s.broker.subscribeTopic agentId topic))
  | .unsubscribeTopic agentId topic =>
    some (s.withBroker (s.broker.unsubscribeTopic agentId topic))
  | .publish envelope =>
    if envelope.isExpired s.now then
      some (s.deadOnArrival envelope)
    else
      let (item, queue) := s.broker.queue.makeItem envelope s.now
      let s := s.withBroker { s.broker with queue := queue }
      match s.enqueue item with
      | some s => some s
      -- `put` waits for room, with the sequence number that its item has already taken.
      | none => some { s with putters := s.putters ++ [item] }
  | .put putter =>
    match s.putters[putter]? with
    | none => none
    | some item => ({ s with putters := s.putters.eraseIdx putter }).enqueue item
  | .publishNowait envelope =>
    if envelope.isExpired s.now then
      some (s.deadOnArrival envelope)
    else
      let (item, queue) := s.broker.queue.makeItem envelope s.now
      let s := s.withBroker { s.broker with queue := queue }
      -- A full queue raises `QueueFullError`, and keeps only the next sequence number.
      some ((s.enqueue item).getD s)
  | .advance seconds => if 0 ≤ seconds then some { s with now := s.now + seconds } else none
  | .work worker move =>
    match s.workers[worker]? with
    | none => none
    | some phase =>
      (workerStep s.now s.shared phase move).map fun (shared, phase) =>
        { s with shared := shared, workers := s.workers.set worker phase }
  | .stop =>
    -- A stop of a broker that is not running returns at once.
    if s.broker.running then
      some { s.withBroker { s.broker with running := false } with stops := s.stops ++ [.draining] }
    else
      some s
  | .joined call =>
    if s.stops[call]? = some .draining ∧ s.broker.queue.queue.unfinished = 0 then
      some (s.cancelWorkers call)
    else
      none
  | .joinTimeout call =>
    if s.stops[call]? = some .draining then some (s.cancelWorkers call) else none
  | .cancel worker =>
    match s.workers[worker]? with
    | none => none
    | some phase =>
      if phase.suspended && s.stops.any (·.cancels worker) then
        some { s with workers := s.workers.set worker .left }
      else
        none
  | .gathered call =>
    match s.stops[call]? with
    | some (.cancelling workers) =>
      if ∀ w ∈ workers, s.workers[w]? = some .left then
        some { s with stops := s.stops.set call .returned, workerTasks := [] }
      else
        none
    | _ => none

end BrokerSystem

/-- A broker with one worker, and otherwise the default parameters. -/
def oneWorker : MessageBroker where
  queue := .init 0 true
  dlq := ⟨1000, by decide, [], 0⟩
  maxDeliveryAttempts := 3
  dispatchWorkers := 1

end MeshRouter.Broker
