import Mathlib.Data.Finset.Basic
import MeshRouter.Broker.DeadLetter
import MeshRouter.Broker.Queue

/-!
# The message broker

The state of `AsyncMessageBroker` in `broker/message_broker.py`, and what its operations do between
two of their suspensions. A handler is known by a name: what it does is not up to the broker.
-/

namespace MeshRouter.Broker

open Lib Messages

/-- The name of a handler. -/
abbrev MessageHandler := String

/-- Async in-memory message broker with publish and subscribe and priority queuing. -/
structure MessageBroker where
  queue : PriorityMessageQueue
  dlq : DeadLetterQueue
  maxDeliveryAttempts : ℤ
  dispatchWorkers : ℤ
  /-- The handler of each agent. -/
  agentHandlers : Dict String MessageHandler := .empty
  /-- The agents subscribed to each topic. -/
  topicSubscribers : Dict String (Finset String) := .empty
  running : Bool := false

namespace MessageBroker

/-- `__init__`. -/
def init (queueMaxsize dlqMaxsize maxDeliveryAttempts dispatchWorkers : ℤ) (discardExpired : Bool) :
    Except MaxsizeError MessageBroker :=
  match DeadLetterQueue.init dlqMaxsize with
  | .error e => .error e
  | .ok dlq =>
    .ok { queue := .init queueMaxsize discardExpired, dlq := dlq,
          maxDeliveryAttempts := maxDeliveryAttempts, dispatchWorkers := dispatchWorkers }

/-- `subscribe`: registering again replaces the handler. -/
def subscribe (b : MessageBroker) (agentId : String) (handler : MessageHandler) : MessageBroker :=
  { b with agentHandlers := b.agentHandlers.set agentId handler }

/-- `unsubscribe`, from all topics too. -/
def unsubscribe (b : MessageBroker) (agentId : String) : MessageBroker :=
  { b with agentHandlers := b.agentHandlers.erase agentId
           topicSubscribers := b.topicSubscribers.mapValues fun agents => agents.erase agentId }

/-- `subscribe_topic`. -/
def subscribeTopic (b : MessageBroker) (agentId topic : String) : MessageBroker :=
  { b with topicSubscribers :=
      b.topicSubscribers.set topic (insert agentId (b.topicSubscribers.getD topic ∅)) }

/-- `unsubscribe_topic`. -/
def unsubscribeTopic (b : MessageBroker) (agentId topic : String) : MessageBroker :=
  { b with topicSubscribers :=
      b.topicSubscribers.set topic ((b.topicSubscribers.getD topic ∅).erase agentId) }

/-- `_resolve_targets`: the receiver, or every agent for a broadcast, and the subscribers of the
topic, as far as they have handlers. -/
def resolveTargets (b : MessageBroker) (envelope : MessageEnvelope) : Finset String :=
  let direct :=
    if envelope.receiver = "*" then b.agentHandlers.keys.toFinset
    else if envelope.receiver ∈ b.agentHandlers.keys then {envelope.receiver}
    else ∅
  let subscribers :=
    match envelope.topic with
    | none => ∅
    | some topic =>
      if topic = "" then ∅
      else (b.topicSubscribers.getD topic ∅).filter (· ∈ b.agentHandlers.keys)
  direct ∪ subscribers

/-- `self._dlq.push`. -/
def deadLetter (b : MessageBroker) (entry : DeadLetterEntry) : MessageBroker :=
  { b with dlq := b.dlq.push entry }

/-- `self._queue.task_done()`. -/
def taskDone (b : MessageBroker) : MessageBroker := { b with queue := b.queue.taskDone }

end MessageBroker

end MeshRouter.Broker
