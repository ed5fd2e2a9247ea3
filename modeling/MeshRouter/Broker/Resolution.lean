import MeshRouter.Broker.MessageBroker
import MeshRouter.Lib.History

/-!
# Who receives a message

`_resolve_targets` reads two maps, which four operations change. What the maps hold is a question
about the history of these operations (`Reflects`): an agent has a handler if it subscribed and did
not unsubscribe since, and it is in a topic if it subscribed to the topic and since then neither
left the topic nor unsubscribed. `resolve_history` says which lists of targets `_resolve_targets`
can return after a history, in these terms.
-/

namespace MeshRouter.Broker

open Lib Messages

/-- An operation on the subscriptions. -/
inductive SubscriptionOp where
  | subscribe (agentId : String) (handler : MessageHandler)
  | unsubscribe (agentId : String)
  | subscribeTopic (agentId topic : String)
  | unsubscribeTopic (agentId topic : String)
deriving DecidableEq

namespace MessageBroker

variable {b : MessageBroker} {ops : List SubscriptionOp} {a topic : String}

/-- The broker after an operation. -/
def apply (b : MessageBroker) : SubscriptionOp → MessageBroker
  | .subscribe agentId handler => b.subscribe agentId handler
  | .unsubscribe agentId => b.unsubscribe agentId
  | .subscribeTopic agentId topic => b.subscribeTopic agentId topic
  | .unsubscribeTopic agentId topic => b.unsubscribeTopic agentId topic

/-- The last `subscribe` of the agent is later than its last `unsubscribe`. -/
def HasHandler (a : String) (ops : List SubscriptionOp) : Prop :=
  Since (fun op => ∃ handler, op = .subscribe a handler) (fun op => op = .unsubscribe a) ops

/-- The last `subscribe_topic` of the agent to the topic is later than its last `unsubscribe_topic`
from the topic and its last `unsubscribe`. -/
def InTopic (a topic : String) (ops : List SubscriptionOp) : Prop :=
  Since (fun op => op = .subscribeTopic a topic)
    (fun op => op = .unsubscribeTopic a topic ∨ op = .unsubscribe a) ops

/-- The maps hold what the history says. -/
structure Reflects (b : MessageBroker) (ops : List SubscriptionOp) : Prop where
  handlers : ∀ a, a ∈ b.agentHandlers.keys ↔ HasHandler a ops
  topics : ∀ a topic, a ∈ b.topicSubscribers.getD topic ∅ ↔ InTopic a topic ops

/-- One more operation. -/
theorem Reflects.apply (h : Reflects b ops) (op : SubscriptionOp) :
    Reflects (b.apply op) (ops ++ [op]) := by
  refine ⟨fun a => ?_, fun a topic => ?_⟩
  · rw [HasHandler, since_concat, ← HasHandler, ← h.handlers]
    cases op with
    | subscribe agentId handler =>
      have hon : (∃ handler', SubscriptionOp.subscribe agentId handler = .subscribe a handler') ↔
          a = agentId := by
        constructor
        · rintro ⟨_, ⟨⟩⟩
          rfl
        · rintro rfl
          exact ⟨handler, rfl⟩
      unfold MessageBroker.apply subscribe
      dsimp only
      rw [Dict.mem_keys_set, hon]
      simp
    | unsubscribe agentId =>
      unfold MessageBroker.apply unsubscribe
      dsimp only
      rw [Dict.keys_erase, SubscriptionOp.unsubscribe.injEq, eq_comm (a := agentId)]
      simp
    | subscribeTopic | unsubscribeTopic =>
      unfold MessageBroker.apply
      simp [subscribeTopic, unsubscribeTopic]
  · rw [InTopic, since_concat, ← InTopic, ← h.topics]
    cases op with
    | subscribe agentId handler =>
      unfold MessageBroker.apply
      simp [subscribe]
    | unsubscribe agentId =>
      have hget : (b.topicSubscribers.mapValues fun agents => agents.erase agentId).getD topic ∅ =
          (b.topicSubscribers.getD topic ∅).erase agentId := by
        unfold Dict.getD
        rw [Dict.get?_mapValues]
        cases b.topicSubscribers.get? topic <;> rfl
      unfold MessageBroker.apply unsubscribe
      dsimp only
      rw [hget, Finset.mem_erase]
      simp [eq_comm, and_comm]
    | subscribeTopic agentId topic' =>
      unfold MessageBroker.apply subscribeTopic
      dsimp only
      rw [Dict.getD_set]
      by_cases htopic : topic = topic'
      · subst htopic
        simp [eq_comm]
      · simp [htopic, Ne.symm htopic]
    | unsubscribeTopic agentId topic' =>
      unfold MessageBroker.apply unsubscribeTopic
      dsimp only
      rw [Dict.getD_set]
      by_cases htopic : topic = topic'
      · subst htopic
        simp [eq_comm, and_comm]
      · simp [htopic, Ne.symm htopic]

/-- The maps hold what the whole history says. -/
theorem reflects_foldl (hhandlers : b.agentHandlers = .empty)
    (htopics : b.topicSubscribers = .empty) (ops : List SubscriptionOp) :
    Reflects (ops.foldl MessageBroker.apply b) ops := by
  induction ops using List.reverseRecOn with
  | nil =>
    refine ⟨fun a => iff_of_false ?_ not_since_nil, fun a topic => iff_of_false ?_ not_since_nil⟩
    · simp [hhandlers]
    · simp [htopics]
  | append_singleton ops op ih =>
    rw [List.foldl_append]
    exact ih.apply op

/-- An envelope is for an agent when it is for all, for this one, or for a topic of the agent. -/
def IsFor (a : String) (envelope : MessageEnvelope) (ops : List SubscriptionOp) : Prop :=
  envelope.receiver = "*" ∨ envelope.receiver = a ∨
    ∃ topic, envelope.topic = some topic ∧ topic ≠ "" ∧ InTopic a topic ops

/-- The targets are the agents that have a handler and that the envelope is for. -/
theorem Reflects.mem_resolveTargets (h : Reflects b ops) (envelope : MessageEnvelope) :
    a ∈ b.resolveTargets envelope ↔ HasHandler a ops ∧ IsFor a envelope ops := by
  unfold resolveTargets IsFor
  dsimp only
  -- The direct delivery, and the delivery by topic.
  have hdirect : (a ∈ if envelope.receiver = "*" then b.agentHandlers.keys.toFinset
      else if envelope.receiver ∈ b.agentHandlers.keys then {envelope.receiver} else ∅) ↔
      a ∈ b.agentHandlers.keys ∧ (envelope.receiver = "*" ∨ envelope.receiver = a) := by
    split_ifs with hall hmem
    · simp [hall]
    · rw [Finset.mem_singleton]
      constructor
      · rintro rfl
        exact ⟨hmem, .inr rfl⟩
      · rintro ⟨-, hstar | hone⟩
        · exact absurd hstar hall
        · exact hone.symm
    · refine iff_of_false (Finset.notMem_empty a) ?_
      rintro ⟨ha, hstar | rfl⟩
      · exact hall hstar
      · exact hmem ha
  refine (Finset.mem_union.trans (or_congr hdirect (d := a ∈ b.agentHandlers.keys ∧
    ∃ topic, envelope.topic = some topic ∧ topic ≠ "" ∧ a ∈ b.topicSubscribers.getD topic ∅)
    ?_)).trans ?_
  · cases envelope.topic with
    | none => simp
    | some topic =>
      dsimp only
      split_ifs with hempty
      · simp [hempty]
      · rw [Finset.mem_filter]
        simp [hempty, and_comm]
  · rw [← h.handlers, ← and_or_left, or_assoc]
    simp only [h.topics]

/-- A list that `_resolve_targets` can return: the targets, without duplicates, in some order. -/
def ReturnsTargets (b : MessageBroker) (envelope : MessageEnvelope) (targets : List String) :
    Prop :=
  targets.Nodup ∧ targets.toFinset = b.resolveTargets envelope

/-- After every history of a new broker, `_resolve_targets` returns, without duplicates, the agents
that have a handler and that the envelope is for. -/
theorem resolve_history {queueMaxsize dlqMaxsize maxDeliveryAttempts dispatchWorkers : ℤ}
    {discardExpired : Bool}
    (h : init queueMaxsize dlqMaxsize maxDeliveryAttempts dispatchWorkers discardExpired = .ok b)
    (ops : List SubscriptionOp) (envelope : MessageEnvelope) (targets : List String) :
    (ops.foldl apply b).ReturnsTargets envelope targets ↔
      targets.Nodup ∧ ∀ a, a ∈ targets ↔ HasHandler a ops ∧ IsFor a envelope ops := by
  have hempty : b.agentHandlers = .empty ∧ b.topicSubscribers = .empty := by
    unfold init at h
    split at h
    · cases h
    · obtain rfl := Except.ok.inj h
      exact ⟨rfl, rfl⟩
  have hreflects := reflects_foldl hempty.1 hempty.2 ops
  refine and_congr_right fun _ => ?_
  rw [Finset.ext_iff]
  simp only [List.mem_toFinset, hreflects.mem_resolveTargets]

/-- An agent that subscribes to a topic before it has a handler, and another agent. -/
def topicFirst : List SubscriptionOp :=
  [.subscribeTopic "agent-a" "alerts", .subscribe "agent-a" "on_alert",
    .subscribe "agent-b" "on_message"]

/-- A message for the other agent, on the topic. -/
def alertForB : MessageEnvelope :=
  { sender := "agent-c", receiver := "agent-b", topic := some "alerts", messageId := "m1"
    createdAt := 0 }

/-- A new broker. -/
def newBroker : MessageBroker where
  queue := .init 0 false
  dlq := ⟨1, Nat.one_pos, [], 0⟩
  maxDeliveryAttempts := 3
  dispatchWorkers := 1

/-- `resolve_history` on a message that is for both. -/
theorem resolve_history_topicFirst :
    (topicFirst.foldl apply newBroker).ReturnsTargets alertForB ["agent-a", "agent-b"] ∧
      ∀ a, a ∈ ["agent-a", "agent-b"] ↔
        HasHandler a topicFirst ∧ IsFor a alertForB topicFirst := by
  have hinit : init 0 1 3 1 false = .ok newBroker := rfl
  have hreturns : (topicFirst.foldl apply newBroker).ReturnsTargets alertForB
      ["agent-a", "agent-b"] := ⟨by decide, by decide +kernel⟩
  exact ⟨hreturns, ((resolve_history hinit topicFirst alertForB _).mp hreturns).2⟩

end MessageBroker

end MeshRouter.Broker
