import Mathlib.Algebra.Group.Nat.Even
import MeshRouter.Lib.Runs
import MeshRouter.Lib.Text
import MeshRouter.Messages.Envelope

/-!
# Conversations

The factory methods of `MessageEnvelope` in `messages/envelope.py` and its `validate`, and the
conversations that they make: from a first message on, each message answers one that was sent
before. What a message keeps of the one that it answers is what a whole conversation keeps, so that
the statements about conversations need no more than the way back from a message to the first
(`trail`), which `answers_trail` describes.

Message ids are fresh, as those of `uuid4` are, and the first message answers none.
-/

namespace MeshRouter.Messages

open Lib

/-- Metadata captured when one agent hands a task to another. -/
structure HandoffMetrics where
  sourceAgent : String
  targetAgent : String
  reason : String
  costIncurredUsd : ℚ := 0
  tokensConsumed : ℤ := 0
  latencyMs : ℚ := 0
  handoffTimestamp : ℚ
  attemptNumber : ℤ := 1
deriving DecidableEq

/-- The `metrics_dict` of `create_handoff`. -/
def HandoffMetrics.toValue (m : HandoffMetrics) : Value :=
  .dict [("source_agent", .str m.sourceAgent), ("target_agent", .str m.targetAgent),
    ("reason", .str m.reason), ("cost_incurred_usd", .float m.costIncurredUsd),
    ("tokens_consumed", .int m.tokensConsumed), ("latency_ms", .float m.latencyMs),
    ("handoff_timestamp", .float m.handoffTimestamp), ("attempt_number", .int m.attemptNumber)]

/-- The key of the metrics in the payload of a handoff. -/
def handoffMetricsKey : String := "__handoff_metrics__"

/-- The checks of `validate` that fail. Those of the types never do. -/
inductive EnvelopeError where
  /-- "MessageEnvelope.sender must be a non-empty string." -/
  | sender
  /-- "MessageEnvelope.receiver must be a non-empty string." -/
  | receiver
  /-- "MessageEnvelope.ttl_seconds must be positive, got …." -/
  | ttlSeconds (got : ℚ)
  /-- "MessageEnvelope.cost_budget_usd must be non-negative, got …." -/
  | costBudgetUsd (got : ℚ)
deriving DecidableEq

namespace MessageEnvelope

/-- `validate`. -/
def validate (e : MessageEnvelope) : Except EnvelopeError Unit :=
  if Blank e.sender then .error .sender
  else if Blank e.receiver then .error .receiver
  else
    match e.ttlSeconds.filter (· ≤ 0), e.costBudgetUsd.filter (· < 0) with
    | some ttl, _ => .error (.ttlSeconds ttl)
    | none, some budget => .error (.costBudgetUsd budget)
    | none, none => .ok ()

section Factories

variable (e : MessageEnvelope) (messageId : String) (createdAt : ℚ)

/-- `create_response`. -/
def createResponse (payload : Dict String Value) (messageType : MessageType)
    (priority : Option Priority) : MessageEnvelope where
  sender := e.receiver
  receiver := e.sender
  payload := payload
  messageType := messageType
  priority := priority.getD e.priority
  topic := e.topic
  traceId := e.traceId
  parentMessageId := some e.messageId
  messageId := messageId
  createdAt := createdAt
  costBudgetUsd := e.costBudgetUsd

/-- `create_handoff`. -/
def createHandoff (newReceiver : String) (handoffMetrics : HandoffMetrics)
    (updatedPayload : Option (Dict String Value)) (costBudgetRemainingUsd : Option ℚ) :
    MessageEnvelope where
  sender := e.receiver
  receiver := newReceiver
  payload := (updatedPayload.getD e.payload).set handoffMetricsKey handoffMetrics.toValue
  messageType := .HANDOFF
  priority := e.priority
  topic := e.topic
  traceId := e.traceId
  parentMessageId := some e.messageId
  messageId := messageId
  createdAt := createdAt
  costBudgetUsd := costBudgetRemainingUsd.orElse fun _ => e.costBudgetUsd
  metadata := e.metadata

/-- `create_ack`. -/
def createAck : MessageEnvelope :=
  e.createResponse messageId createdAt (Dict.ofList [("acked_message_id", .str e.messageId)]) .ACK
    (some .HIGH)

/-- `create_error`. -/
def createError (errorMessage errorCode : String) : MessageEnvelope :=
  e.createResponse messageId createdAt
    (Dict.ofList [("error_code", .str errorCode), ("error_message", .str errorMessage),
      ("failed_message_id", .str e.messageId)]) .ERROR (some .HIGH)

end Factories

end MessageEnvelope

/-- A call of one of the factory methods. -/
inductive Answer where
  | response (payload : Dict String Value) (messageType : MessageType) (priority : Option Priority)
  | handoff (newReceiver : String) (handoffMetrics : HandoffMetrics)
    (updatedPayload : Option (Dict String Value)) (costBudgetRemainingUsd : Option ℚ)
  | ack
  | error (errorMessage errorCode : String)

/-- The message that a call makes. -/
def MessageEnvelope.answer (e : MessageEnvelope) (messageId : String) (createdAt : ℚ) :
    Answer → MessageEnvelope
  | .response payload messageType priority =>
    e.createResponse messageId createdAt payload messageType priority
  | .handoff newReceiver handoffMetrics updatedPayload costBudgetRemainingUsd =>
    e.createHandoff messageId createdAt newReceiver handoffMetrics updatedPayload
      costBudgetRemainingUsd
  | .ack => e.createAck messageId createdAt
  | .error errorMessage errorCode => e.createError messageId createdAt errorMessage errorCode

/-- A message is answered by a new one. -/
structure Reply where
  parentId : String
  answer : Answer
  messageId : String
  createdAt : ℚ

/-- The messages of a conversation, the newest first. A reply is to one of them, under a fresh id.
-/
def converse (log : List MessageEnvelope) (r : Reply) : Option (List MessageEnvelope) :=
  if r.messageId ∈ log.map (·.messageId) then
    none
  else
    (log.find? (·.messageId = r.parentId)).map fun parent =>
      parent.answer r.messageId r.createdAt r.answer :: log

/-- The message with an id, the message that it answers, and so on: each is looked for among the
messages before. -/
def trail : List MessageEnvelope → String → List MessageEnvelope
  | [], _ => []
  | e :: log, id =>
    if e.messageId = id then
      match e.parentMessageId with
      | none => [e]
      | some parentId => e :: trail log parentId
    else
      trail log id

/-- One message is made from another by a call that meets a condition. -/
def Answers (P : Answer → Prop) (child parent : MessageEnvelope) : Prop :=
  ∃ messageId createdAt a, P a ∧ child = parent.answer messageId createdAt a

/-- The call hands the task to another agent. -/
def Answer.IsHandoff : Answer → Prop
  | .handoff _ _ _ _ => True
  | .response _ _ _ | .ack | .error _ _ => False

/-- The call hands the task on as it is. -/
def Answer.IsPlainHandoff : Answer → Prop
  | .handoff _ _ updatedPayload _ => updatedPayload = none
  | .response _ _ _ | .ack | .error _ _ => False

/-- The arguments of the call pass the checks of `validate`. -/
def Answer.Sound : Answer → Prop
  | .handoff newReceiver _ _ costBudgetRemainingUsd =>
    ¬ Blank newReceiver ∧ ∀ x ∈ costBudgetRemainingUsd, 0 ≤ x
  | .response _ _ _ | .ack | .error _ _ => True

/-! ## What an answer keeps -/

section Answer

variable (e : MessageEnvelope) (messageId : String) (createdAt : ℚ) (a : Answer)

@[simp]
theorem answer_messageId : (e.answer messageId createdAt a).messageId = messageId := by
  cases a <;> rfl

@[simp]
theorem answer_parentMessageId :
    (e.answer messageId createdAt a).parentMessageId = some e.messageId := by
  cases a <;> rfl

@[simp]
theorem answer_traceId : (e.answer messageId createdAt a).traceId = e.traceId := by
  cases a <;> rfl

@[simp]
theorem answer_topic : (e.answer messageId createdAt a).topic = e.topic := by
  cases a <;> rfl

@[simp]
theorem answer_sender : (e.answer messageId createdAt a).sender = e.receiver := by
  cases a <;> rfl

@[simp]
theorem answer_ttlSeconds : (e.answer messageId createdAt a).ttlSeconds = none := by
  cases a <;> rfl

/-- An answer that is no handoff goes back to the sender. -/
theorem answer_receiver (h : ¬ a.IsHandoff) :
    (e.answer messageId createdAt a).receiver = e.sender := by
  cases a with
  | handoff => exact absurd trivial h
  | response => rfl
  | ack => rfl
  | error => rfl

end Answer

/-! ## The conversation -/

section Conversation

variable {P : Answer → Prop} {root : MessageEnvelope} {log log' : List MessageEnvelope} {r : Reply}

/-- A reply adds an answer to a message of the conversation. -/
theorem converse_cases (h : converse log r = some log') :
    r.messageId ∉ log.map (·.messageId) ∧ ∃ parent ∈ log, parent.messageId = r.parentId ∧
      log' = parent.answer r.messageId r.createdAt r.answer :: log := by
  unfold converse at h
  split_ifs at h with hfresh
  obtain ⟨parent, hparent, rfl⟩ := Option.map_eq_some_iff.mp h
  have hid := List.find?_some hparent
  exact ⟨hfresh, parent, List.mem_of_find?_eq_some hparent, of_decide_eq_true hid, rfl⟩

/-- The messages that a conversation from `root` can be made of, by calls that meet a condition. -/
inductive Grown (P : Answer → Prop) (root : MessageEnvelope) : List MessageEnvelope → Prop where
  | root : Grown P root [root]
  | answer {log : List MessageEnvelope} {parent : MessageEnvelope} {messageId : String}
    (createdAt : ℚ) {a : Answer} (ha : P a) (hlog : Grown P root log) (hparent : parent ∈ log)
    (hfresh : messageId ∉ log.map (·.messageId)) :
    Grown P root (parent.answer messageId createdAt a :: log)

/-- A run from the first message alone makes such a conversation. -/
theorem grown_of_run {replies : List Reply} (hP : ∀ r ∈ replies, P r.answer)
    (h : run converse [root] replies = some log) : Grown P root log := by
  have hstep : ∀ log r log', Grown P root log → P r.answer → converse log r = some log' →
      Grown P root log' := by
    intro log r log' hlog ha hstep
    obtain ⟨hfresh, parent, hparent, -, rfl⟩ := converse_cases hstep
    exact .answer r.createdAt ha hlog hparent hfresh
  exact run_induction_along hstep Grown.root (along_of_actions hP _) h

/-- No two messages have the same id. -/
theorem Grown.nodup (h : Grown P root log) : (log.map (·.messageId)).Nodup := by
  induction h with
  | root => exact List.nodup_singleton _
  | answer createdAt _ _ _ hfresh ih =>
    rw [List.map_cons, answer_messageId]
    exact List.nodup_cons.mpr ⟨hfresh, ih⟩

/-- The way back from a message of the conversation: it starts with the message, goes from answer to
what was answered, through messages of the conversation, and ends with the first one. -/
theorem Grown.trail_spec (h : Grown P root log) (hroot : root.parentMessageId = none) :
    ∀ e ∈ log, ∃ older, trail log e.messageId = e :: older ∧
      (e :: older).IsChain (Answers P) ∧ (e :: older).getLast? = some root ∧
      (e :: older).Sublist log := by
  induction h with
  | root =>
    intro e he
    obtain rfl := List.mem_singleton.mp he
    refine ⟨[], ?_, .singleton _, rfl, List.Sublist.refl _⟩
    rw [trail, if_pos rfl, hroot]
  | @answer log parent messageId createdAt a ha hlog hparent hfresh ih =>
    intro e he
    rcases List.mem_cons.mp he with rfl | he
    · obtain ⟨older, htrail, hchain, hlast, hsub⟩ := ih parent hparent
      refine ⟨parent :: older, ?_, ?_, ?_, hsub.cons_cons _⟩
      · rw [trail, if_pos rfl, answer_parentMessageId]
        dsimp only
        rw [htrail]
      · exact List.isChain_cons_cons.mpr ⟨⟨messageId, createdAt, a, ha, rfl⟩, hchain⟩
      · rw [List.getLast?_cons_cons, hlast]
    · obtain ⟨older, htrail, hchain, hlast, hsub⟩ := ih e he
      refine ⟨older, ?_, hchain, hlast, hsub.cons _⟩
      rw [trail, answer_messageId, if_neg, htrail]
      exact fun heq => hfresh (heq ▸ List.mem_map_of_mem he)

/-- What an answer keeps of what it answers is the same at both ends of a way back. -/
theorem eq_of_isChain {α : Type} (field : MessageEnvelope → α)
    (hfield : ∀ child parent, Answers P child parent → field child = field parent)
    {e : MessageEnvelope} {older : List MessageEnvelope} (hchain : (e :: older).IsChain (Answers P))
    (hlast : (e :: older).getLast? = some root) : field e = field root := by
  induction older generalizing e with
  | nil =>
    obtain rfl := Option.some.inj hlast
    rfl
  | cons parent older ih =>
    obtain ⟨hanswers, hchain⟩ := List.isChain_cons_cons.mp hchain
    rw [hfield e parent hanswers]
    exact ih hchain (by rwa [List.getLast?_cons_cons] at hlast)

/-- Answers that are no handoffs go back and forth between two parties. -/
theorem parties_of_isChain {e : MessageEnvelope} {older : List MessageEnvelope}
    (hchain : (e :: older).IsChain (Answers fun a => ¬ a.IsHandoff))
    (hlast : (e :: older).getLast? = some root) :
    (e.sender, e.receiver) =
      if Even older.length then (root.sender, root.receiver) else (root.receiver, root.sender) := by
  induction older generalizing e with
  | nil =>
    obtain rfl := Option.some.inj hlast
    exact (if_pos Even.zero).symm
  | cons parent older ih =>
    obtain ⟨⟨messageId, createdAt, a, ha, rfl⟩, hrest⟩ := List.isChain_cons_cons.mp hchain
    have hparent := ih hrest (by rwa [List.getLast?_cons_cons] at hlast)
    rw [answer_sender, answer_receiver _ _ _ _ ha, List.length_cons]
    by_cases heven : Even older.length
    · rw [if_pos heven] at hparent
      obtain ⟨hsender, hreceiver⟩ := Prod.mk.inj hparent
      rw [if_neg fun hsucc => Nat.even_add_one.mp hsucc heven, hsender, hreceiver]
    · rw [if_neg heven] at hparent
      obtain ⟨hsender, hreceiver⟩ := Prod.mk.inj hparent
      rw [if_pos (Nat.even_add_one.mpr heven), hsender, hreceiver]

/-- In every conversation, however many agents answer and hand over to each other, message ids are
unique, all messages have the trace and the topic of the first, and from each message the parent ids
lead back to the first, from answer to what was answered, without passing a message twice. Without
handoffs the messages of a way back go back and forth between the sender and the receiver of the
first message; so if that was a broadcast, every answer to an answer is a broadcast again. -/
theorem conversation_lineage {replies : List Reply} (hroot : root.parentMessageId = none)
    (h : run converse [root] replies = some log) :
    (log.map (·.messageId)).Nodup ∧
      ∀ e ∈ log, e.traceId = root.traceId ∧ e.topic = root.topic ∧
        ∃ older, trail log e.messageId = e :: older ∧ (e :: older).Nodup ∧
          (e :: older).IsChain (Answers fun _ => True) ∧ (e :: older).getLast? = some root ∧
          ((∀ r ∈ replies, ¬ r.answer.IsHandoff) → (e.sender, e.receiver) =
            if Even older.length then (root.sender, root.receiver)
            else (root.receiver, root.sender)) := by
  have hgrown : Grown (fun _ => True) root log := grown_of_run (fun _ _ => trivial) h
  refine ⟨hgrown.nodup, fun e he => ?_⟩
  obtain ⟨older, htrail, hchain, hlast, hsub⟩ := hgrown.trail_spec hroot e he
  have htrace : e.traceId = root.traceId := by
    refine eq_of_isChain (·.traceId) ?_ hchain hlast
    rintro _ parent ⟨messageId, createdAt, a, -, rfl⟩
    exact answer_traceId parent messageId createdAt a
  have htopic : e.topic = root.topic := by
    refine eq_of_isChain (·.topic) ?_ hchain hlast
    rintro _ parent ⟨messageId, createdAt, a, -, rfl⟩
    exact answer_topic parent messageId createdAt a
  refine ⟨htrace, htopic, older, htrail, hsub.nodup hgrown.nodup.of_map, hchain, hlast,
    fun hplain => ?_⟩
  have hgrown' : Grown (fun a => ¬ a.IsHandoff) root log := grown_of_run hplain h
  obtain ⟨older', htrail', hchain', hlast', -⟩ := hgrown'.trail_spec hroot e he
  obtain rfl := (List.cons.inj (htrail.symm.trans htrail')).2
  exact parties_of_isChain hchain' hlast'

/-- A question to everyone. -/
def broadcastQuestion : MessageEnvelope where
  sender := "planner"
  receiver := "*"
  messageType := .QUERY
  traceId := "t"
  messageId := "m0"
  createdAt := 0
  ttlSeconds := some 1

/-- It is answered, and the answer is acknowledged. -/
def acknowledgedAnswer : List Reply :=
  [⟨"m0", .response .empty .RESPONSE none, "m1", 1⟩, ⟨"m1", .ack, "m2", 2⟩]

/-- `conversation_lineage` on a broadcast: the acknowledgement of an answer goes to everyone. -/
theorem conversation_lineage_broadcast :
    ∃ log, run converse [broadcastQuestion] acknowledgedAnswer = some log ∧
      (log.map (·.messageId)).Nodup ∧
      ∀ e ∈ log, e.traceId = "t" ∧ e.topic = none ∧
        ∃ older, trail log e.messageId = e :: older ∧ (e :: older).Nodup ∧
          (e :: older).IsChain (Answers fun _ => True) ∧
          (e :: older).getLast? = some broadcastQuestion ∧
          ((∀ r ∈ acknowledgedAnswer, ¬ r.answer.IsHandoff) → (e.sender, e.receiver) =
            if Even older.length then ("planner", "*") else ("*", "planner")) := by
  obtain ⟨log, hlog⟩ := Option.isSome_iff_exists.mp
    (show (run converse [broadcastQuestion] acknowledgedAnswer).isSome by decide +kernel)
  exact ⟨log, hlog, conversation_lineage rfl hlog⟩

/-- What a message that was handed on as it is keeps. -/
structure HandedOn (root e : MessageEnvelope) : Prop where
  payload : ∀ key ≠ handoffMetricsKey, e.payload.get? key = root.payload.get? key
  metadata : e.metadata = root.metadata
  priority : e.priority = root.priority

/-- Handing on keeps it. -/
theorem HandedOn.answer {e : MessageEnvelope} (h : HandedOn root e) {messageId : String}
    {createdAt : ℚ} {a : Answer} (ha : a.IsPlainHandoff) :
    HandedOn root (e.answer messageId createdAt a) := by
  cases a with
  | response => exact ha.elim
  | ack => exact ha.elim
  | error => exact ha.elim
  | handoff newReceiver handoffMetrics updatedPayload costBudgetRemainingUsd =>
    obtain rfl : updatedPayload = none := ha
    refine ⟨fun key hkey => ?_, h.metadata, h.priority⟩
    rw [← h.payload key hkey]
    exact (Dict.get?_set _ _ _ _).trans (if_neg hkey)

/-- The question is handed on twice. -/
def handedOnTwice : List Reply :=
  [⟨"m0", .handoff "b" ⟨"a", "b", "load_balancing", 0, 0, 0, 1, 1⟩ none none, "m1", 1⟩,
   ⟨"m1", .handoff "c" ⟨"b", "c", "cost_limit", 0, 0, 0, 2, 2⟩ none (some 1), "m2", 2⟩]

end Conversation

/-! ## Valid conversations -/

section Valid

variable {root e : MessageEnvelope} {log log' : List MessageEnvelope}

/-- The checks of `validate`. -/
theorem validate_eq_ok_iff : e.validate = .ok () ↔
    ¬ Blank e.sender ∧ ¬ Blank e.receiver ∧ (∀ ttl ∈ e.ttlSeconds, 0 < ttl) ∧
      ∀ budget ∈ e.costBudgetUsd, 0 ≤ budget := by
  unfold MessageEnvelope.validate
  split_ifs with hsender hreceiver
  · exact iff_of_false (by simp) fun h => h.1 hsender
  · exact iff_of_false (by simp) fun h => h.2.1 hreceiver
  · rw [and_iff_right hsender, and_iff_right hreceiver]
    cases httl : e.ttlSeconds.filter (· ≤ 0) with
    | some ttl =>
      obtain ⟨hmem, hle⟩ := Option.filter_eq_some_iff.mp httl
      exact iff_of_false (by simp) fun h =>
        absurd (h.1 ttl hmem) (not_lt.mpr (of_decide_eq_true hle))
    | none =>
      have hpos : ∀ ttl ∈ e.ttlSeconds, 0 < ttl := fun ttl hmem =>
        not_le.mp fun hle => Option.filter_eq_none_iff.mp httl ttl hmem (decide_eq_true hle)
      rw [and_iff_right hpos]
      cases hbudget : e.costBudgetUsd.filter (· < 0) with
      | some budget =>
        obtain ⟨hmem, hlt⟩ := Option.filter_eq_some_iff.mp hbudget
        exact iff_of_false (by simp) fun h =>
          absurd (h budget hmem) (not_le.mpr (of_decide_eq_true hlt))
      | none =>
        exact iff_of_true rfl fun budget hmem =>
          not_lt.mp fun hlt => Option.filter_eq_none_iff.mp hbudget budget hmem (decide_eq_true hlt)

/-- An answer to a valid message is valid exactly if its arguments are. -/
theorem validate_answer_iff (h : e.validate = .ok ()) (messageId : String) (createdAt : ℚ)
    (a : Answer) : (e.answer messageId createdAt a).validate = .ok () ↔ a.Sound := by
  obtain ⟨hsender, hreceiver, -, hbudget⟩ := validate_eq_ok_iff.mp h
  rw [validate_eq_ok_iff, answer_ttlSeconds, answer_sender]
  have httl : ∀ ttl ∈ (none : Option ℚ), 0 < ttl := fun ttl httl => by cases httl
  cases a with
  | response => exact iff_of_true ⟨hreceiver, hsender, httl, hbudget⟩ trivial
  | ack => exact iff_of_true ⟨hreceiver, hsender, httl, hbudget⟩ trivial
  | error => exact iff_of_true ⟨hreceiver, hsender, httl, hbudget⟩ trivial
  | handoff newReceiver handoffMetrics updatedPayload remaining =>
    rw [and_iff_right hreceiver, and_iff_right httl]
    refine and_congr_right fun _ => ?_
    cases remaining with
    | none => exact iff_of_true hbudget fun x hx => by cases hx
    | some x => exact Iff.rfl

/-- Every message of a conversation passes `validate` exactly if the first one does and no handoff
names a blank receiver or a negative remaining budget. No message but the first ever expires: its
time to live is not handed on. -/
theorem conversation_valid_iff {replies : List Reply}
    (h : run converse [root] replies = some log) :
    ((∀ e ∈ log, e.validate = .ok ()) ↔
      root.validate = .ok () ∧ ∀ r ∈ replies, r.answer.Sound) ∧
    ∀ e ∈ log, e = root ∨ ∀ now, e.isExpired now = false := by
  constructor
  · -- A reply to valid messages keeps them valid exactly if its arguments are sound.
    have hstep : ∀ log r log', True → converse log r = some log' →
        True ∧ ((∀ e ∈ log', e.validate = .ok ()) ↔
          (∀ e ∈ log, e.validate = .ok ()) ∧ r.answer.Sound) := by
      intro log r log' _ hstep
      obtain ⟨-, parent, hparent, -, rfl⟩ := converse_cases hstep
      refine ⟨trivial, ?_⟩
      rw [List.forall_mem_cons, and_comm]
      exact and_congr_right fun hvalid => validate_answer_iff (hvalid parent hparent) _ _ _
    rw [run_iff_along hstep trivial h, along_actions_iff h]
    exact and_congr_left' (List.forall_mem_singleton)
  · have hgrown : Grown (fun _ => True) root log := grown_of_run (fun _ _ => trivial) h
    clear h
    induction hgrown with
    | root => exact fun e he => Or.inl (List.mem_singleton.mp he)
    | @answer log parent messageId createdAt a ha hlog hparent hfresh ih =>
      intro e he
      rcases List.mem_cons.mp he with rfl | he
      · refine Or.inr fun now => ?_
        rw [MessageEnvelope.isExpired, answer_ttlSeconds]
      · exact ih e he

/-- `conversation_valid_iff` on two handoffs. -/
theorem conversation_valid_iff_handedOnTwice :
    ∃ log, run converse [broadcastQuestion] handedOnTwice = some log ∧
      ((∀ e ∈ log, e.validate = .ok ()) ↔
        broadcastQuestion.validate = .ok () ∧ ∀ r ∈ handedOnTwice, r.answer.Sound) ∧
      ∀ e ∈ log, e = broadcastQuestion ∨ ∀ now, e.isExpired now = false := by
  obtain ⟨log, hlog⟩ := Option.isSome_iff_exists.mp
    (show (run converse [broadcastQuestion] handedOnTwice).isSome by decide +kernel)
  exact ⟨log, hlog, conversation_valid_iff hlog⟩

end Valid

end MeshRouter.Messages
