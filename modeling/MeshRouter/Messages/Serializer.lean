import MeshRouter.Builtins
import MeshRouter.Messages.Envelope

/-!
# Serialization of envelopes

`to_json` and `from_json` of `messages/envelope.py` and the `MessageSerializer` of
`messages/serializer.py`. The json and msgpack libraries are parameters, and so is whether msgpack
is installed. The decoders check less than the types of the envelope promise: they build a
`DecodedEnvelope`, whose topic is whatever the wire held and whose payload and metadata may have any
keys and values. `MessageEnvelope.decoded` is what an envelope of the promised types is as such a
value.
-/

namespace MeshRouter.Messages

open Lib

/-- The value of a message type on the wire. -/
def MessageType.value : MessageType → String
  | .TASK => "task"
  | .QUERY => "query"
  | .RESPONSE => "response"
  | .RESULT => "result"
  | .HANDOFF => "handoff"
  | .BROADCAST => "broadcast"
  | .HEARTBEAT => "heartbeat"
  | .ERROR => "error"
  | .CANCEL => "cancel"
  | .ACK => "ack"

/-- The message types, in the order of their definition. -/
def MessageType.members : List MessageType :=
  [.TASK, .QUERY, .RESPONSE, .RESULT, .HANDOFF, .BROADCAST, .HEARTBEAT, .ERROR, .CANCEL, .ACK]

/-- `MessageType(value)`. -/
def MessageType.ofValue (value : Value) : Except PyError MessageType :=
  match MessageType.members.find? fun t => .str t.value = value with
  | some t => .ok t
  | none => .error .valueError

/-- The priorities, in the order of their definition. -/
def Priority.members : List Priority := [.CRITICAL, .HIGH, .NORMAL, .LOW, .BATCH]

/-- `Priority(n)`. -/
def Priority.ofInt (n : ℤ) : Except PyError Priority :=
  match Priority.members.find? fun p => (p.value : ℤ) = n with
  | some p => .ok p
  | none => .error .valueError

/-- An envelope as the decoders build it. -/
structure DecodedEnvelope where
  sender : String
  receiver : String
  payload : PyDict
  messageType : MessageType
  priority : Priority
  topic : Value
  traceId : String
  parentMessageId : Option String
  messageId : String
  createdAt : PyFloat
  ttlSeconds : Option PyFloat
  costBudgetUsd : Option PyFloat
  metadata : PyDict
deriving DecidableEq

/-- An optional text as an untyped value. -/
def optionalText : Option String → Value
  | none => .none
  | some s => .str s

/-- An optional float as an untyped value. -/
def optionalFloat : Option ℚ → Value
  | none => .none
  | some x => .float x

/-- An envelope of the promised types. -/
def MessageEnvelope.decoded (e : MessageEnvelope) : DecodedEnvelope where
  sender := e.sender
  receiver := e.receiver
  payload := Value.ofEntries id e.payload.entries
  messageType := e.messageType
  priority := e.priority
  topic := optionalText e.topic
  traceId := e.traceId
  parentMessageId := e.parentMessageId
  messageId := e.messageId
  createdAt := .finite e.createdAt
  ttlSeconds := e.ttlSeconds.map .finite
  costBudgetUsd := e.costBudgetUsd.map .finite
  metadata := Value.ofEntries .str e.metadata.entries

/-- The json library: `dumps` followed by the encoding to UTF-8, and `loads`, which is `none` when
it raises. -/
structure JsonLibrary where
  dumps : Value → List UInt8
  loads : List UInt8 → Option Value

/-- The msgpack library: `packb`, which may raise, and `unpackb`, which is `none` when it does. -/
structure MsgpackLibrary where
  packb : Value → Except PyError (List UInt8)
  unpackb : List UInt8 → Option Value

/-- The formats of the serializer. -/
inductive SerializationFormat where
  | json
  | msgpack
deriving DecidableEq

/-- `_MSGPACK_HEADER`. -/
def msgpackHeader : UInt8 := 0xc1

/-! ## Encoding -/

/-- The entries that `_envelope_to_wire_dict` and `to_json` write. -/
def wireEntries (e : MessageEnvelope) : List (String × Value) :=
  [("sender", .str e.sender),
    ("receiver", .str e.receiver),
    ("payload", .dict e.payload.entries),
    ("message_type", .str e.messageType.value),
    ("priority", .int e.priority.value),
    ("topic", optionalText e.topic),
    ("trace_id", .str e.traceId),
    ("parent_message_id", optionalText e.parentMessageId),
    ("message_id", .str e.messageId),
    ("created_at", .float e.createdAt),
    ("ttl_seconds", optionalFloat e.ttlSeconds),
    ("cost_budget_usd", optionalFloat e.costBudgetUsd),
    ("metadata", .dict (e.metadata.entries.map fun m => (m.1, .str m.2)))]

/-- `_envelope_to_wire_dict`. -/
def envelopeToWireDict (e : MessageEnvelope) : Value := .dict (wireEntries e)

/-- `to_json`. -/
def toJson (json : JsonLibrary) (e : MessageEnvelope) : List UInt8 :=
  json.dumps (envelopeToWireDict e)

/-- `_encode_msgpack`, with the msgpack library if it is installed. -/
def encodeMsgpack (json : JsonLibrary) (msgpack : Option MsgpackLibrary) (e : MessageEnvelope) :
    Except PyError (List UInt8) :=
  match msgpack with
  | some lib => lib.packb (envelopeToWireDict e)
  | none => .ok (msgpackHeader :: toJson json e)

/-- `encode`. -/
def encode (json : JsonLibrary) (msgpack : Option MsgpackLibrary) (e : MessageEnvelope) :
    SerializationFormat → Except PyError (List UInt8)
  | .json => .ok (toJson json e)
  | .msgpack => encodeMsgpack json msgpack e

/-! ## Decoding -/

/-- `data[key]`. -/
def item (data : Dict String Value) (key : String) : Except PyError Value :=
  match data.get? key with
  | some v => .ok v
  | none => .error .keyError

/-- `convert(data[key]) if data.get(key) is not None else None`. -/
def optionalItem {α : Type} (convert : Value → Except PyError α) (data : Dict String Value)
    (key : String) : Except PyError (Option α) :=
  match data.get? key with
  | none => .ok none
  | some .none => .ok none
  | some v => (convert v).map some

/-- `data.get(key, default)`. -/
def itemD (data : Dict String Value) (key : String) (default : Value) : Value :=
  (data.get? key).getD default

/-- A `ValueError` or `KeyError` is raised again as a `ValueError`. -/
def reraised {α : Type} : Except PyError α → Except PyError α
  | .ok a => .ok a
  | .error .valueError => .error .valueError
  | .error .keyError => .error .valueError
  | .error e => .error e

/-- The fields that `from_json` requires. -/
def requiredFields : List String := ["sender", "receiver", "payload", "message_id", "trace_id"]

/-- `from_json`, from the object that was loaded. `now` is the reading of the clock. -/
def fromJsonObject (conv : TextConversions) (now : ℚ) (data : Dict String Value) :
    Except PyError DecodedEnvelope :=
  if ∃ field ∈ requiredFields, field ∉ data.keys then
    .error .valueError
  else do
    let messageType ← reraised (do MessageType.ofValue (← item data "message_type"))
    let priority ← reraised (do Priority.ofInt (← (← item data "priority").toInt conv))
    let sender ← (← item data "sender").toStr conv
    let receiver ← (← item data "receiver").toStr conv
    let payload ← (← item data "payload").toDict
    let traceId ← (← item data "trace_id").toStr conv
    let parentMessageId ← optionalItem (Value.toStr conv) data "parent_message_id"
    let messageId ← (← item data "message_id").toStr conv
    let createdAt ← (itemD data "created_at" (.float now)).toFloat conv
    let ttlSeconds ← optionalItem (Value.toFloat conv) data "ttl_seconds"
    let costBudgetUsd ← optionalItem (Value.toFloat conv) data "cost_budget_usd"
    let metadata ← (itemD data "metadata" (.dict [])).toDict
    return {
      sender := sender
      receiver := receiver
      payload := payload
      messageType := messageType
      priority := priority
      topic := itemD data "topic" .none
      traceId := traceId
      parentMessageId := parentMessageId
      messageId := messageId
      createdAt := createdAt
      ttlSeconds := ttlSeconds
      costBudgetUsd := costBudgetUsd
      metadata := metadata }

/-- `from_json`. -/
def fromJson (conv : TextConversions) (json : JsonLibrary) (now : ℚ) (raw : List UInt8) :
    Except PyError DecodedEnvelope :=
  match json.loads raw with
  | some (.dict entries) => fromJsonObject conv now (Dict.ofList entries)
  | _ => .error .valueError

/-- `_wire_dict_to_envelope`. -/
def wireDictToEnvelope (conv : TextConversions) (data : Dict String Value) :
    Except PyError DecodedEnvelope := do
  let sender ← (← item data "sender").toStr conv
  let receiver ← (← item data "receiver").toStr conv
  let payload ← (← item data "payload").toDict
  let messageType ← MessageType.ofValue (← item data "message_type")
  let priority ← Priority.ofInt (← (← item data "priority").toInt conv)
  let traceId ← (← item data "trace_id").toStr conv
  let parentMessageId ← optionalItem (Value.toStr conv) data "parent_message_id"
  let messageId ← (← item data "message_id").toStr conv
  let createdAt ← (itemD data "created_at" (.float 0)).toFloat conv
  let ttlSeconds ← optionalItem (Value.toFloat conv) data "ttl_seconds"
  let costBudgetUsd ← optionalItem (Value.toFloat conv) data "cost_budget_usd"
  let metadata ← (itemD data "metadata" (.dict [])).toDict
  return {
    sender := sender
    receiver := receiver
    payload := payload
    messageType := messageType
    priority := priority
    topic := itemD data "topic" .none
    traceId := traceId
    parentMessageId := parentMessageId
    messageId := messageId
    createdAt := createdAt
    ttlSeconds := ttlSeconds
    costBudgetUsd := costBudgetUsd
    metadata := metadata }

/-- `_decode_msgpack`, with the msgpack library if it is installed. Whatever `unpackb` or the
decoder raises is raised again as a `ValueError`, and so is the failed lookup in an object that is
no mapping. -/
def decodeMsgpack (conv : TextConversions) (json : JsonLibrary) (msgpack : Option MsgpackLibrary)
    (now : ℚ) (raw : List UInt8) : Except PyError DecodedEnvelope :=
  if raw.head? = some msgpackHeader then
    fromJson conv json now (raw.drop 1)
  else
    match msgpack with
    | none => .error .valueError
    | some lib =>
      match lib.unpackb raw with
      | some (.dict entries) =>
        match wireDictToEnvelope conv (Dict.ofList entries) with
        | .ok e => .ok e
        | .error _ => .error .valueError
      | _ => .error .valueError

/-- `decode`. -/
def decode (conv : TextConversions) (json : JsonLibrary) (msgpack : Option MsgpackLibrary) (now : ℚ)
    (raw : List UInt8) : SerializationFormat → Except PyError DecodedEnvelope
  | .json => fromJson conv json now raw
  | .msgpack => decodeMsgpack conv json msgpack now raw

end MeshRouter.Messages
