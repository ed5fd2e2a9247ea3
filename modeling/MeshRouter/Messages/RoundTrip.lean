import MeshRouter.Lib.Fallible
import MeshRouter.Messages.Serializer

/-!
# What the decoders decode

Both decoders succeed with an envelope exactly when every field of the mapping converts to the field
of the envelope (`FieldsDecode`) and its creation time does. They differ in the creation time that
an absent `created_at` stands for: `from_json` reads the clock, and `_wire_dict_to_envelope` takes
zero.

`round_trip` and `decoders_agree` follow. The encoders write every field, so either decoder gives
back the envelope. On mappings that the encoders do not write, the decoders agree unless the
creation time is absent and everything else converts (`decoders_disagree`).
-/

namespace MeshRouter.Messages

open Lib

variable {conv : TextConversions} {data : Dict String Value} {e : DecodedEnvelope}

/-- Every field but the creation time converts to the field of the envelope. -/
structure FieldsDecode (conv : TextConversions) (data : Dict String Value) (e : DecodedEnvelope) :
    Prop where
  sender : item data "sender" >>= Value.toStr conv = .ok e.sender
  receiver : item data "receiver" >>= Value.toStr conv = .ok e.receiver
  payload : item data "payload" >>= Value.toDict = .ok e.payload
  messageType : item data "message_type" >>= MessageType.ofValue = .ok e.messageType
  priority : (item data "priority" >>= Value.toInt conv) >>= Priority.ofInt = .ok e.priority
  topic : itemD data "topic" .none = e.topic
  traceId : item data "trace_id" >>= Value.toStr conv = .ok e.traceId
  parentMessageId :
    optionalItem (Value.toStr conv) data "parent_message_id" = .ok e.parentMessageId
  messageId : item data "message_id" >>= Value.toStr conv = .ok e.messageId
  ttlSeconds : optionalItem (Value.toFloat conv) data "ttl_seconds" = .ok e.ttlSeconds
  costBudgetUsd : optionalItem (Value.toFloat conv) data "cost_budget_usd" = .ok e.costBudgetUsd
  metadata : (itemD data "metadata" (.dict [])).toDict = .ok e.metadata

/-- The creation time converts, with a default for an absent one. -/
def CreatedDecodes (conv : TextConversions) (data : Dict String Value) (default : ℚ)
    (createdAt : PyFloat) : Prop :=
  (itemD data "created_at" (.float default)).toFloat conv = .ok createdAt

/-- When `_wire_dict_to_envelope` succeeds. -/
theorem wireDictToEnvelope_eq_ok :
    wireDictToEnvelope conv data = .ok e ↔
      FieldsDecode conv data e ∧ CreatedDecodes conv data 0 e.createdAt := by
  unfold wireDictToEnvelope CreatedDecodes
  simp only [bind_eq_ok]
  simp only [exists_ok_bind_iff]
  constructor
  · rintro ⟨sender, hsender, receiver, hreceiver, payload, hpayload, messageType, hmessageType,
      priority, hpriority, traceId, htraceId, parentMessageId, hparent, messageId, hmessageId,
      createdAt, hcreatedAt, ttlSeconds, httl, costBudgetUsd, hcost, metadata, hmetadata, heq⟩
    obtain rfl := Except.ok.inj heq
    rw [← bind_assoc] at hpriority
    exact ⟨⟨hsender, hreceiver, hpayload, hmessageType, hpriority, rfl, htraceId, hparent,
      hmessageId, httl, hcost, hmetadata⟩, hcreatedAt⟩
  · rintro ⟨h, hcreatedAt⟩
    have hpriority := h.priority
    rw [bind_assoc] at hpriority
    refine ⟨_, h.sender, _, h.receiver, _, h.payload, _, h.messageType, _, hpriority, _, h.traceId,
      _, h.parentMessageId, _, h.messageId, _, hcreatedAt, _, h.ttlSeconds, _, h.costBudgetUsd, _,
      h.metadata, ?_⟩
    rw [h.topic]
    rfl

/-- What is raised again as another class was raised before. -/
theorem reraised_eq_ok {α : Type} {x : Except PyError α} {a : α} :
    reraised x = .ok a ↔ x = .ok a := by
  cases x with
  | ok b => exact Iff.rfl
  | error e => cases e <;> exact ⟨fun h => (by cases h), fun h => (by cases h)⟩

/-- A field that converts is there. -/
theorem mem_keys_of_item {α : Type} {convert : Value → Except PyError α} {key : String} {a : α}
    (h : item data key >>= convert = .ok a) : key ∈ data.keys := by
  obtain ⟨v, hv, -⟩ := bind_eq_ok.mp h
  unfold item at hv
  cases hget : data.get? key with
  | some v => exact Dict.mem_keys_of_get? hget
  | none =>
    rw [hget] at hv
    cases hv

/-- The fields that `from_json` looks for first are there if the fields convert. -/
theorem FieldsDecode.required (h : FieldsDecode conv data e) :
    ¬ ∃ field ∈ requiredFields, field ∉ data.keys := by
  rintro ⟨field, hfield, habsent⟩
  simp only [requiredFields, List.mem_cons, List.not_mem_nil, or_false] at hfield
  rcases hfield with rfl | rfl | rfl | rfl | rfl
  · exact habsent (mem_keys_of_item h.sender)
  · exact habsent (mem_keys_of_item h.receiver)
  · exact habsent (mem_keys_of_item h.payload)
  · exact habsent (mem_keys_of_item h.messageId)
  · exact habsent (mem_keys_of_item h.traceId)

/-- When `from_json` succeeds with an object. -/
theorem fromJsonObject_eq_ok {now : ℚ} :
    fromJsonObject conv now data = .ok e ↔
      FieldsDecode conv data e ∧ CreatedDecodes conv data now e.createdAt := by
  unfold fromJsonObject CreatedDecodes
  constructor
  · intro h
    split_ifs at h with hmissing
    simp only [bind_eq_ok, reraised_eq_ok] at h
    simp only [exists_ok_bind_iff] at h
    obtain ⟨messageType, hmessageType, priority, hpriority, sender, hsender, receiver, hreceiver,
      payload, hpayload, traceId, htraceId, parentMessageId, hparent, messageId, hmessageId,
      createdAt, hcreatedAt, ttlSeconds, httl, costBudgetUsd, hcost, metadata, hmetadata, heq⟩ := h
    obtain rfl := Except.ok.inj heq
    exact ⟨⟨hsender, hreceiver, hpayload, bind_eq_ok.mpr hmessageType, bind_eq_ok.mpr hpriority,
      rfl, htraceId, hparent, hmessageId, httl, hcost, hmetadata⟩, hcreatedAt⟩
  · rintro ⟨h, hcreatedAt⟩
    rw [if_neg h.required]
    simp only [bind_eq_ok, reraised_eq_ok]
    simp only [exists_ok_bind_iff]
    refine ⟨_, bind_eq_ok.mp h.messageType, _, bind_eq_ok.mp h.priority, _, h.sender, _, h.receiver,
      _, h.payload, _, h.traceId, _, h.parentMessageId, _, h.messageId, _, hcreatedAt, _,
      h.ttlSeconds, _, h.costBudgetUsd, _, h.metadata, ?_⟩
    rw [h.topic]
    rfl

/-! ## The round trip -/

/-- A message type is found by its value. -/
theorem MessageType.ofValue_value (t : MessageType) :
    MessageType.ofValue (.str t.value) = .ok t := by
  cases t <;> rfl

/-- A priority is found by its value. -/
theorem Priority.ofInt_value (p : Priority) : Priority.ofInt p.value = .ok p := by
  cases p <;> rfl

/-- The names of the fields are distinct. -/
theorem wireEntries_nodup (e : MessageEnvelope) : ((wireEntries e).map Prod.fst).Nodup := by
  unfold wireEntries
  simp

/-- The mapping that the encoders write. -/
theorem ofList_wireEntries (e : MessageEnvelope) :
    Dict.ofList (wireEntries e) = ⟨wireEntries e, wireEntries_nodup e⟩ :=
  Dict.ofList_entries ⟨wireEntries e, wireEntries_nodup e⟩

/-- The metadata of an envelope is converted back. -/
theorem toDict_metadata (d : Dict String String) :
    Value.toDict (.dict (d.entries.map fun m => (m.1, .str m.2))) =
      .ok (Value.ofEntries .str d.entries) := by
  have hentries : d.entries.map (fun m => (m.1, Value.str m.2)) = (d.mapValues .str).entries := rfl
  rw [hentries, Value.toDict_dict, Dict.ofList_entries]
  unfold Value.ofEntries Dict.mapValues
  rw [List.map_map]
  rfl

/-- Every field that the encoders write converts back. -/
theorem fieldsDecode_wireEntries (conv : TextConversions) (e : MessageEnvelope) :
    FieldsDecode conv (Dict.ofList (wireEntries e)) e.decoded := by
  rw [ofList_wireEntries]
  refine ⟨rfl, rfl, ?_, e.messageType.ofValue_value, e.priority.ofInt_value, rfl, rfl, ?_, rfl, ?_,
    ?_, toDict_metadata e.metadata⟩
  · change Value.toDict (.dict e.payload.entries) = _
    rw [Value.toDict_dict, Dict.ofList_entries]
    rfl
  · change optionalItem (Value.toStr conv) ⟨wireEntries e, _⟩ "parent_message_id" =
      .ok e.parentMessageId
    unfold optionalItem
    rw [show Dict.get? ⟨wireEntries e, wireEntries_nodup e⟩ "parent_message_id" =
      some (optionalText e.parentMessageId) from rfl]
    cases e.parentMessageId <;> rfl
  · change optionalItem (Value.toFloat conv) ⟨wireEntries e, _⟩ "ttl_seconds" =
      .ok (e.ttlSeconds.map .finite)
    unfold optionalItem
    rw [show Dict.get? ⟨wireEntries e, wireEntries_nodup e⟩ "ttl_seconds" =
      some (optionalFloat e.ttlSeconds) from rfl]
    cases e.ttlSeconds <;> rfl
  · change optionalItem (Value.toFloat conv) ⟨wireEntries e, _⟩ "cost_budget_usd" =
      .ok (e.costBudgetUsd.map .finite)
    unfold optionalItem
    rw [show Dict.get? ⟨wireEntries e, wireEntries_nodup e⟩ "cost_budget_usd" =
      some (optionalFloat e.costBudgetUsd) from rfl]
    cases e.costBudgetUsd <;> rfl

/-- The creation time that the encoders write converts back, whatever the default. -/
theorem createdDecodes_wireEntries (conv : TextConversions) (e : MessageEnvelope) (default : ℚ) :
    CreatedDecodes conv (Dict.ofList (wireEntries e)) default (.finite e.createdAt) := by
  rw [ofList_wireEntries]
  rfl

/-- The json library gives back the value. -/
def JsonLibrary.LosslessOn (json : JsonLibrary) (v : Value) : Prop :=
  json.loads (json.dumps v) = some v

/-- The msgpack library packs the value and gives it back, and the packed bytes do not start with
the reserved byte. -/
def MsgpackLibrary.LosslessOn (lib : MsgpackLibrary) (v : Value) : Prop :=
  ∃ packed, lib.packb v = .ok packed ∧ lib.unpackb packed = some v ∧
    packed.head? ≠ some msgpackHeader

/-- An envelope is encoded and decoded by json. -/
theorem fromJson_toJson {json : JsonLibrary} {e : MessageEnvelope}
    (hjson : json.LosslessOn (envelopeToWireDict e)) (now : ℚ) :
    fromJson conv json now (toJson json e) = .ok e.decoded := by
  unfold fromJson toJson
  rw [hjson]
  exact fromJsonObject_eq_ok.mpr
    ⟨fieldsDecode_wireEntries conv e, createdDecodes_wireEntries conv e now⟩

/-- What the decoders build determines an envelope of the promised types. -/
theorem decoded_injective : Function.Injective MessageEnvelope.decoded := by
  intro e e' h
  have hentries : ∀ {ν : Type} (value : ν → Value), Function.Injective value →
      ∀ d d' : Dict String ν, Value.ofEntries value d.entries = Value.ofEntries value d'.entries →
        d = d' := by
    rintro ν value hvalue ⟨l, hl⟩ ⟨l', hl'⟩ hd
    have hpair : Function.Injective fun m : String × ν => (Value.str m.1, value m.2) := by
      rintro ⟨k, v⟩ ⟨k', v'⟩ hkv
      obtain ⟨hk, hv⟩ := Prod.mk.inj hkv
      exact Prod.ext (Value.str.inj hk) (hvalue hv)
    have hlist : l = l' := hpair.list_map hd
    subst hlist
    rfl
  have htext : Function.Injective optionalText := by
    intro a b hab
    cases a <;> cases b
    · rfl
    · cases hab
    · cases hab
    · rw [Value.str.inj hab]
  have hfloat : Function.Injective (Option.map PyFloat.finite) :=
    Option.map_injective fun x y hxy => PyFloat.finite.inj hxy
  cases e
  cases e'
  simp only [MessageEnvelope.decoded, DecodedEnvelope.mk.injEq] at h
  obtain ⟨rfl, rfl, hpayload, rfl, rfl, htopic, rfl, rfl, rfl, hcreated, httl, hcost,
    hmetadata⟩ := h
  obtain rfl := hentries id Function.injective_id _ _ hpayload
  obtain rfl := hentries .str (fun x y hxy => Value.str.inj hxy) _ _ hmetadata
  obtain rfl := htext htopic
  obtain rfl := PyFloat.finite.inj hcreated
  obtain rfl := hfloat httl
  obtain rfl := hfloat hcost
  rfl

/-- When `_decode_msgpack` succeeds with packed bytes of a mapping. -/
theorem decodeMsgpack_eq_ok {json : JsonLibrary} {lib : MsgpackLibrary} {now : ℚ}
    {raw : List UInt8} {entries : List (String × Value)} (hheader : raw.head? ≠ some msgpackHeader)
    (hunpacked : lib.unpackb raw = some (.dict entries)) :
    decodeMsgpack conv json (some lib) now raw = .ok e ↔
      wireDictToEnvelope conv (Dict.ofList entries) = .ok e := by
  unfold decodeMsgpack
  rw [if_neg hheader]
  dsimp only
  rw [hunpacked]
  dsimp only
  cases wireDictToEnvelope conv (Dict.ofList entries) with
  | ok e' => exact Iff.rfl
  | error error => exact ⟨fun h => (by cases h), fun h => (by cases h)⟩

/-- An envelope comes back from either format, if the libraries do not lose it. The decoder needs
msgpack if the encoder has it. -/
theorem round_trip {conv : TextConversions} {json : JsonLibrary}
    {encoder decoder : Option MsgpackLibrary} {e : MessageEnvelope}
    (hjson : json.LosslessOn (envelopeToWireDict e))
    (hmsgpack : ∀ lib, encoder = some lib →
      decoder = some lib ∧ lib.LosslessOn (envelopeToWireDict e))
    (format : SerializationFormat) (now : ℚ) :
    ∃ raw, encode json encoder e format = .ok raw ∧
      decode conv json decoder now raw format = .ok e.decoded := by
  cases format with
  | json => exact ⟨_, rfl, fromJson_toJson hjson now⟩
  | msgpack =>
    unfold encode encodeMsgpack decode
    cases encoder with
    -- The fallback is found by its first byte, with or without the library.
    | none =>
      refine ⟨_, rfl, ?_⟩
      unfold decodeMsgpack
      rw [List.head?_cons, if_pos rfl]
      exact fromJson_toJson hjson now
    | some lib =>
      obtain ⟨rfl, packed, hpacked, hunpacked, hheader⟩ := hmsgpack lib rfl
      refine ⟨packed, hpacked, (decodeMsgpack_eq_ok hheader hunpacked).mpr ?_⟩
      exact wireDictToEnvelope_eq_ok.mpr
        ⟨fieldsDecode_wireEntries conv e, createdDecodes_wireEntries conv e 0⟩

/-- The table of a json library that knows one value and its text. -/
def jsonTable (value : Value) (text : List UInt8) : JsonLibrary where
  dumps v := if v = value then text else []
  loads raw := if raw = text then some value else none

/-- The table of a msgpack library that knows one value and its bytes. -/
def msgpackTable (value : Value) (packed : List UInt8) : MsgpackLibrary where
  packb v := if v = value then .ok packed else .error .typeError
  unpackb raw := if raw = packed then some value else none

theorem jsonTable_loads (value : Value) (text : List UInt8) :
    (jsonTable value text).loads text = some value :=
  if_pos rfl

theorem msgpackTable_unpackb (value : Value) (packed : List UInt8) :
    (msgpackTable value packed).unpackb packed = some value :=
  if_pos rfl

/-- The conversions of the texts that occur below, none of which is read as a number. -/
def noNumbers : TextConversions where
  readInt _ := none
  readFloat _ := none
  render _ := .error .valueError

/-- A message with a budget. -/
def budgeted : MessageEnvelope :=
  { sender := "a", receiver := "b", payload := Dict.empty.set "n" (.int 1), traceId := "t",
    messageId := "m", createdAt := 1, costBudgetUsd := some (1 / 2),
    metadata := Dict.empty.set "k" "v" }

/-- The message as JSON. -/
def budgetedJson : List UInt8 := String.toUTF8
  ("\x7b\"sender\":\"a\",\"receiver\":\"b\",\"payload\":\x7b\"n\":1\x7d," ++
    "\"message_type\":\"task\",\"priority\":2,\"topic\":null,\"trace_id\":\"t\"," ++
    "\"parent_message_id\":null,\"message_id\":\"m\",\"created_at\":1.0," ++
    "\"ttl_seconds\":null,\"cost_budget_usd\":0.5,\"metadata\":\x7b\"k\":\"v\"\x7d\x7d")
  |>.toList

/-- The message as packed by msgpack. -/
def budgetedPacked : List UInt8 :=
  [141, 166, 115, 101, 110, 100, 101, 114, 161, 97, 168, 114, 101, 99, 101, 105, 118, 101, 114,
    161, 98, 167, 112, 97, 121, 108, 111, 97, 100, 129, 161, 110, 1, 172, 109, 101, 115, 115, 97,
    103, 101, 95, 116, 121, 112, 101, 164, 116, 97, 115, 107, 168, 112, 114, 105, 111, 114, 105,
    116, 121, 2, 165, 116, 111, 112, 105, 99, 192, 168, 116, 114, 97, 99, 101, 95, 105, 100, 161,
    116, 177, 112, 97, 114, 101, 110, 116, 95, 109, 101, 115, 115, 97, 103, 101, 95, 105, 100,
    192, 170, 109, 101, 115, 115, 97, 103, 101, 95, 105, 100, 161, 109, 170, 99, 114, 101, 97,
    116, 101, 100, 95, 97, 116, 203, 63, 240, 0, 0, 0, 0, 0, 0, 171, 116, 116, 108, 95, 115, 101,
    99, 111, 110, 100, 115, 192, 175, 99, 111, 115, 116, 95, 98, 117, 100, 103, 101, 116, 95,
    117, 115, 100, 203, 63, 224, 0, 0, 0, 0, 0, 0, 168, 109, 101, 116, 97, 100, 97, 116, 97, 129,
    161, 107, 161, 118]

/-- `round_trip` on a message with a budget: by msgpack with and without the library. -/
theorem round_trip_budgeted :
    (∃ raw,
      encode (jsonTable (envelopeToWireDict budgeted) budgetedJson) none budgeted .msgpack =
        .ok raw ∧
      decode noNumbers (jsonTable (envelopeToWireDict budgeted) budgetedJson)
        (some (msgpackTable (envelopeToWireDict budgeted) budgetedPacked)) 5 raw .msgpack =
        .ok budgeted.decoded) ∧
    ∃ raw,
      encode (jsonTable (envelopeToWireDict budgeted) budgetedJson)
        (some (msgpackTable (envelopeToWireDict budgeted) budgetedPacked)) budgeted .msgpack =
        .ok raw ∧
      decode noNumbers (jsonTable (envelopeToWireDict budgeted) budgetedJson)
        (some (msgpackTable (envelopeToWireDict budgeted) budgetedPacked)) 5 raw .msgpack =
        .ok budgeted.decoded := by
  have hjson : (jsonTable (envelopeToWireDict budgeted) budgetedJson).LosslessOn
      (envelopeToWireDict budgeted) := by
    unfold JsonLibrary.LosslessOn
    rw [show (jsonTable (envelopeToWireDict budgeted) budgetedJson).dumps _ = budgetedJson from
      if_pos rfl, jsonTable_loads]
  have hmsgpack : (msgpackTable (envelopeToWireDict budgeted) budgetedPacked).LosslessOn
      (envelopeToWireDict budgeted) :=
    ⟨budgetedPacked, if_pos rfl, msgpackTable_unpackb _ _, by decide +kernel⟩
  refine ⟨round_trip hjson (fun lib hlib => ?_) .msgpack 5,
    round_trip hjson (fun lib hlib => ?_) .msgpack 5⟩
  · cases hlib
  · obtain rfl := Option.some.inj hlib
    exact ⟨rfl, hmsgpack⟩

/-! ## Mappings that the encoders do not write -/

/-- What a computation returns, if it does. -/
theorem toOption_eq_some_iff {ε α : Type} {x : Except ε α} {a : α} :
    x.toOption = some a ↔ x = .ok a := by
  cases x with
  | ok b =>
    exact ⟨fun h => congrArg Except.ok (Option.some.inj h),
      fun h => congrArg some (Except.ok.inj h)⟩
  | error e => exact ⟨fun h => (by cases h), fun h => (by cases h)⟩

/-- The creation time does not depend on the default if there is one. -/
theorem createdDecodes_of_mem {default default' : ℚ} {createdAt : PyFloat}
    (hmem : "created_at" ∈ data.keys) :
    CreatedDecodes conv data default createdAt ↔ CreatedDecodes conv data default' createdAt := by
  obtain ⟨v, hv⟩ := Dict.mem_keys_iff.mp hmem
  unfold CreatedDecodes itemD
  rw [hv]
  rfl

/-- An absent creation time is the default. -/
theorem createdDecodes_of_notMem {default : ℚ} {createdAt : PyFloat}
    (hmem : "created_at" ∉ data.keys) :
    CreatedDecodes conv data default createdAt ↔ createdAt = .finite default := by
  unfold CreatedDecodes itemD
  rw [Dict.get?_eq_none_iff.mpr hmem]
  exact ⟨fun h => (Except.ok.inj h).symm, fun h => congrArg Except.ok h.symm⟩

/-- When the two decoders agree on a mapping. -/
theorem toOption_eq_iff {now : ℚ} :
    (fromJsonObject conv now data).toOption = (wireDictToEnvelope conv data).toOption ↔
      "created_at" ∈ data.keys ∨ now = 0 ∨ ¬ ∃ e, FieldsDecode conv data e := by
  constructor
  · intro hagree
    by_contra hnot
    obtain ⟨hmem, hnow, hfields⟩ : "created_at" ∉ data.keys ∧ now ≠ 0 ∧
        ∃ e, FieldsDecode conv data e := by
      simpa only [not_or, not_not] using hnot
    -- The envelope that `from_json` builds has the time of the clock, and the other has zero.
    obtain ⟨e, he⟩ := hfields
    have hjson : fromJsonObject conv now data = .ok { e with createdAt := .finite now } :=
      fromJsonObject_eq_ok.mpr ⟨{ he with }, (createdDecodes_of_notMem hmem).mpr rfl⟩
    rw [hjson] at hagree
    have hwire := wireDictToEnvelope_eq_ok.mp (toOption_eq_some_iff.mp hagree.symm)
    exact hnow (PyFloat.finite.inj ((createdDecodes_of_notMem hmem).mp hwire.2))
  · intro hcond
    refine Option.ext fun e => ?_
    rw [toOption_eq_some_iff, toOption_eq_some_iff, fromJsonObject_eq_ok, wireDictToEnvelope_eq_ok]
    rcases hcond with hmem | rfl | hnone
    · rw [createdDecodes_of_mem hmem]
    · rfl
    · exact ⟨fun h => absurd ⟨e, h.1⟩ hnone, fun h => absurd ⟨e, h.1⟩ hnone⟩

/-- The decoders of one mapping, as JSON and as packed by msgpack, both fail or build equal
envelopes exactly when the creation time is there, or the clock reads zero, or some other field does
not convert. -/
theorem decoders_agree {conv : TextConversions} {json : JsonLibrary} {lib : MsgpackLibrary}
    {now : ℚ} {rawJson rawPacked : List UInt8} {data : Dict String Value}
    (hjson : json.loads rawJson = some (.dict data.entries))
    (hpacked : lib.unpackb rawPacked = some (.dict data.entries))
    (hheader : rawPacked.head? ≠ some msgpackHeader) :
    ((fromJson conv json now rawJson).toOption =
        (decodeMsgpack conv json (some lib) now rawPacked).toOption ↔
      "created_at" ∈ data.keys ∨ now = 0 ∨ ¬ ∃ e, FieldsDecode conv data e) ∧
    ((fromJson conv json now rawJson).toOption = (wireDictToEnvelope conv data).toOption ↔
      "created_at" ∈ data.keys ∨ now = 0 ∨ ¬ ∃ e, FieldsDecode conv data e) := by
  have hobject : fromJson conv json now rawJson = fromJsonObject conv now data := by
    unfold fromJson
    rw [hjson]
    exact congrArg (fromJsonObject conv now) (Dict.ofList_entries data)
  have hwire : (decodeMsgpack conv json (some lib) now rawPacked).toOption =
      (wireDictToEnvelope conv data).toOption := by
    refine Option.ext fun e => ?_
    rw [toOption_eq_some_iff, toOption_eq_some_iff, decodeMsgpack_eq_ok hheader hpacked,
      Dict.ofList_entries]
  rw [hobject, hwire]
  exact ⟨toOption_eq_iff, toOption_eq_iff⟩

/-- A mapping with the fields that have no default. -/
def undated : Dict String Value :=
  .ofList [("sender", .str "a"), ("receiver", .str "b"), ("payload", .dict []),
    ("message_type", .str "task"), ("priority", .int 2), ("trace_id", .str "t"),
    ("message_id", .str "m")]

/-- The mapping as JSON. -/
def undatedJson : List UInt8 := String.toUTF8
  ("\x7b\"sender\":\"a\",\"receiver\":\"b\",\"payload\":\x7b\x7d," ++
    "\"message_type\":\"task\",\"priority\":2,\"trace_id\":\"t\",\"message_id\":\"m\"\x7d")
  |>.toList

/-- The mapping as packed by msgpack. -/
def undatedPacked : List UInt8 :=
  [135, 166, 115, 101, 110, 100, 101, 114, 161, 97, 168, 114, 101, 99, 101, 105, 118, 101, 114,
    161, 98, 167, 112, 97, 121, 108, 111, 97, 100, 128, 172, 109, 101, 115, 115, 97, 103, 101,
    95, 116, 121, 112, 101, 164, 116, 97, 115, 107, 168, 112, 114, 105, 111, 114, 105, 116, 121,
    2, 168, 116, 114, 97, 99, 101, 95, 105, 100, 161, 116, 170, 109, 101, 115, 115, 97, 103, 101,
    95, 105, 100, 161, 109]

/-- Without a creation time, one decoder takes the time of the clock and the other takes zero. -/
theorem decoders_disagree :
    ¬ ∀ (conv : TextConversions) (json : JsonLibrary) (lib : MsgpackLibrary) (now : ℚ)
      (rawJson rawPacked : List UInt8) (data : Dict String Value),
      json.loads rawJson = some (.dict data.entries) →
      lib.unpackb rawPacked = some (.dict data.entries) → rawPacked.head? ≠ some msgpackHeader →
      (fromJson conv json now rawJson).toOption =
        (decodeMsgpack conv json (some lib) now rawPacked).toOption := by
  intro hall
  have hagree := hall noNumbers (jsonTable (.dict undated.entries) undatedJson)
    (msgpackTable (.dict undated.entries) undatedPacked) 1700000000 undatedJson undatedPacked
    undated
    (jsonTable_loads _ _) (msgpackTable_unpackb _ _) (by decide +kernel)
  have hobject : fromJson noNumbers (jsonTable (.dict undated.entries) undatedJson) 1700000000
      undatedJson = fromJsonObject noNumbers 1700000000 undated := by
    unfold fromJson
    rw [jsonTable_loads]
    exact congrArg (fromJsonObject noNumbers 1700000000) (Dict.ofList_entries undated)
  rw [hobject] at hagree
  have hcreated : ((fromJsonObject noNumbers 1700000000 undated).toOption.map
      DecodedEnvelope.createdAt) = some (.finite 1700000000) := by decide +kernel
  have hzero : ((decodeMsgpack noNumbers (jsonTable (.dict undated.entries) undatedJson)
      (some (msgpackTable (.dict undated.entries) undatedPacked)) 1700000000
      undatedPacked).toOption.map DecodedEnvelope.createdAt) = some (.finite 0) := by
    decide +kernel
  rw [hagree, hzero] at hcreated
  cases hcreated

/-- `decoders_agree` on a mapping without a creation time, at the time zero. -/
theorem decoders_agree_undated :
    (fromJson noNumbers (jsonTable (.dict undated.entries) undatedJson) 0 undatedJson).toOption =
      (decodeMsgpack noNumbers (jsonTable (.dict undated.entries) undatedJson)
        (some (msgpackTable (.dict undated.entries) undatedPacked)) 0 undatedPacked).toOption :=
  (decoders_agree (jsonTable_loads _ _) (msgpackTable_unpackb _ _) (by decide +kernel)).1.mpr
    (Or.inr (Or.inl rfl))

end MeshRouter.Messages
