import MeshRouter.Messages.RoundTrip

/-!
# What escapes the decoding of untrusted bytes

`from_json` documents a `ValueError` for what it cannot decode. Two of the conversions are guarded,
and raise again what `MessageType` and `Priority` raise; the others, and the `int` in the second,
let a `TypeError` or an `OverflowError` out. `EscapesInt`, `EscapesFloat` and `EscapesDict` say for
which values. A document is decoded in one order, so what is raised is up to the first field that
does not convert: `fromJson_valueError_iff` says that no other error escapes exactly when that
field, if there is one, is not of these values.
-/

namespace MeshRouter.Messages

open Lib

/-! ## Errors of another class -/

section Raises

variable {α β : Type}

/-- A computation raises, and not a `ValueError`. -/
def RaisesOther (x : Except PyError α) : Prop := ∃ e, x = .error e ∧ e ≠ .valueError

/-- A computation returns. -/
def Converts (x : Except PyError α) : Prop := ∃ a, x = .ok a

@[simp]
theorem not_raisesOther_ok (a : α) : ¬ RaisesOther (.ok a : Except PyError α) := by
  rintro ⟨e, he, -⟩
  cases he

@[simp]
theorem raisesOther_error {e : PyError} :
    RaisesOther (.error e : Except PyError α) ↔ e ≠ .valueError := by
  constructor
  · rintro ⟨_, ⟨⟩, he⟩
    exact he
  · exact fun he => ⟨e, rfl, he⟩

/-- Two computations of which the second, if the first returns, raises another error or not
whatever the first returns. -/
theorem raisesOther_bind_iff {x : Except PyError α} {f : α → Except PyError β} {bad rest : Prop}
    (hbad : RaisesOther x ↔ bad) (hrest : ∀ a, RaisesOther (f a) ↔ rest) :
    RaisesOther (x >>= f) ↔ bad ∨ Converts x ∧ rest := by
  rw [← hbad]
  constructor
  · rintro ⟨e, he, hne⟩
    rcases bind_eq_error.mp he with hx | ⟨a, hx, hf⟩
    · exact .inl ⟨e, hx, hne⟩
    · exact .inr ⟨⟨a, hx⟩, (hrest a).mp ⟨e, hf, hne⟩⟩
  · rintro (⟨e, hx, hne⟩ | ⟨⟨a, hx⟩, h⟩)
    · exact ⟨e, bind_eq_error.mpr (.inl hx), hne⟩
    · obtain ⟨e, hf, hne⟩ := (hrest a).mpr h
      exact ⟨e, bind_eq_error.mpr (.inr ⟨a, hx, hf⟩), hne⟩

/-- Converting what a computation returns adds no error. -/
theorem raisesOther_map {x : Except PyError α} {f : α → β} :
    RaisesOther (x.map f) ↔ RaisesOther x := by
  cases x with
  | ok a => exact iff_of_false (not_raisesOther_ok _) (not_raisesOther_ok _)
  | error e => exact raisesOther_error.trans raisesOther_error.symm

end Raises

variable {conv : TextConversions} {data : Dict String Value} {key : String} {now : ℚ}

/-! ## The conversions -/

/-- `int` raises a `TypeError` or an `OverflowError`. -/
def EscapesInt : Value → Prop
  | .none | .list _ | .dict _ | .infinite _ => True
  | .bool _ | .int _ | .float _ | .nan | .str _ => False

/-- `float` raises a `TypeError` or an `OverflowError`. -/
def EscapesFloat : Value → Prop
  | .none | .list _ | .dict _ => True
  | .int n => floatLimit ≤ n.natAbs
  | .bool _ | .float _ | .infinite _ | .nan | .str _ => False

/-- An element of which `dict` raises a `TypeError` when it reads a key and a value from it. -/
def EscapesPair : Value → Prop
  | .none | .bool _ | .int _ | .float _ | .infinite _ | .nan => True
  | .list [k, _] => k.hashable = false
  | .list _ | .str _ | .dict _ => False

/-- `dict` raises a `TypeError`. -/
def EscapesDict : Value → Prop
  | .none | .bool _ | .int _ | .float _ | .infinite _ | .nan => True
  | .list xs => FirstFails (fun x => Converts x.pair) EscapesPair xs
  | .str _ | .dict _ => False

theorem raisesOther_toInt {v : Value} : RaisesOther (v.toInt conv) ↔ EscapesInt v := by
  cases v with
  | str s =>
    unfold Value.toInt
    dsimp only
    cases conv.readInt s with
    | none => simp [EscapesInt]
    | some n => simp [EscapesInt]
  | _ => simp [Value.toInt, EscapesInt]

theorem raisesOther_floatOfInt {n : ℤ} : RaisesOther (floatOfInt n) ↔ floatLimit ≤ n.natAbs := by
  unfold floatOfInt
  split_ifs with h
  · exact iff_of_false (not_raisesOther_ok _) h.not_ge
  · exact iff_of_true (raisesOther_error.mpr (by decide)) (not_lt.mp h)

theorem raisesOther_toFloat {v : Value} : RaisesOther (v.toFloat conv) ↔ EscapesFloat v := by
  cases v with
  | str s =>
    unfold Value.toFloat
    dsimp only
    cases conv.readFloat s with
    | none => simp [EscapesFloat]
    | some x => simp [EscapesFloat]
  | int n => simp only [Value.toFloat, EscapesFloat, raisesOther_map, raisesOther_floatOfInt]
  | _ => simp [Value.toFloat, EscapesFloat]

theorem raisesOther_pair {v : Value} : RaisesOther v.pair ↔ EscapesPair v := by
  cases v with
  | list xs =>
    rcases xs with _ | ⟨k, _ | ⟨w, _ | ⟨x, xs⟩⟩⟩
    · simp [Value.pair, EscapesPair]
    · simp [Value.pair, EscapesPair]
    · unfold Value.pair EscapesPair
      dsimp only
      split_ifs with hk
      · simp [hk]
      · simp [hk]
    · simp [Value.pair, EscapesPair]
  | str s =>
    unfold Value.pair
    dsimp only
    split <;> simp [EscapesPair]
  | dict entries =>
    unfold Value.pair
    dsimp only
    split <;> simp [EscapesPair]
  | _ => simp [Value.pair, EscapesPair]

/-- The loop of `dict` over the elements. -/
theorem raisesOther_foldlM_pair (xs : List Value) (d : PyDict) :
    RaisesOther (xs.foldlM (fun d x => (Value.pair x).map fun e => Value.setKey d e.1 e.2) d) ↔
      FirstFails (fun x => Converts x.pair) EscapesPair xs := by
  induction xs generalizing d with
  | nil => exact iff_of_false (not_raisesOther_ok d) not_false
  | cons x xs ih =>
    have hmap : Converts (x.pair.map fun e => Value.setKey d e.1 e.2) ↔ Converts x.pair := by
      cases x.pair with
      | ok e => exact iff_of_true ⟨_, rfl⟩ ⟨_, rfl⟩
      | error e => exact iff_of_false (by rintro ⟨_, ⟨⟩⟩) (by rintro ⟨_, ⟨⟩⟩)
    rw [List.foldlM_cons, raisesOther_bind_iff (raisesOther_map.trans raisesOther_pair) ih, hmap]
    rfl

theorem raisesOther_toDict {v : Value} : RaisesOther v.toDict ↔ EscapesDict v := by
  cases v with
  | list xs => exact raisesOther_foldlM_pair xs []
  | str s =>
    unfold Value.toDict
    dsimp only
    split_ifs <;> simp [EscapesDict]
  | _ => simp [Value.toDict, EscapesDict]

/-- `str` of a value that was decoded from JSON raises nothing but a `ValueError`, when an integer
has too many digits. -/
def RendersJson (conv : TextConversions) : Prop :=
  ∀ v e, conv.render v = .error e → e = .valueError

theorem not_raisesOther_toStr (hrender : RendersJson conv) (v : Value) :
    ¬ RaisesOther (v.toStr conv) := by
  rintro ⟨e, he, hne⟩
  cases v with
  | str s => cases he
  | _ => exact hne (hrender _ _ he)

theorem toInt_ne_keyError (v : Value) : v.toInt conv ≠ .error .keyError := by
  cases v with
  | str s =>
    unfold Value.toInt
    dsimp only
    cases conv.readInt s <;> simp
  | _ => simp [Value.toInt]

/-! ## The fields -/

/-- The document has the key, and its value is of a kind. -/
def At (data : Dict String Value) (key : String) (kind : Value → Prop) : Prop :=
  ∃ v, data.get? key = some v ∧ kind v

section Fields

variable {α : Type} {convert : Value → Except PyError α} {wrong : Value → Prop}

theorem item_of_mem (h : key ∈ data.keys) :
    ∃ v, data.get? key = some v ∧ item data key = .ok v := by
  obtain ⟨v, hv⟩ := Dict.mem_keys_iff.mp h
  refine ⟨v, hv, ?_⟩
  rw [item, hv]

/-- A field that is there. -/
theorem raisesOther_item (h : key ∈ data.keys) (hwrong : ∀ v, RaisesOther (convert v) ↔ wrong v) :
    RaisesOther (item data key >>= convert) ↔ At data key wrong := by
  obtain ⟨v, hv, hitem⟩ := item_of_mem h
  have hconvert : item data key >>= convert = convert v := by rw [hitem]; rfl
  rw [hconvert, hwrong, At]
  simp [hv]

/-- A field that may be absent or `null`. -/
theorem raisesOther_optionalItem (hwrong : ∀ v, RaisesOther (convert v) ↔ wrong v) :
    RaisesOther (optionalItem convert data key) ↔ At data key fun v => v ≠ .none ∧ wrong v := by
  unfold optionalItem At
  cases data.get? key with
  | none => simp
  | some v =>
    cases v with
    | none => simp
    | _ => simp [raisesOther_map, hwrong]

/-- A field with a default that converts. -/
theorem raisesOther_itemD {default : Value} (hwrong : ∀ v, RaisesOther (convert v) ↔ wrong v)
    (hdefault : ¬ wrong default) :
    RaisesOther (convert (itemD data key default)) ↔ At data key wrong := by
  unfold itemD At
  rw [hwrong]
  cases data.get? key with
  | none => simp [hdefault]
  | some v => simp

/-- A guarded field, which may be absent. -/
theorem raisesOther_reraised_item (hwrong : ∀ v, RaisesOther (convert v) ↔ wrong v)
    (hkey : ∀ v, convert v ≠ .error .keyError) :
    RaisesOther (reraised (item data key >>= convert)) ↔ At data key wrong := by
  unfold At item
  cases data.get? key with
  | none => exact iff_of_false (fun ⟨_, he, hne⟩ => hne (Except.error.inj he).symm) (by simp)
  | some v =>
    have hconvert : (Except.ok v >>= convert) = convert v := rfl
    dsimp only
    rw [hconvert]
    simp only [Option.some.injEq, exists_eq_left', ← hwrong]
    cases hv : convert v with
    | ok a => exact iff_of_false (not_raisesOther_ok a) (not_raisesOther_ok a)
    | error e =>
      have hne := hkey v
      rw [hv] at hne
      cases e <;> simp_all [reraised]

theorem converts_reraised {x : Except PyError α} : Converts (reraised x) ↔ Converts x :=
  exists_congr fun _ => reraised_eq_ok

end Fields

/-- What `MessageType` raises is a `ValueError`. -/
theorem ofValue_error {v : Value} {e : PyError} (h : MessageType.ofValue v = .error e) :
    e = .valueError := by
  unfold MessageType.ofValue at h
  split at h <;> simp_all

/-- What `Priority` raises is a `ValueError`. -/
theorem ofInt_error {n : ℤ} {e : PyError} (h : Priority.ofInt n = .error e) : e = .valueError := by
  unfold Priority.ofInt at h
  split at h <;> simp_all

/-- The message type raises nothing else. -/
theorem raisesOther_messageType :
    RaisesOther (reraised (item data "message_type" >>= MessageType.ofValue)) ↔ False := by
  have hwrong : ∀ v, RaisesOther (MessageType.ofValue v) ↔ False := fun v =>
    iff_of_false (fun ⟨_, he, hne⟩ => hne (ofValue_error he)) not_false
  have hkey : ∀ v, MessageType.ofValue v ≠ .error .keyError := fun v he =>
    nomatch ofValue_error he
  rw [raisesOther_reraised_item hwrong hkey]
  simp [At]

/-- The priority, of which `int` may raise something else. -/
theorem raisesOther_priority :
    RaisesOther (reraised (item data "priority" >>= fun v => v.toInt conv >>= Priority.ofInt)) ↔
      At data "priority" EscapesInt := by
  have hofInt : ∀ n, RaisesOther (Priority.ofInt n) ↔ False := fun n =>
    iff_of_false (fun ⟨_, he, hne⟩ => hne (ofInt_error he)) not_false
  refine raisesOther_reraised_item (fun v => ?_) fun v he => ?_
  · rw [raisesOther_bind_iff raisesOther_toInt hofInt, and_false, or_false]
  · rcases bind_eq_error.mp he with hint | ⟨n, -, hn⟩
    · exact toInt_ne_keyError v hint
    · exact nomatch ofInt_error hn

/-! ## The document -/

/-- What the decoding of a field comes to: that it converts, or that a `TypeError` or an
`OverflowError` escapes. -/
structure FieldCheck where
  converts : Prop
  escapes : Prop

/-- A required field that is a text, or is made one. -/
def textCheck (conv : TextConversions) (data : Dict String Value) (key : String) : FieldCheck :=
  ⟨Converts (item data key >>= Value.toStr conv), False⟩

/-- An optional field that is a float, or is made one. -/
def floatCheck (conv : TextConversions) (data : Dict String Value) (key : String) : FieldCheck :=
  ⟨Converts (optionalItem (Value.toFloat conv) data key),
    At data key fun v => v ≠ .none ∧ EscapesFloat v⟩

/-- The fields in the order in which `from_json` decodes them. -/
def fieldChecks (conv : TextConversions) (now : ℚ) (data : Dict String Value) : List FieldCheck :=
  [⟨Converts (item data "message_type" >>= MessageType.ofValue), False⟩,
    ⟨Converts (item data "priority" >>= fun v => v.toInt conv >>= Priority.ofInt),
      At data "priority" EscapesInt⟩,
    textCheck conv data "sender",
    textCheck conv data "receiver",
    ⟨Converts (item data "payload" >>= Value.toDict), At data "payload" EscapesDict⟩,
    textCheck conv data "trace_id",
    ⟨Converts (optionalItem (Value.toStr conv) data "parent_message_id"), False⟩,
    textCheck conv data "message_id",
    ⟨Converts ((itemD data "created_at" (.float now)).toFloat conv),
      At data "created_at" EscapesFloat⟩,
    floatCheck conv data "ttl_seconds",
    floatCheck conv data "cost_budget_usd",
    ⟨Converts (itemD data "metadata" (.dict [])).toDict, At data "metadata" EscapesDict⟩]

/-- A document of which a `TypeError` or an `OverflowError` escapes: it has the required fields, and
one of its fields is wrong in a way that is not guarded, while all fields before it convert. -/
def EscapesDocument (conv : TextConversions) (now : ℚ) (data : Dict String Value) : Prop :=
  (∀ field ∈ requiredFields, field ∈ data.keys) ∧
    FirstFails FieldCheck.converts FieldCheck.escapes (fieldChecks conv now data)

/-- A stage of the decoding, and the rest of it. -/
theorem raisesOther_stage {α β : Type} {x : Except PyError α} {f : α → Except PyError β}
    {check : FieldCheck} {checks : List FieldCheck} (hok : Converts x ↔ check.converts)
    (hbad : RaisesOther x ↔ check.escapes)
    (hrest : ∀ a, RaisesOther (f a) ↔ FirstFails FieldCheck.converts FieldCheck.escapes checks) :
    RaisesOther (x >>= f) ↔
      FirstFails FieldCheck.converts FieldCheck.escapes (check :: checks) := by
  rw [raisesOther_bind_iff hbad hrest, hok]
  rfl

/-- The stage of a required field. -/
theorem raisesOther_itemStage {α β : Type} {convert : Value → Except PyError α}
    {f : α → Except PyError β} {escapes : Prop} {checks : List FieldCheck}
    (hbad : RaisesOther (item data key >>= convert) ↔ escapes)
    (hrest : ∀ a, RaisesOther (f a) ↔ FirstFails FieldCheck.converts FieldCheck.escapes checks) :
    RaisesOther (item data key >>= fun v => convert v >>= f) ↔
      FirstFails FieldCheck.converts FieldCheck.escapes
        (⟨Converts (item data key >>= convert), escapes⟩ :: checks) := by
  rw [← bind_assoc]
  exact raisesOther_stage Iff.rfl hbad hrest

/-- What escapes the decoding of a document. -/
theorem raisesOther_fromJsonObject (hrender : RendersJson conv) :
    RaisesOther (fromJsonObject conv now data) ↔ EscapesDocument conv now data := by
  unfold fromJsonObject EscapesDocument
  split_ifs with hmissing
  · simp only [raisesOther_error, ne_eq, not_true_eq_false, false_iff, not_and]
    intro hall
    obtain ⟨field, hfield, habsent⟩ := hmissing
    exact absurd (hall field hfield) habsent
  · have hall : ∀ field ∈ requiredFields, field ∈ data.keys := by
      intro field hfield
      by_contra habsent
      exact hmissing ⟨field, hfield, habsent⟩
    have hstr : ∀ v, RaisesOther (Value.toStr conv v) ↔ False := fun v =>
      iff_of_false (not_raisesOther_toStr hrender v) not_false
    have htext : ∀ key ∈ requiredFields, RaisesOther (item data key >>= Value.toStr conv) ↔ False :=
      fun key hkey => (raisesOther_item (hall key hkey) hstr).trans (by simp [At])
    have hparent : RaisesOther (optionalItem (Value.toStr conv) data "parent_message_id") ↔ False :=
      (raisesOther_optionalItem hstr).trans (by simp [At])
    have hfloat : ∀ v, RaisesOther (Value.toFloat conv v) ↔ EscapesFloat v := fun _ =>
      raisesOther_toFloat
    have hdict : ∀ v, RaisesOther (Value.toDict v) ↔ EscapesDict v := fun _ => raisesOther_toDict
    rw [and_iff_right hall]
    refine raisesOther_stage converts_reraised raisesOther_messageType fun messageType => ?_
    refine raisesOther_stage converts_reraised raisesOther_priority fun priority => ?_
    refine raisesOther_itemStage (htext "sender" (by decide)) fun sender => ?_
    refine raisesOther_itemStage (htext "receiver" (by decide)) fun receiver => ?_
    refine raisesOther_itemStage (raisesOther_item (hall "payload" (by decide)) hdict)
      fun payload => ?_
    refine raisesOther_itemStage (htext "trace_id" (by decide)) fun traceId => ?_
    refine raisesOther_stage Iff.rfl hparent fun parentMessageId => ?_
    refine raisesOther_itemStage (htext "message_id" (by decide)) fun messageId => ?_
    refine raisesOther_stage Iff.rfl (raisesOther_itemD hfloat id) fun createdAt => ?_
    refine raisesOther_stage Iff.rfl (raisesOther_optionalItem hfloat) fun ttlSeconds => ?_
    refine raisesOther_stage Iff.rfl (raisesOther_optionalItem hfloat) fun costBudgetUsd => ?_
    refine raisesOther_stage Iff.rfl (raisesOther_itemD hdict id) fun metadata => ?_
    exact iff_of_false (not_raisesOther_ok _) not_false

/-- Decoding untrusted bytes returns or raises a `ValueError`, by `from_json` and by `decode`,
exactly when the bytes are not a JSON object in which the first field that does not convert is of a
kind that is not guarded. -/
theorem fromJson_valueError_iff {conv : TextConversions} (hrender : RendersJson conv)
    (json : JsonLibrary) (msgpack : Option MsgpackLibrary) (now : ℚ) (raw : List UInt8) :
    ((∀ e, fromJson conv json now raw = .error e → e = .valueError) ∧
        ∀ e, decode conv json msgpack now raw .json = .error e → e = .valueError) ↔
      ∀ entries, json.loads raw = some (.dict entries) →
        ¬ EscapesDocument conv now (Dict.ofList entries) := by
  have hdecode : decode conv json msgpack now raw .json = fromJson conv json now raw := rfl
  have hraises : (∀ e, fromJson conv json now raw = .error e → e = .valueError) ↔
      ¬ RaisesOther (fromJson conv json now raw) := by
    simp [RaisesOther]
  rw [hdecode, and_self_iff, hraises]
  unfold fromJson
  split
  · rename_i entries hloads
    rw [raisesOther_fromJsonObject hrender]
    constructor
    · intro h entries' hloads'
      obtain rfl : entries = entries' := by simpa [hloads] using hloads'
      exact h
    · exact fun h => h entries hloads
  · rename_i hloads
    refine iff_of_true (by simp) fun entries hentries => ?_
    exact absurd hentries (hloads entries)

/-- A document whose payload is `null`. -/
def withoutPayload : Dict String Value :=
  .ofList [("sender", .str "a"), ("receiver", .str "b"), ("payload", .none),
    ("message_type", .str "task"), ("priority", .int 2), ("trace_id", .str "t"),
    ("message_id", .str "m")]

/-- The document as JSON. -/
def withoutPayloadJson : List UInt8 := String.toUTF8
  ("\x7b\"sender\":\"a\",\"receiver\":\"b\",\"payload\":null," ++
    "\"message_type\":\"task\",\"priority\":2,\"trace_id\":\"t\",\"message_id\":\"m\"\x7d")
  |>.toList

/-- The payload is what escapes: the message type, the priority, the sender and the receiver
convert. -/
theorem withoutPayload_escapes :
    EscapesDocument noNumbers 5 (.ofList withoutPayload.entries) := by
  refine ⟨by decide, .inr ⟨⟨.TASK, rfl⟩, .inr ⟨⟨.NORMAL, rfl⟩, .inr ⟨⟨"a", rfl⟩, .inr ⟨⟨"b", rfl⟩,
    .inl ⟨.none, rfl, trivial⟩⟩⟩⟩⟩⟩

/-- `fromJson_valueError_iff` on the document: not only a `ValueError` is raised. -/
theorem fromJson_valueError_withoutPayload :
    RendersJson noNumbers ∧
      ¬ ((∀ e, fromJson noNumbers (jsonTable (.dict withoutPayload.entries) withoutPayloadJson) 5
            withoutPayloadJson = .error e → e = .valueError) ∧
        ∀ e, decode noNumbers (jsonTable (.dict withoutPayload.entries) withoutPayloadJson) none 5
            withoutPayloadJson .json = .error e → e = .valueError) := by
  have hrender : RendersJson noNumbers := fun _ _ he => (Except.error.inj he).symm
  refine ⟨hrender, fun h => ?_⟩
  exact (fromJson_valueError_iff hrender _ none 5 _).mp h _ (jsonTable_loads _ _)
    withoutPayload_escapes

/-- A `null` payload raises a `TypeError`. -/
theorem withoutPayload_typeError :
    fromJson noNumbers (jsonTable (.dict withoutPayload.entries) withoutPayloadJson) 5
        withoutPayloadJson = .error .typeError ∧
      ¬ ∀ e, fromJson noNumbers (jsonTable (.dict withoutPayload.entries) withoutPayloadJson) 5
        withoutPayloadJson = .error e → e = .valueError := by
  have hraises : fromJson noNumbers (jsonTable (.dict withoutPayload.entries) withoutPayloadJson) 5
      withoutPayloadJson = .error .typeError := by
    unfold fromJson
    rw [jsonTable_loads]
    rfl
  exact ⟨hraises, fun h => nomatch h _ hraises⟩

end MeshRouter.Messages
