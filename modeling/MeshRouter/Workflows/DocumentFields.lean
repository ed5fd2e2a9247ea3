import MeshRouter.Workflows.Document

/-!
# The reading of a step

A reading returns, ends with the error for an invalid document, or lets something else escape. What
it comes to is decided part by part: the reading of a step returns if its fields are as the schema
asks, its inputs and outputs can be written as texts, and the steps that it lists are read
(`returns_parseOwn`). Something escapes from it if an input or an output cannot be converted
(`escapes_parseCommon_iff`), or else from the first key with listed steps that are not read
(`escapes_parseOwn`).
-/

namespace MeshRouter.Workflows

open Lib

section Outcomes

variable {α β : Type}

/-- The reading returns. -/
def Returns (x : Except ParseFailure α) : Prop := ∃ a, x = .ok a

/-- The reading raises something else than the error for an invalid document. -/
def Escapes (x : Except ParseFailure α) : Prop := ∃ e, x = .error (.escaped e)

@[simp]
theorem returns_ok (a : α) : Returns (.ok a) := ⟨a, rfl⟩

@[simp]
theorem not_returns_error (e : ParseFailure) : ¬ Returns (.error e : Except ParseFailure α) := by
  rintro ⟨a, ha⟩
  cases ha

@[simp]
theorem not_escapes_ok (a : α) : ¬ Escapes (.ok a) := by
  rintro ⟨e, he⟩
  cases he

@[simp]
theorem escapes_escaped (e : PyError) : Escapes (.error (.escaped e) : Except ParseFailure α) :=
  ⟨e, rfl⟩

@[simp]
theorem not_escapes_validation (e : YAMLValidationError) :
    ¬ Escapes (.error (.validation e) : Except ParseFailure α) := by
  rintro ⟨e', he⟩
  cases he

theorem returns_bind {x : Except ParseFailure α} {f : α → Except ParseFailure β} :
    Returns (x >>= f) ↔ ∃ a, x = .ok a ∧ Returns (f a) :=
  exists_bind_eq_ok_iff

theorem escapes_bind {x : Except ParseFailure α} {f : α → Except ParseFailure β} :
    Escapes (x >>= f) ↔ Escapes x ∨ ∃ a, x = .ok a ∧ Escapes (f a) := by
  unfold Escapes
  simp only [bind_eq_error]
  constructor
  · rintro ⟨e, hx | ⟨a, hx, hf⟩⟩
    · exact .inl ⟨e, hx⟩
    · exact .inr ⟨a, hx, e, hf⟩
  · rintro (⟨e, hx⟩ | ⟨a, hx, e, hf⟩)
    · exact ⟨e, .inl hx⟩
    · exact ⟨e, .inr ⟨a, hx, hf⟩⟩

theorem mapError_eq_ok_iff {x : Except PyError α} {a : α} :
    x.mapError ParseFailure.escaped = .ok a ↔ x = .ok a := by
  cases x with
  | ok b => simp [Except.mapError]
  | error e => simp [Except.mapError]

/-- What was raised by a conversion escapes. -/
theorem returns_mapError {x : Except PyError α} :
    Returns (x.mapError ParseFailure.escaped) ↔ ∃ a, x = .ok a := by
  cases x with
  | ok a => exact iff_of_true ⟨a, rfl⟩ ⟨a, rfl⟩
  | error e => exact iff_of_false (not_returns_error _) (by simp)

theorem escapes_mapError {x : Except PyError α} :
    Escapes (x.mapError ParseFailure.escaped) ↔ ∃ e, x = .error e := by
  cases x with
  | ok a => exact iff_of_false (not_escapes_ok a) (by simp)
  | error e => exact iff_of_true ⟨e, rfl⟩ ⟨e, rfl⟩

/-- What returns does not escape. -/
theorem Returns.not_escapes {x : Except ParseFailure α} (h : Returns x) : ¬ Escapes x := by
  obtain ⟨a, rfl⟩ := h
  exact not_escapes_ok a

/-- A list is converted if its elements are. -/
theorem returns_mapM {f : α → Except ParseFailure β} {l : List α} :
    Returns (l.mapM f) ↔ ∀ a ∈ l, Returns (f a) := by
  induction l with
  | nil => exact iff_of_true (returns_ok []) (by simp)
  | cons a l ih =>
    rw [List.mapM_cons, returns_bind, List.forall_mem_cons, ← ih]
    constructor
    · rintro ⟨b, hb, hrest⟩
      obtain ⟨bs, hbs, -⟩ := returns_bind.mp hrest
      exact ⟨⟨b, hb⟩, bs, hbs⟩
    · rintro ⟨⟨b, hb⟩, bs, hbs⟩
      exact ⟨b, hb, returns_bind.mpr ⟨bs, hbs, returns_ok _⟩⟩

/-- Where what does not return escapes, so does the conversion of a list. -/
theorem escapes_mapM {f : α → Except ParseFailure β} {l : List α}
    (hf : ∀ a, Returns (f a) ∨ Escapes (f a)) : Escapes (l.mapM f) ↔ ¬ Returns (l.mapM f) := by
  refine ⟨fun hescapes hreturns => hreturns.not_escapes hescapes, fun hnot => ?_⟩
  induction l with
  | nil => exact absurd (returns_ok []) hnot
  | cons a l ih =>
    rw [List.mapM_cons, escapes_bind]
    rcases hf a with ⟨b, hb⟩ | hescapes
    · refine .inr ⟨b, hb, escapes_bind.mpr (.inl (ih fun hrest => hnot ?_))⟩
      rw [returns_mapM, List.forall_mem_cons]
      exact ⟨⟨b, hb⟩, returns_mapM.mp hrest⟩
    · exact .inl hescapes

end Outcomes

/-! ## The fields of a step -/

section Fields

variable {conv : TextConversions} {mapping : Dict String Value} {key context text : String}
  {stepIndex : ℕ}

/-- A required text is returned if the field is one. -/
theorem requireStr_eq_ok_iff :
    requireStr mapping key context = .ok text ↔ mapping.get? key = some (.str text) := by
  unfold requireStr
  rcases mapping.get? key with _ | value
  · simp
  · cases value <;> simp

/-- Whatever the field is, nothing else is raised. -/
theorem not_escapes_requireStr (mapping : Dict String Value) (key context : String) :
    ¬ Escapes (requireStr mapping key context) := by
  unfold requireStr
  rcases mapping.get? key with _ | value
  · simp
  · cases value <;> simp

/-- A required field is a text, or the document is invalid. -/
theorem text_or_invalid (mapping : Dict String Value) (key context : String) :
    (∃ text, mapping.get? key = some (.str text)) ∨
      ∃ e, requireStr mapping key context = .error (.validation e) := by
  unfold requireStr
  rcases mapping.get? key with _ | value
  · exact .inr ⟨_, rfl⟩
  · cases value with
    | str text => exact .inl ⟨text, rfl⟩
    | _ => exact .inr ⟨_, rfl⟩

/-- A kind is named by its text. -/
theorem StepType.ofText?_eq_some_iff {stepType : StepType} :
    StepType.ofText? text = some stepType ↔ text = stepType.text := by
  unfold StepType.ofText?
  split_ifs with htask hparallel hconditional
  · subst htask
    cases stepType <;> simp [StepType.text]
  · subst hparallel
    cases stepType <;> simp [StepType.text]
  · subst hconditional
    cases stepType <;> simp [StepType.text]
  · cases stepType <;> simp [StepType.text, htask, hparallel, hconditional]

/-- The fields that every step has are of the types that the schema asks for. -/
structure CommonFields (mapping : Dict String Value) (stepType : StepType)
    (rawInputs : List (String × Value)) (rawOutputs : List Value) : Prop where
  name : ∃ name, mapping.get? "name" = some (.str name)
  stepType : mapping.get? "type" = some (.str stepType.text)
  inputs : field mapping "inputs" (.dict []) = .dict rawInputs
  outputs : field mapping "outputs" (.list []) = .list rawOutputs

/-- Every input and every output can be written as a text. -/
def Renders (conv : TextConversions) (rawInputs : List (String × Value))
    (rawOutputs : List Value) : Prop :=
  (∀ entry ∈ (Dict.ofList rawInputs).entries, ∃ text, entry.2.toStr conv = .ok text) ∧
    ∀ value ∈ rawOutputs, ∃ text, value.toStr conv = .ok text

variable {stepType : StepType} {rawInputs : List (String × Value)} {rawOutputs : List Value}

/-- The inputs and the outputs are converted if all can be, and else what is raised escapes. -/
theorem renders_iff :
    Renders conv rawInputs rawOutputs ↔
      Returns (renderInputs conv rawInputs) ∧ Returns (renderOutputs conv rawOutputs) := by
  unfold Renders renderInputs renderOutputs
  rw [returns_bind, returns_mapM]
  simp only [returns_ok, and_true, returns_mapError]
  have hinputs : (∃ inputs, ((Dict.ofList rawInputs).entries.mapM fun entry =>
      ((entry.2.toStr conv).map fun text => (entry.1, text)).mapError ParseFailure.escaped) =
        .ok inputs) ↔
      ∀ entry ∈ (Dict.ofList rawInputs).entries, ∃ text, entry.2.toStr conv = .ok text := by
    refine returns_mapM.trans (forall₂_congr fun entry _ => returns_mapError.trans ?_)
    cases entry.2.toStr conv with
    | ok text => exact iff_of_true ⟨_, rfl⟩ ⟨text, rfl⟩
    | error e => exact iff_of_false (by simp [Except.map]) (by simp)
  rw [hinputs]

/-- A conversion returns, or what it raises escapes. -/
theorem returns_or_escapes_mapError {α : Type} (x : Except PyError α) :
    Returns (x.mapError ParseFailure.escaped) ∨ Escapes (x.mapError ParseFailure.escaped) := by
  rw [returns_mapError, escapes_mapError]
  cases x with
  | ok a => exact .inl ⟨a, rfl⟩
  | error e => exact .inr ⟨e, rfl⟩

theorem escapes_renderInputs :
    Escapes (renderInputs conv rawInputs) ↔ ¬ Returns (renderInputs conv rawInputs) := by
  have hmap := escapes_mapM (l := (Dict.ofList rawInputs).entries)
    fun entry => returns_or_escapes_mapError ((entry.2.toStr conv).map fun text => (entry.1, text))
  unfold renderInputs
  rw [escapes_bind, returns_bind]
  simp only [not_escapes_ok, returns_ok, and_false, exists_false, or_false, and_true]
  exact hmap

theorem escapes_renderOutputs :
    Escapes (renderOutputs conv rawOutputs) ↔ ¬ Returns (renderOutputs conv rawOutputs) :=
  escapes_mapM fun value => returns_or_escapes_mapError (value.toStr conv)

/-- With the common fields as the schema asks, the inputs and outputs are converted. -/
theorem parseCommon_of_fields (conv : TextConversions)
    (h : CommonFields mapping stepType rawInputs rawOutputs) (stepIndex : ℕ) :
    ∃ name, parseCommon conv mapping stepIndex =
      renderInputs conv rawInputs >>= fun inputs =>
        renderOutputs conv rawOutputs >>= fun outputs =>
          .ok { name := name, stepType := stepType, agent := field mapping "agent" .none,
                inputs := inputs, outputs := outputs } := by
  obtain ⟨name, hname⟩ := h.name
  refine ⟨name, ?_⟩
  have hkind := StepType.ofText?_eq_some_iff.mpr (rfl : stepType.text = stepType.text)
  unfold parseCommon
  rw [requireStr_eq_ok_iff.mpr hname]
  dsimp only [bind, Except.bind]
  rw [requireStr_eq_ok_iff.mpr h.stepType]
  dsimp only
  rw [hkind, h.inputs, h.outputs]

/-- Otherwise the document is invalid. -/
theorem fields_or_invalid (conv : TextConversions) (mapping : Dict String Value) (stepIndex : ℕ) :
    (∃ stepType rawInputs rawOutputs, CommonFields mapping stepType rawInputs rawOutputs) ∨
      ∃ e, parseCommon conv mapping stepIndex = .error (.validation e) := by
  unfold parseCommon
  rcases text_or_invalid mapping "name" ("step[" ++ toString stepIndex ++ "]") with
    ⟨name, hname⟩ | ⟨e, he⟩
  · rw [requireStr_eq_ok_iff.mpr hname]
    dsimp only [bind, Except.bind]
    rcases text_or_invalid mapping "type" ("step '" ++ name ++ "'") with ⟨text, htext⟩ | ⟨e, he⟩
    · rw [requireStr_eq_ok_iff.mpr htext]
      dsimp only
      cases hkind : StepType.ofText? text with
      | none => exact .inr ⟨_, rfl⟩
      | some stepType =>
        rw [StepType.ofText?_eq_some_iff.mp hkind] at htext
        cases hinputs : field mapping "inputs" (.dict []) with
        | dict rawInputs =>
          cases houtputs : field mapping "outputs" (.list []) with
          | list rawOutputs =>
            exact .inl ⟨stepType, rawInputs, rawOutputs, ⟨name, hname⟩, htext, hinputs, houtputs⟩
          | _ => exact .inr ⟨_, rfl⟩
        | _ => exact .inr ⟨_, rfl⟩
    · rw [he]
      exact .inr ⟨e, rfl⟩
  · rw [he]
    exact .inr ⟨e, rfl⟩

/-- The common fields are read if they are as the schema asks, and can be converted. -/
theorem exists_parseCommon_iff :
    (∃ step, parseCommon conv mapping stepIndex = .ok step ∧ step.stepType = stepType) ↔
      ∃ rawInputs rawOutputs, CommonFields mapping stepType rawInputs rawOutputs ∧
        Renders conv rawInputs rawOutputs := by
  constructor
  · rintro ⟨step, hstep, rfl⟩
    rcases fields_or_invalid conv mapping stepIndex with
      ⟨t, rawInputs, rawOutputs, hfields⟩ | ⟨e, he⟩
    · obtain ⟨name, hname⟩ := parseCommon_of_fields conv hfields stepIndex
      obtain ⟨inputs, hinputs, hrest⟩ := bind_eq_ok.mp (hname.symm.trans hstep)
      obtain ⟨outputs, houtputs, hmade⟩ := bind_eq_ok.mp hrest
      obtain rfl := Except.ok.inj hmade
      exact ⟨rawInputs, rawOutputs, hfields, renders_iff.mpr ⟨⟨_, hinputs⟩, _, houtputs⟩⟩
    · cases he.symm.trans hstep
  · rintro ⟨rawInputs, rawOutputs, hfields, hrenders⟩
    obtain ⟨name, hname⟩ := parseCommon_of_fields conv hfields stepIndex
    obtain ⟨⟨inputs, hinputs⟩, outputs, houtputs⟩ := renders_iff.mp hrenders
    rw [hname, hinputs]
    exact ⟨_, bind_eq_ok.mpr ⟨inputs, rfl, bind_eq_ok.mpr ⟨outputs, houtputs, rfl⟩⟩, rfl⟩

/-- Of the common fields, only an input or an output that cannot be converted escapes. -/
theorem escapes_parseCommon_iff :
    Escapes (parseCommon conv mapping stepIndex) ↔
      ∃ stepType rawInputs rawOutputs, CommonFields mapping stepType rawInputs rawOutputs ∧
        ¬ Renders conv rawInputs rawOutputs := by
  have hof : ∀ {t rawInputs rawOutputs}, CommonFields mapping t rawInputs rawOutputs →
      (Escapes (parseCommon conv mapping stepIndex) ↔ ¬ Renders conv rawInputs rawOutputs) := by
    intro t rawInputs rawOutputs hfields
    obtain ⟨name, hname⟩ := parseCommon_of_fields conv hfields stepIndex
    rw [hname, escapes_bind, renders_iff, escapes_renderInputs]
    simp only [escapes_bind, escapes_renderOutputs, not_escapes_ok, and_false, exists_false,
      or_false]
    rw [not_and_or]
    refine or_congr_right' fun hreturns => ?_
    obtain ⟨inputs, hinputs⟩ := not_not.mp hreturns
    exact ⟨fun ⟨_, _, hnot⟩ => hnot, fun hnot => ⟨inputs, hinputs, hnot⟩⟩
  constructor
  · intro hescapes
    rcases fields_or_invalid conv mapping stepIndex with
      ⟨t, rawInputs, rawOutputs, hfields⟩ | ⟨e, he⟩
    · exact ⟨t, rawInputs, rawOutputs, hfields, (hof hfields).mp hescapes⟩
    · rw [he] at hescapes
      exact absurd hescapes (not_escapes_validation e)
  · rintro ⟨t, rawInputs, rawOutputs, hfields, hnot⟩
    exact (hof hfields).mpr hnot

end Fields

/-! ## Listed steps -/

/-- What a value is enumerated as: a text by its characters, and a mapping by its keys. -/
def elements : Value → Except PyError (List Value)
  | .list values => .ok values
  | .str text => .ok (text.toList.map fun c => .str (String.ofList [c]))
  | .dict entries => .ok ((Dict.ofList entries).keys.map .str)
  | _ => .error .typeError

/-- The keys under which a step of a kind lists steps, as they are read. -/
def StepType.nested : StepType → List String
  | .task => []
  | .parallel => ["steps"]
  | .conditional => ["if_steps", "else_steps"]

/-- What the schema asks for besides the common fields: a conditional step has a condition, and what
a parallel step lists is a list. -/
def OwnFields (mapping : Dict String Value) : StepType → Prop
  | .task => True
  | .parallel => ∃ rawSteps, field mapping "steps" (.list []) = .list rawSteps
  | .conditional => ∃ condition, mapping.get? "condition" = some (.str condition)

section Nested

variable {conv : TextConversions} {mapping : Dict String Value} {entries : List (String × Value)}
  {step : YAMLWorkflowStep} {stepIndex : ℕ}

/-- No text is a step. -/
theorem rejectTexts_eq (conv : TextConversions) (texts : List String) :
    rejectTexts texts = parseList conv (texts.map .str) 0 := by
  cases texts with
  | nil => rfl
  | cons text texts => rfl

/-- What is listed is enumerated, and its elements are read as steps. -/
theorem parseSteps_eq (conv : TextConversions) (raw : Value) :
    parseSteps conv raw = (elements raw).mapError ParseFailure.escaped >>= fun rawSteps =>
      parseList conv rawSteps 0 := by
  unfold parseSteps
  cases raw with
  | str text =>
    dsimp only
    rw [rejectTexts_eq conv, List.map_map]
    rfl
  | dict entries =>
    dsimp only
    rw [rejectTexts_eq conv]
    rfl
  | _ => rfl

/-- The steps at a key are those that the value at the key lists, and none without the key. -/
theorem parseField_eq (conv : TextConversions) (key : String) (entries : List (String × Value)) :
    parseField conv key entries = ((Dict.ofList entries).get? key).map (parseSteps conv) := by
  induction entries with
  | nil => rfl
  | cons entry entries ih =>
    obtain ⟨k, raw⟩ := entry
    unfold parseField
    rw [ih, Dict.get?_ofList_cons, Option.map_or]
    split_ifs
    · rfl
    · rfl

theorem parseField_getD (conv : TextConversions) (key : String) (entries : List (String × Value)) :
    (parseField conv key entries).getD (.ok []) =
      parseSteps conv (field (Dict.ofList entries) key (.list [])) := by
  rw [parseField_eq]
  unfold field Dict.getD
  cases (Dict.ofList entries).get? key with
  | none => rfl
  | some raw => rfl

/-- What `_parse_step` reads after the common fields. -/
def parseOwn (conv : TextConversions) (mapping : Dict String Value) (step : YAMLWorkflowStep) :
    Except ParseFailure YAMLWorkflowStep :=
  match step.stepType with
  | .conditional => do
    let condition ← requireStr mapping "condition" ("step '" ++ step.name ++ "'")
    let ifSteps ← parseSteps conv (field mapping "if_steps" (.list []))
    let elseSteps ← parseSteps conv (field mapping "else_steps" (.list []))
    .ok { step with condition := some condition, ifSteps := ifSteps, elseSteps := elseSteps }
  | .parallel =>
    match field mapping "steps" (.list []) with
    | .list rawSteps => do
      let subSteps ← parseList conv rawSteps 0
      .ok { step with subSteps := subSteps }
    | _ => .error (.validation (.subStepsNotList step.name))
  | .task => .ok step

/-- A step is read in two parts. -/
theorem parseStep_dict (conv : TextConversions) (entries : List (String × Value)) (stepIndex : ℕ) :
    parseStep conv (.dict entries) stepIndex =
      parseCommon conv (.ofList entries) stepIndex >>= parseOwn conv (.ofList entries) := by
  unfold parseStep
  dsimp only
  refine congrArg _ (funext fun step => ?_)
  unfold parseOwn
  simp only [parseField_getD]
  cases step.stepType with
  | conditional => rfl
  | parallel =>
    dsimp only
    cases hfield : field (Dict.ofList entries) "steps" (.list []) with
    | list rawSteps => rfl
    | _ => rfl
  | task => rfl

/-- The rest of a step is read if its own fields are as the schema asks and what it lists is read.
-/
theorem returns_parseOwn :
    Returns (parseOwn conv mapping step) ↔
      OwnFields mapping step.stepType ∧ ∀ key ∈ step.stepType.nested,
        Returns (parseSteps conv (field mapping key (.list []))) := by
  unfold parseOwn
  cases step.stepType with
  | task => simp [OwnFields, StepType.nested]
  | parallel =>
    dsimp only [OwnFields, StepType.nested]
    rw [List.forall_mem_singleton]
    cases hfield : field mapping "steps" (.list []) with
    | list rawSteps =>
      dsimp only
      rw [returns_bind, and_iff_right ⟨rawSteps, rfl⟩]
      simp only [returns_ok, and_true]
      rfl
    | _ => simp
  | conditional =>
    dsimp only [OwnFields, StepType.nested]
    rw [List.forall_mem_cons, List.forall_mem_singleton]
    simp only [returns_bind, returns_ok, requireStr_eq_ok_iff, and_true]
    constructor
    · rintro ⟨condition, hcondition, ifSteps, hif, elseSteps, helse⟩
      exact ⟨⟨condition, hcondition⟩, ⟨ifSteps, hif⟩, elseSteps, helse⟩
    · rintro ⟨⟨condition, hcondition⟩, ⟨ifSteps, hif⟩, elseSteps, helse⟩
      exact ⟨condition, hcondition, ifSteps, hif, elseSteps, helse⟩

/-- Of the rest of a step, only what is listed can escape, in the order in which it is read. -/
theorem escapes_parseOwn :
    Escapes (parseOwn conv mapping step) ↔
      OwnFields mapping step.stepType ∧
        FirstFails (fun key => Returns (parseSteps conv (field mapping key (.list []))))
          (fun key => Escapes (parseSteps conv (field mapping key (.list []))))
          step.stepType.nested := by
  unfold parseOwn
  cases step.stepType with
  | task => simp [OwnFields, StepType.nested, FirstFails]
  | parallel =>
    dsimp only [OwnFields, StepType.nested, FirstFails]
    cases hfield : field mapping "steps" (.list []) with
    | list rawSteps =>
      dsimp only
      rw [escapes_bind, and_iff_right ⟨rawSteps, rfl⟩]
      simp only [not_escapes_ok, and_false, exists_false]
      rfl
    | _ => simp
  | conditional =>
    dsimp only [OwnFields, StepType.nested, FirstFails]
    simp only [escapes_bind, not_escapes_ok, not_escapes_requireStr, requireStr_eq_ok_iff,
      false_or, or_false, and_false, exists_false]
    constructor
    · rintro ⟨condition, hcondition, hif | ⟨ifSteps, hif, helse⟩⟩
      · exact ⟨⟨condition, hcondition⟩, .inl hif⟩
      · exact ⟨⟨condition, hcondition⟩, .inr ⟨⟨ifSteps, hif⟩, helse⟩⟩
    · rintro ⟨⟨condition, hcondition⟩, hif | ⟨⟨ifSteps, hif⟩, helse⟩⟩
      · exact ⟨condition, hcondition, .inl hif⟩
      · exact ⟨condition, hcondition, .inr ⟨ifSteps, hif, helse⟩⟩

theorem parseList_cons (conv : TextConversions) (rawStep : Value) (rawSteps : List Value)
    (stepIndex : ℕ) :
    parseList conv (rawStep :: rawSteps) stepIndex =
      parseStep conv rawStep stepIndex >>= fun step =>
        parseList conv rawSteps (stepIndex + 1) >>= fun steps => .ok (step :: steps) := rfl

/-- A list is read if each of its elements is, whatever their places are. -/
theorem returns_parseList {ok : Value → Prop} {rawSteps : List Value}
    (hok : ∀ x ∈ rawSteps, ∀ i, Returns (parseStep conv x i) ↔ ok x) (stepIndex : ℕ) :
    Returns (parseList conv rawSteps stepIndex) ↔ ∀ x ∈ rawSteps, ok x := by
  induction rawSteps generalizing stepIndex with
  | nil => exact iff_of_true (returns_ok []) (by simp)
  | cons x rawSteps ih =>
    obtain ⟨hx, hrest⟩ := List.forall_mem_cons.mp hok
    rw [List.forall_mem_cons, ← hx stepIndex, ← ih hrest (stepIndex + 1), parseList_cons]
    simp only [returns_bind, returns_ok, and_true]
    constructor
    · rintro ⟨step, hstep, steps, hsteps⟩
      exact ⟨⟨step, hstep⟩, steps, hsteps⟩
    · rintro ⟨⟨step, hstep⟩, steps, hsteps⟩
      exact ⟨step, hstep, steps, hsteps⟩

/-- From a list escapes what escapes from an element after elements that are read. -/
theorem escapes_parseList {ok bad : Value → Prop} {rawSteps : List Value}
    (hok : ∀ x ∈ rawSteps, ∀ i, Returns (parseStep conv x i) ↔ ok x)
    (hbad : ∀ x ∈ rawSteps, ∀ i, Escapes (parseStep conv x i) ↔ bad x) (stepIndex : ℕ) :
    Escapes (parseList conv rawSteps stepIndex) ↔ FirstFails ok bad rawSteps := by
  induction rawSteps generalizing stepIndex with
  | nil => exact iff_of_false (not_escapes_ok []) not_false
  | cons x rawSteps ih =>
    obtain ⟨hokx, hok⟩ := List.forall_mem_cons.mp hok
    obtain ⟨hbadx, hbad⟩ := List.forall_mem_cons.mp hbad
    unfold FirstFails
    rw [← hokx stepIndex, ← hbadx stepIndex, ← ih hok hbad (stepIndex + 1), parseList_cons]
    simp only [escapes_bind, not_escapes_ok, and_false, exists_false, or_false]
    refine or_congr_right ⟨?_, ?_⟩
    · rintro ⟨step, hstep, hescapes⟩
      exact ⟨⟨step, hstep⟩, hescapes⟩
    · rintro ⟨⟨step, hstep⟩, hescapes⟩
      exact ⟨step, hstep, hescapes⟩

end Nested

end MeshRouter.Workflows
