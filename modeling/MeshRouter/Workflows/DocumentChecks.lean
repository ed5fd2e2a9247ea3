import MeshRouter.Workflows.DocumentFields

/-!
# What escapes the reading of a document

A document is read in one order: the fields of a step as `_parse_step` names them, and the steps of
a list one after the other. The reading stops at the first thing that is wrong. If it is a field
that the schema checks, the document is invalid. Two things are not checked: that what is listed
under `if_steps` and `else_steps` can be enumerated, as the `steps` of a parallel step are, and that
an input or an output can be written as a text.

`WellFormed` says which steps are read, and `Unguarded` which steps raise something else, each in
terms of the fields. The reading of a document ends in one of the two ways that the source states
exactly if nothing unguarded comes first (`parseWorkflowDocument_total_iff`).
-/

namespace MeshRouter.Workflows

open Lib

/-! ## What is read and what escapes -/

/-- The fields of a step are as the schema asks, and its inputs and outputs can be converted. -/
def FieldsRead (conv : TextConversions) (mapping : Dict String Value) (stepType : StepType) :
    Prop :=
  (∃ rawInputs rawOutputs, CommonFields mapping stepType rawInputs rawOutputs ∧
    Renders conv rawInputs rawOutputs) ∧ OwnFields mapping stepType

/-- What a step lists at a key. -/
abbrev listed (entries : List (String × Value)) (key : String) : Except PyError (List Value) :=
  elements (field (.ofList entries) key (.list []))

/-- A step that is read: its fields are, and so are all the steps that it lists. -/
inductive WellFormed (conv : TextConversions) : Value → Prop where
  | step {entries : List (String × Value)} {stepType : StepType} (steps : String → List Value)
      (hfields : FieldsRead conv (.ofList entries) stepType)
      (hlisted : ∀ key ∈ stepType.nested, listed entries key = .ok (steps key))
      (hsteps : ∀ key ∈ stepType.nested, ∀ x ∈ steps key, WellFormed conv x) :
      WellFormed conv (.dict entries)

/-- What a step lists at a key is read. -/
def ListsWellFormed (conv : TextConversions) (entries : List (String × Value)) (key : String) :
    Prop :=
  ∃ steps, listed entries key = .ok steps ∧ ∀ x ∈ steps, WellFormed conv x

/-- A step in which something that is not checked raises, with all that is read before in order. -/
inductive Unguarded (conv : TextConversions) : Value → Prop where
  /-- An input or an output cannot be written as a text. -/
  | conversion {entries : List (String × Value)} {stepType : StepType}
      {rawInputs : List (String × Value)} {rawOutputs : List Value}
      (hfields : CommonFields (.ofList entries) stepType rawInputs rawOutputs)
      (hconversion : ¬ Renders conv rawInputs rawOutputs) : Unguarded conv (.dict entries)
  /-- What is listed at a key cannot be enumerated. -/
  | enumeration {entries : List (String × Value)} {stepType : StepType} {before after : List String}
      {key : String} {e : PyError} (hfields : FieldsRead conv (.ofList entries) stepType)
      (hkeys : stepType.nested = before ++ key :: after)
      (hbefore : ∀ k ∈ before, ListsWellFormed conv entries k)
      (hlisted : listed entries key = .error e) : Unguarded conv (.dict entries)
  /-- A step that is listed at a key, after well-formed ones, is unguarded itself. -/
  | within {entries : List (String × Value)} {stepType : StepType} {before after : List String}
      {key : String} {xs ys : List Value} {x : Value}
      (hfields : FieldsRead conv (.ofList entries) stepType)
      (hkeys : stepType.nested = before ++ key :: after)
      (hbefore : ∀ k ∈ before, ListsWellFormed conv entries k)
      (hlisted : listed entries key = .ok (xs ++ x :: ys)) (hxs : ∀ y ∈ xs, WellFormed conv y)
      (hx : Unguarded conv x) : Unguarded conv (.dict entries)

/-- What a step lists at a key is unguarded. -/
def ListsUnguarded (conv : TextConversions) (entries : List (String × Value)) (key : String) :
    Prop :=
  (∃ e, listed entries key = .error e) ∨
    ∃ steps, listed entries key = .ok steps ∧ FirstFails (WellFormed conv) (Unguarded conv) steps

section Main

variable {conv : TextConversions} {entries : List (String × Value)} {key : String}
  {steps : List Value} {x : Value}

/-- A step is well formed if what it lists is, at every key. -/
theorem wellFormed_dict_iff :
    WellFormed conv (.dict entries) ↔
      ∃ stepType, FieldsRead conv (.ofList entries) stepType ∧
        ∀ key ∈ stepType.nested, ListsWellFormed conv entries key := by
  constructor
  · intro h
    cases h with
    | step steps hfields hlisted hsteps =>
      exact ⟨_, hfields, fun key hkey => ⟨steps key, hlisted key hkey, hsteps key hkey⟩⟩
  · rintro ⟨stepType, hfields, hlists⟩
    choose! steps hsteps using hlists
    exact .step steps hfields (fun key hkey => (hsteps key hkey).1)
      fun key hkey => (hsteps key hkey).2

/-- A step is unguarded if a conversion is, or the first list that is not read. -/
theorem unguarded_dict_iff :
    Unguarded conv (.dict entries) ↔
      (∃ stepType rawInputs rawOutputs,
        CommonFields (.ofList entries) stepType rawInputs rawOutputs ∧
          ¬ Renders conv rawInputs rawOutputs) ∨
      ∃ stepType, FieldsRead conv (.ofList entries) stepType ∧
        FirstFails (ListsWellFormed conv entries) (ListsUnguarded conv entries)
          stepType.nested := by
  constructor
  · intro h
    cases h with
    | conversion hfields hconversion => exact .inl ⟨_, _, _, hfields, hconversion⟩
    | enumeration hfields hkeys hbefore hlisted =>
      exact .inr ⟨_, hfields, firstFails_iff.mpr ⟨_, _, _, hkeys, hbefore, .inl ⟨_, hlisted⟩⟩⟩
    | within hfields hkeys hbefore hlisted hxs hx =>
      exact .inr ⟨_, hfields, firstFails_iff.mpr ⟨_, _, _, hkeys, hbefore,
        .inr ⟨_, hlisted, firstFails_iff.mpr ⟨_, _, _, rfl, hxs, hx⟩⟩⟩⟩
  · rintro (⟨_, _, _, hfields, hconversion⟩ | ⟨_, hfields, hfirst⟩)
    · exact .conversion hfields hconversion
    · obtain ⟨before, key, after, hkeys, hbefore, ⟨e, hlisted⟩ | ⟨steps, hlisted, hsteps⟩⟩ :=
        firstFails_iff.mp hfirst
      · exact .enumeration hfields hkeys hbefore hlisted
      · obtain ⟨xs, x, ys, rfl, hxs, hx⟩ := firstFails_iff.mp hsteps
        exact .within hfields hkeys hbefore hlisted hxs hx

/-- What the reading of a step comes to. -/
structure Outcome (conv : TextConversions) (x : Value) : Prop where
  returns : ∀ i, Returns (parseStep conv x i) ↔ WellFormed conv x
  escapes : ∀ i, Escapes (parseStep conv x i) ↔ Unguarded conv x

/-- A value that is no mapping is an invalid step. -/
theorem outcome_of_not_mapping (hx : ∀ entries, x ≠ .dict entries) : Outcome conv x := by
  have hparse : ∀ i, parseStep conv x i =
      .error (.validation (.stepNotMapping i x.typeName)) := by
    intro i
    cases x with
    | dict entries => exact absurd rfl (hx entries)
    | _ => rfl
  refine ⟨fun i => ?_, fun i => ?_⟩
  · rw [hparse]
    refine iff_of_false (not_returns_error _) fun h => ?_
    cases h
    exact hx _ rfl
  · rw [hparse]
    refine iff_of_false (not_escapes_validation _) fun h => ?_
    cases h <;> exact hx _ rfl

/-- A step that is listed as a mapping is a part of the step that lists it. -/
theorem sizeOf_lt_of_listed {entries' : List (String × Value)}
    (hlisted : listed entries key = .ok steps) (hmem : .dict entries' ∈ steps) :
    sizeOf (Value.dict entries') < sizeOf (Value.dict entries) := by
  -- Only a list has elements that are mappings.
  have hlist : field (.ofList entries) key (.list []) = .list steps := by
    unfold listed elements at hlisted
    cases hfield : field (.ofList entries) key (.list []) with
    | list values =>
      rw [hfield] at hlisted
      rw [Except.ok.inj hlisted]
    | str text =>
      rw [hfield] at hlisted
      obtain rfl := Except.ok.inj hlisted
      simp at hmem
    | dict entries =>
      rw [hfield] at hlisted
      obtain rfl := Except.ok.inj hlisted
      simp at hmem
    | _ =>
      rw [hfield] at hlisted
      cases hlisted
  unfold field Dict.getD at hlist
  cases hget : (Dict.ofList entries).get? key with
  | none =>
    rw [hget] at hlist
    obtain rfl := Value.list.inj hlist
    cases hmem
  | some value =>
    rw [hget] at hlist
    obtain rfl : value = .list steps := hlist
    rcases Dict.eq_or_get?_of_setAll hget with ⟨⟨k, v⟩, hentry, -, hv⟩ | hempty
    · have hlt := List.sizeOf_lt_of_mem hmem
      have hlt' := List.sizeOf_lt_of_mem hentry
      obtain rfl : v = .list steps := hv
      simp only [Prod.mk.sizeOf_spec, Value.list.sizeOf_spec, Value.dict.sizeOf_spec] at hlt hlt' ⊢
      omega
    · cases hempty

/-- The steps listed at a key are read if they are well formed. -/
theorem returns_parseSteps
    (h : ∀ steps, listed entries key = .ok steps → ∀ x ∈ steps, Outcome conv x) :
    Returns (parseSteps conv (field (.ofList entries) key (.list []))) ↔
      ListsWellFormed conv entries key := by
  rw [parseSteps_eq, returns_bind]
  refine exists_congr fun steps => ?_
  rw [mapError_eq_ok_iff]
  exact and_congr_right fun hlisted =>
    returns_parseList (fun x hx => (h steps hlisted x hx).returns) 0

/-- Something escapes from them if they cannot be enumerated, or one is unguarded. -/
theorem escapes_parseSteps
    (h : ∀ steps, listed entries key = .ok steps → ∀ x ∈ steps, Outcome conv x) :
    Escapes (parseSteps conv (field (.ofList entries) key (.list []))) ↔
      ListsUnguarded conv entries key := by
  rw [parseSteps_eq, escapes_bind, escapes_mapError]
  refine or_congr Iff.rfl (exists_congr fun steps => ?_)
  rw [mapError_eq_ok_iff]
  exact and_congr_right fun hlisted =>
    escapes_parseList (fun x hx => (h steps hlisted x hx).returns)
      (fun x hx => (h steps hlisted x hx).escapes) 0

/-- A step whose listed steps come to what the definitions say does too. -/
theorem outcome_dict
    (h : ∀ key steps, listed entries key = .ok steps → ∀ x ∈ steps, Outcome conv x) :
    Outcome conv (.dict entries) := by
  refine ⟨fun i => ?_, fun i => ?_⟩
  · rw [parseStep_dict, returns_bind, wellFormed_dict_iff]
    simp only [returns_parseOwn, returns_parseSteps (h _)]
    constructor
    · rintro ⟨step, hstep, hown, hlists⟩
      exact ⟨step.stepType, ⟨exists_parseCommon_iff.mp ⟨step, hstep, rfl⟩, hown⟩, hlists⟩
    · rintro ⟨stepType, ⟨hcommon, hown⟩, hlists⟩
      obtain ⟨step, hstep, rfl⟩ := exists_parseCommon_iff.mpr hcommon
      exact ⟨step, hstep, hown, hlists⟩
  · rw [parseStep_dict, escapes_bind, unguarded_dict_iff, escapes_parseCommon_iff]
    simp only [escapes_parseOwn, returns_parseSteps (h _), escapes_parseSteps (h _)]
    refine or_congr Iff.rfl ⟨?_, ?_⟩
    · rintro ⟨step, hstep, hown, hfirst⟩
      exact ⟨step.stepType, ⟨exists_parseCommon_iff.mp ⟨step, hstep, rfl⟩, hown⟩, hfirst⟩
    · rintro ⟨stepType, ⟨hcommon, hown⟩, hfirst⟩
      obtain ⟨step, hstep, rfl⟩ := exists_parseCommon_iff.mpr hcommon
      exact ⟨step, hstep, hown, hfirst⟩

/-- The reading of a step returns if it is well formed, and something escapes from it if it is
unguarded. -/
theorem outcome (conv : TextConversions) (x : Value) : Outcome conv x := by
  -- A step comes after the steps that it lists.
  induction hsize : sizeOf x using Nat.strong_induction_on generalizing x with
  | _ n ih =>
    subst hsize
    have hlisted : ∀ entries, x = .dict entries → ∀ key steps, listed entries key = .ok steps →
        ∀ y ∈ steps, Outcome conv y := by
      rintro entries rfl key steps hsteps y hy
      by_cases hmapping : ∃ entries', y = .dict entries'
      · obtain ⟨entries', rfl⟩ := hmapping
        exact ih _ (sizeOf_lt_of_listed hsteps hy) _ rfl
      · exact outcome_of_not_mapping fun entries' heq => hmapping ⟨entries', heq⟩
    by_cases hmapping : ∃ entries, x = .dict entries
    · obtain ⟨entries, rfl⟩ := hmapping
      exact outcome_dict (hlisted entries rfl)
    · exact outcome_of_not_mapping fun entries heq => hmapping ⟨entries, heq⟩

end Main

/-! ## Documents -/

section Documents

variable {conv : TextConversions} {document : Value} {entries : List (String × Value)}
  {name : String}

/-- A document that is read: it has a name, and its steps are a list of well-formed steps. -/
def WellFormedDocument (conv : TextConversions) (document : Value) : Prop :=
  ∃ entries name steps, document = .dict entries ∧
    (Dict.ofList entries).get? "name" = some (.str name) ∧
    field (.ofList entries) "steps" (.list []) = .list steps ∧ ∀ x ∈ steps, WellFormed conv x

/-- A document whose steps are a list, in which an unguarded step comes after well-formed ones. -/
def UnguardedDocument (conv : TextConversions) (document : Value) : Prop :=
  ∃ entries name xs x ys, document = .dict entries ∧
    (Dict.ofList entries).get? "name" = some (.str name) ∧
    field (.ofList entries) "steps" (.list []) = .list (xs ++ x :: ys) ∧
    (∀ y ∈ xs, WellFormed conv y) ∧ Unguarded conv x

/-- A document with a name and a list of steps is read as the list is. -/
theorem parseWorkflowDocument_of_steps {steps : List Value}
    (hname : (Dict.ofList entries).get? "name" = some (.str name))
    (hsteps : field (.ofList entries) "steps" (.list []) = .list steps) :
    parseWorkflowDocument conv (.dict entries) =
      parseList conv steps 0 >>= fun steps => .ok (name, steps) := by
  unfold parseWorkflowDocument
  dsimp only
  rw [requireStr_eq_ok_iff.mpr hname, hsteps]
  rfl

/-- Any other document is invalid. -/
theorem steps_or_invalid (conv : TextConversions) (document : Value) :
    (∃ entries name steps, document = .dict entries ∧
      (Dict.ofList entries).get? "name" = some (.str name) ∧
      field (.ofList entries) "steps" (.list []) = .list steps) ∨
      ∃ e, parseWorkflowDocument conv document = .error (.validation e) := by
  unfold parseWorkflowDocument
  cases document with
  | dict entries =>
    dsimp only
    rcases text_or_invalid (Dict.ofList entries) "name" "workflow document" with
      ⟨name, hname⟩ | ⟨e, he⟩
    · rw [requireStr_eq_ok_iff.mpr hname]
      dsimp only [bind, Except.bind]
      cases hsteps : field (.ofList entries) "steps" (.list []) with
      | list steps => exact .inl ⟨entries, name, steps, rfl, hname, hsteps⟩
      | _ => exact .inr ⟨_, rfl⟩
    · rw [he]
      exact .inr ⟨e, rfl⟩
  | _ => exact .inr ⟨_, rfl⟩

/-- The documents that are read are the well-formed ones. -/
theorem returns_parseWorkflowDocument_iff :
    Returns (parseWorkflowDocument conv document) ↔ WellFormedDocument conv document := by
  constructor
  · intro hreturns
    rcases steps_or_invalid conv document with
      ⟨entries, name, steps, rfl, hname, hsteps⟩ | ⟨e, he⟩
    · rw [parseWorkflowDocument_of_steps hname hsteps, returns_bind] at hreturns
      obtain ⟨parsed, hparsed, -⟩ := hreturns
      exact ⟨entries, name, steps, rfl, hname, hsteps,
        (returns_parseList (fun x _ => (outcome conv x).returns) 0).mp ⟨parsed, hparsed⟩⟩
    · rw [he] at hreturns
      exact absurd hreturns (not_returns_error _)
  · rintro ⟨entries, name, steps, rfl, hname, hsteps, hall⟩
    obtain ⟨parsed, hparsed⟩ :=
      (returns_parseList (fun x _ => (outcome conv x).returns) 0).mpr hall
    rw [parseWorkflowDocument_of_steps hname hsteps, returns_bind]
    exact ⟨parsed, hparsed, returns_ok _⟩

/-- Something escapes from the documents that are unguarded. -/
theorem escapes_parseWorkflowDocument_iff :
    Escapes (parseWorkflowDocument conv document) ↔ UnguardedDocument conv document := by
  have hlist : ∀ steps, Escapes (parseList conv steps 0) ↔
      FirstFails (WellFormed conv) (Unguarded conv) steps := fun steps =>
    escapes_parseList (fun x _ => (outcome conv x).returns) (fun x _ => (outcome conv x).escapes) 0
  constructor
  · intro hescapes
    rcases steps_or_invalid conv document with
      ⟨entries, name, steps, rfl, hname, hsteps⟩ | ⟨e, he⟩
    · rw [parseWorkflowDocument_of_steps hname hsteps, escapes_bind, hlist] at hescapes
      obtain hfirst | ⟨parsed, -, hok⟩ := hescapes
      · obtain ⟨xs, x, ys, rfl, hxs, hx⟩ := firstFails_iff.mp hfirst
        exact ⟨entries, name, xs, x, ys, rfl, hname, hsteps, hxs, hx⟩
      · exact absurd hok (not_escapes_ok _)
    · rw [he] at hescapes
      exact absurd hescapes (not_escapes_validation e)
  · rintro ⟨entries, name, xs, x, ys, rfl, hname, hsteps, hxs, hx⟩
    rw [parseWorkflowDocument_of_steps hname hsteps, escapes_bind, hlist]
    exact .inl (firstFails_iff.mpr ⟨xs, x, ys, rfl, hxs, hx⟩)

end Documents

/-- For every document: it is read, or the error for an invalid document is raised, exactly if it is
not unguarded. -/
theorem parseWorkflowDocument_total_iff (conv : TextConversions) (document : Value) :
    ((∃ name steps, parseWorkflowDocument conv document = .ok (name, steps)) ∨
        ∃ e, parseWorkflowDocument conv document = .error (.validation e)) ↔
      ¬ UnguardedDocument conv document := by
  rw [← escapes_parseWorkflowDocument_iff]
  cases hparse : parseWorkflowDocument conv document with
  | ok result => exact iff_of_true (.inl ⟨result.1, result.2, rfl⟩) (not_escapes_ok result)
  | error failure =>
    cases failure with
    | validation e => exact iff_of_true (.inr ⟨e, rfl⟩) (not_escapes_validation e)
    | escaped e => exact iff_of_false (by simp) (not_not.mpr (escapes_escaped e))

/-- A document with one conditional step, whose `if_steps` are given but null. -/
def nullBranch : Value :=
  .dict [("name", .str "w"), ("steps", .list [.dict [("name", .str "s"),
    ("type", .str "conditional"), ("condition", .str "c"), ("if_steps", .none)]])]

/-- A null branch is enumerated, which raises a `TypeError`. -/
theorem nullBranch_escapes :
    (∀ conv, parseWorkflowDocument conv nullBranch = .error (.escaped .typeError)) ∧
      ¬ ∀ conv document, (∃ name steps, parseWorkflowDocument conv document = .ok (name, steps)) ∨
        ∃ e, parseWorkflowDocument conv document = .error (.validation e) := by
  have hparse : ∀ conv, parseWorkflowDocument conv nullBranch = .error (.escaped .typeError) :=
    fun conv => rfl
  refine ⟨hparse, fun htotal => ?_⟩
  rcases htotal ⟨fun _ => none, fun _ => none, fun _ => .ok ""⟩ nullBranch with
    ⟨name, steps, hok⟩ | ⟨e, he⟩
  · cases (hparse _).symm.trans hok
  · cases (hparse _).symm.trans he

end MeshRouter.Workflows
