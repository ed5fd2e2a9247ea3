import MeshRouter.Builtins
import MeshRouter.Lib.Fallible

/-!
# Workflow documents

`_require_str`, `_parse_step` and `_parse_workflow_document` of `workflows/yaml_workflow.py`: from
the value that a document was read into to the steps of a workflow. The fields of a document may be
of any type. A field that is not of the type that the schema asks for is a `YAMLValidationError`,
and whatever else the reading raises escapes (`ParseFailure`).

`parseField` reads the steps at a key as it goes through the entries, so that the recursion is on
the document. `parseField_eq` says that it looks the key up and enumerates what it finds there. How
deeply Python lets calls nest is not modelled.
-/

namespace MeshRouter

open Lib

/-- `type(value).__name__`. -/
def Value.typeName : Value → String
  | .none => "NoneType"
  | .bool _ => "bool"
  | .int _ => "int"
  | .float _ | .infinite _ | .nan => "float"
  | .str _ => "str"
  | .list _ => "list"
  | .dict _ => "dict"

namespace Workflows

/-- The kinds of a step: `_VALID_STEP_TYPES`. -/
inductive StepType where
  | task
  | parallel
  | conditional
deriving DecidableEq

/-- The text of a kind in a document. -/
def StepType.text : StepType → String
  | .task => "task"
  | .parallel => "parallel"
  | .conditional => "conditional"

/-- The kind that a text names. -/
def StepType.ofText? (text : String) : Option StepType :=
  if text = "task" then some .task
  else if text = "parallel" then some .parallel
  else if text = "conditional" then some .conditional
  else none

/-- A single declarative step parsed from a workflow definition. The agent may be of any type. -/
structure YAMLWorkflowStep where
  name : String
  stepType : StepType
  agent : Value := .none
  inputs : Dict String String := .empty
  outputs : List String := []
  condition : Option String := none
  ifSteps : List YAMLWorkflowStep := []
  elseSteps : List YAMLWorkflowStep := []
  subSteps : List YAMLWorkflowStep := []

/-- Raised when the document structure is invalid. -/
inductive YAMLValidationError where
  /-- "Step at index … must be a mapping, got …." -/
  | stepNotMapping (stepIndex : ℕ) (got : String)
  /-- "'…' is required in …." -/
  | required (key context : String)
  /-- "'…' must be a string in …, got …." -/
  | notString (key context got : String)
  /-- "Step '…' has unknown type '…'. Valid types: ['conditional', 'parallel', 'task']." -/
  | unknownType (name stepType : String)
  /-- "Step '…' 'inputs' must be a mapping, got …." -/
  | inputsNotMapping (name got : String)
  /-- "Step '…' 'outputs' must be a list, got …." -/
  | outputsNotList (name got : String)
  /-- "Parallel step '…' requires a 'steps' list." -/
  | subStepsNotList (name : String)
  /-- "Workflow document must be a YAML mapping, got …." -/
  | documentNotMapping (got : String)
  /-- "'steps' must be a YAML list." -/
  | stepsNotList
deriving DecidableEq

/-- How the reading of a document fails: with the error that stands for an invalid document, or with
another exception. -/
inductive ParseFailure where
  | validation (error : YAMLValidationError)
  | escaped (error : PyError)
deriving DecidableEq

/-- `_require_str`. -/
def requireStr (mapping : Dict String Value) (key context : String) : Except ParseFailure String :=
  match mapping.get? key with
  | none | some .none => .error (.validation (.required key context))
  | some (.str text) => .ok text
  | some value => .error (.validation (.notString key context value.typeName))

/-- The field at a key, or the default. -/
def field (mapping : Dict String Value) (key : String) (default : Value) : Value :=
  mapping.getD key default

/-- `{str(k): str(v) for k, v in raw_inputs.items()}`. -/
def renderInputs (conv : TextConversions) (rawInputs : List (String × Value)) :
    Except ParseFailure (Dict String String) := do
  let inputs ← (Dict.ofList rawInputs).entries.mapM fun entry =>
    ((entry.2.toStr conv).map fun text => (entry.1, text)).mapError ParseFailure.escaped
  .ok (.ofList inputs)

/-- `[str(o) for o in raw_outputs]`. -/
def renderOutputs (conv : TextConversions) (rawOutputs : List Value) :
    Except ParseFailure (List String) :=
  rawOutputs.mapM fun value => (value.toStr conv).mapError ParseFailure.escaped

/-- The fields that `_parse_step` reads of every step. -/
def parseCommon (conv : TextConversions) (mapping : Dict String Value) (stepIndex : ℕ) :
    Except ParseFailure YAMLWorkflowStep := do
  let name ← requireStr mapping "name" ("step[" ++ toString stepIndex ++ "]")
  let text ← requireStr mapping "type" ("step '" ++ name ++ "'")
  match StepType.ofText? text with
  | none => .error (.validation (.unknownType name text))
  | some stepType =>
    match field mapping "inputs" (.dict []) with
    | .dict rawInputs =>
      match field mapping "outputs" (.list []) with
      | .list rawOutputs => do
        let inputs ← renderInputs conv rawInputs
        let outputs ← renderOutputs conv rawOutputs
        .ok {
          name := name
          stepType := stepType
          agent := field mapping "agent" .none
          inputs := inputs
          outputs := outputs }
      | value => .error (.validation (.outputsNotList name value.typeName))
    | value => .error (.validation (.inputsNotMapping name value.typeName))

/-- What the enumeration of texts as steps gives: no text is a mapping. -/
def rejectTexts (texts : List String) : Except ParseFailure (List YAMLWorkflowStep) :=
  if texts.isEmpty then .ok [] else .error (.validation (.stepNotMapping 0 "str"))

mutual

/-- `_parse_step`. -/
def parseStep (conv : TextConversions) (rawStep : Value) (stepIndex : ℕ) :
    Except ParseFailure YAMLWorkflowStep :=
  match rawStep with
  | .dict entries => do
    let mapping := Dict.ofList entries
    let step ← parseCommon conv mapping stepIndex
    match step.stepType with
    | .conditional => do
      let condition ← requireStr mapping "condition" ("step '" ++ step.name ++ "'")
      let ifSteps ← (parseField conv "if_steps" entries).getD (.ok [])
      let elseSteps ← (parseField conv "else_steps" entries).getD (.ok [])
      .ok { step with condition := some condition, ifSteps := ifSteps, elseSteps := elseSteps }
    | .parallel =>
      match field mapping "steps" (.list []) with
      | .list _ => do
        let subSteps ← (parseField conv "steps" entries).getD (.ok [])
        .ok { step with subSteps := subSteps }
      | _ => .error (.validation (.subStepsNotList step.name))
    | .task => .ok step
  | value => .error (.validation (.stepNotMapping stepIndex value.typeName))

/-- `[_parse_step(s, i) for i, s in enumerate(raw)]`. -/
def parseSteps (conv : TextConversions) (raw : Value) :
    Except ParseFailure (List YAMLWorkflowStep) :=
  match raw with
  | .list rawSteps => parseList conv rawSteps 0
  -- A text is enumerated by its characters, and a mapping by its keys.
  | .str text => rejectTexts (text.toList.map fun c => String.ofList [c])
  | .dict entries => rejectTexts (Dict.ofList entries).keys
  | _ => .error (.escaped .typeError)

/-- The steps of a list, from an index on. -/
def parseList (conv : TextConversions) (rawSteps : List Value) (stepIndex : ℕ) :
    Except ParseFailure (List YAMLWorkflowStep) :=
  match rawSteps with
  | [] => .ok []
  | rawStep :: rawSteps => do
    let step ← parseStep conv rawStep stepIndex
    let steps ← parseList conv rawSteps (stepIndex + 1)
    .ok (step :: steps)

/-- The steps at a key of a mapping: the last entry with the key counts. -/
def parseField (conv : TextConversions) (key : String) (entries : List (String × Value)) :
    Option (Except ParseFailure (List YAMLWorkflowStep)) :=
  match entries with
  | [] => none
  | (k, raw) :: entries =>
    (parseField conv key entries).or (if k = key then some (parseSteps conv raw) else none)

end

/-- `_parse_workflow_document`: the name of the workflow and its steps. -/
def parseWorkflowDocument (conv : TextConversions) (document : Value) :
    Except ParseFailure (String × List YAMLWorkflowStep) :=
  match document with
  | .dict entries => do
    let mapping := Dict.ofList entries
    let name ← requireStr mapping "name" "workflow document"
    match field mapping "steps" (.list []) with
    | .list rawSteps => do
      let steps ← parseList conv rawSteps 0
      .ok (name, steps)
    | _ => .error (.validation .stepsNotList)
  | value => .error (.validation (.documentNotMapping value.typeName))

end Workflows

end MeshRouter
