import Mathlib.Data.Rat.Floor
import MeshRouter.Lib.Dict
import MeshRouter.Value

/-!
# Conversions of untyped values

What `str`, `int`, `float`, `dict` and `set` do with a value that was decoded from JSON, as far as
the router relies on it. How a text is read as a number, and how a value that is not a text is
written as one, is left open (`TextConversions`). A finite float is an exact rational, and an
integer that does not fit a float makes the conversion raise.
-/

namespace MeshRouter

open Lib

/-- The class of an exception. -/
inductive PyError where
  | typeError
  | valueError
  | keyError
  | overflowError
deriving DecidableEq

/-- A float: a text may also be read as an infinity or as not a number, which as the value of a
field is the same as itself. -/
inductive PyFloat where
  | finite (x : ℚ)
  | infinite (negative : Bool)
  | nan
deriving DecidableEq

/-- A dictionary with any hashable keys, in insertion order. -/
abbrev PyDict := List (Value × Value)

/-- The conversions between texts and values. -/
structure TextConversions where
  /-- `int(text)`, if the text denotes an integer. -/
  readInt : String → Option ℤ
  /-- `float(text)`, if the text denotes a float. -/
  readFloat : String → Option PyFloat
  /-- `str(value)`, of a value that is not a text. -/
  render : Value → Except PyError String

/-- The least integer whose conversion to a float overflows. -/
def floatLimit : ℕ := 2 ^ 1024 - 2 ^ 970

/-- The conversion of an integer to a float, which arithmetic with a float also does. -/
def floatOfInt (n : ℤ) : Except PyError ℚ :=
  if n.natAbs < floatLimit then .ok n else .error .overflowError

namespace Value

/-- Whether a value can be a key or a member of a set. -/
def hashable : Value → Bool
  | .list _ => false
  | .dict _ => false
  | _ => true

/-- The number that a value is, if it is one. -/
def number? : Value → Option ℚ
  | .bool b => some (if b then 1 else 0)
  | .int n => some n
  | .float x => some x
  | _ => Option.none

/-- Whether two keys are the same: numbers are compared by value. -/
def sameKey (a b : Value) : Bool :=
  match a.number?, b.number? with
  | some x, some y => decide (x = y)
  | Option.none, Option.none => decide (a = b)
  | _, _ => false

/-- `str(value)`. -/
def toStr (conv : TextConversions) : Value → Except PyError String
  | .str s => .ok s
  | value => conv.render value

/-- `int(value)`: a float is cut towards zero, if it is finite. -/
def toInt (conv : TextConversions) : Value → Except PyError ℤ
  | .bool b => .ok (if b then 1 else 0)
  | .int n => .ok n
  | .float x => .ok (if 0 ≤ x then ⌊x⌋ else ⌈x⌉)
  | .infinite _ => .error .overflowError
  | .nan => .error .valueError
  | .str s =>
    match conv.readInt s with
    | some n => .ok n
    | Option.none => .error .valueError
  | .none => .error .typeError
  | .list _ => .error .typeError
  | .dict _ => .error .typeError

/-- `float(value)`. -/
def toFloat (conv : TextConversions) : Value → Except PyError PyFloat
  | .bool b => .ok (.finite (if b then 1 else 0))
  | .int n => (floatOfInt n).map .finite
  | .float x => .ok (.finite x)
  | .infinite negative => .ok (.infinite negative)
  | .nan => .ok .nan
  | .str s =>
    match conv.readFloat s with
    | some x => .ok x
    | Option.none => .error .valueError
  | .none => .error .typeError
  | .list _ => .error .typeError
  | .dict _ => .error .typeError

/-- Set a key of a dictionary: a key that is the same as a present one keeps the present one. -/
def setKey (entries : PyDict) (k v : Value) : PyDict :=
  if entries.any fun e => e.1.sameKey k then
    entries.map fun e => if e.1.sameKey k then (e.1, v) else e
  else
    entries ++ [(k, v)]

/-- The key and the value that `dict` reads from an element of a sequence: a list of two, a text of
two characters, or the keys of a dictionary with two. -/
def pair : Value → Except PyError (Value × Value)
  | .list [k, v] => if k.hashable then .ok (k, v) else .error .typeError
  | .list _ => .error .valueError
  | .str s =>
    match s.toList with
    | [c, d] => .ok (.str (String.ofList [c]), .str (String.ofList [d]))
    | _ => .error .valueError
  | .dict entries =>
    match (Dict.ofList entries).keys with
    | [k, l] => .ok (.str k, .str l)
    | _ => .error .valueError
  | _ => .error .typeError

/-- The entries of a dictionary, under keys of any kind. -/
def ofEntries {ν : Type} (value : ν → Value) (entries : List (String × ν)) : PyDict :=
  entries.map fun e => (.str e.1, value e.2)

/-- `dict(value)`. A text that is not empty has elements that are no pairs. -/
def toDict : Value → Except PyError PyDict
  | .dict entries => .ok (ofEntries id (Dict.ofList entries).entries)
  | .list xs => xs.foldlM (fun d x => (pair x).map fun e => setKey d e.1 e.2) []
  | .str s => if s = "" then .ok [] else .error .valueError
  | _ => .error .typeError

/-- `dict` of a dictionary. -/
theorem toDict_dict (entries : List (String × Value)) :
    toDict (.dict entries) = .ok (ofEntries id (Dict.ofList entries).entries) := rfl

/-- `set(values)`, of a list. A set is given by a list of its members. -/
def setOf (values : List Value) : Except PyError (List Value) :=
  if ∀ v ∈ values, v.hashable = true then .ok values else .error .typeError

end Value

end MeshRouter
