import Mathlib.Algebra.Order.Ring.Rat

/-!
# Payload values

The values that message payloads, step parameters, and step outputs are made of: what the source
types as `object` and serialises as JSON. A finite float is an exact rational; JSON also has texts
for an infinity, such as `1e400`, and for what is not a number. Except for the conversions of
`Builtins.lean`, the router compares and copies these values and never computes with them.
-/

namespace MeshRouter

/-- A value of a payload. What is not a number is, as a value, the same as itself. -/
inductive Value where
  | none
  | bool (b : Bool)
  | int (n : ℤ)
  | float (x : ℚ)
  | infinite (negative : Bool)
  | nan
  | str (s : String)
  | list (xs : List Value)
  | dict (entries : List (String × Value))

namespace Value

mutual

/-- Equality of values is decided along their structure. -/
def decEq : (a b : Value) → Decidable (a = b)
  | .none, b => match b with
    | .none => isTrue rfl
    | .bool _ | .int _ | .float _ | .infinite _ | .nan | .str _ | .list _
    | .dict _ => isFalse (by simp)
  | .bool x, b => match b with
    | .bool y => decidable_of_iff (x = y) (by simp)
    | .none | .int _ | .float _ | .infinite _ | .nan | .str _ | .list _
    | .dict _ => isFalse (by simp)
  | .int x, b => match b with
    | .int y => decidable_of_iff (x = y) (by simp)
    | .none | .bool _ | .float _ | .infinite _ | .nan | .str _ | .list _
    | .dict _ => isFalse (by simp)
  | .float x, b => match b with
    | .float y => decidable_of_iff (x = y) (by simp)
    | .none | .bool _ | .int _ | .infinite _ | .nan | .str _ | .list _
    | .dict _ => isFalse (by simp)
  | .infinite x, b => match b with
    | .infinite y => decidable_of_iff (x = y) (by simp)
    | .none | .bool _ | .int _ | .float _ | .nan | .str _ | .list _ | .dict _ => isFalse (by simp)
  | .nan, b => match b with
    | .nan => isTrue rfl
    | .none | .bool _ | .int _ | .float _ | .infinite _ | .str _ | .list _
    | .dict _ => isFalse (by simp)
  | .str x, b => match b with
    | .str y => decidable_of_iff (x = y) (by simp)
    | .none | .bool _ | .int _ | .float _ | .infinite _ | .nan | .list _
    | .dict _ => isFalse (by simp)
  | .list xs, b => match b with
    | .list ys =>
      have := decEqList xs ys
      decidable_of_iff (xs = ys) (by simp)
    | .none | .bool _ | .int _ | .float _ | .infinite _ | .nan | .str _
    | .dict _ => isFalse (by simp)
  | .dict xs, b => match b with
    | .dict ys =>
      have := decEqEntries xs ys
      decidable_of_iff (xs = ys) (by simp)
    | .none | .bool _ | .int _ | .float _ | .infinite _ | .nan | .str _
    | .list _ => isFalse (by simp)

/-- Equality of the elements of lists. -/
def decEqList : (xs ys : List Value) → Decidable (xs = ys)
  | [], [] => isTrue rfl
  | [], _ :: _ | _ :: _, [] => isFalse (by simp)
  | x :: xs, y :: ys =>
    have := decEq x y
    have := decEqList xs ys
    decidable_of_iff (x = y ∧ xs = ys) (by simp)

/-- Equality of the entries of dictionaries. -/
def decEqEntries : (xs ys : List (String × Value)) → Decidable (xs = ys)
  | [], [] => isTrue rfl
  | [], _ :: _ | _ :: _, [] => isFalse (by simp)
  | (k, x) :: xs, (l, y) :: ys =>
    have := decEq x y
    have := decEqEntries xs ys
    decidable_of_iff (k = l ∧ x = y ∧ xs = ys) (by simp [and_assoc])

end

instance : DecidableEq Value := decEq

example : dict [("a", .list [.int 3, .none])] ≠ dict [("a", .list [.int 3, .bool true])] := by
  decide

end Value

end MeshRouter
