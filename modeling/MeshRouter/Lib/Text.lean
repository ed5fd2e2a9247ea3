import Mathlib.Data.List.Basic

/-!
# Blank text

`str.strip` removes the whitespace at both ends, so that a text strips to the empty one exactly when
all its characters are whitespace (`Blank`). Whitespace is what `str.isspace` accepts.
-/

namespace MeshRouter.Lib

/-- `str.isspace`, of one character. -/
def isSpace (c : Char) : Bool :=
  let n := c.toNat
  (9 ≤ n ∧ n ≤ 13) ∨ (28 ≤ n ∧ n ≤ 32) ∨ n = 133 ∨ n = 160 ∨ n = 5760 ∨ (8192 ≤ n ∧ n ≤ 8202) ∨
    n = 8232 ∨ n = 8233 ∨ n = 8239 ∨ n = 8287 ∨ n = 12288

/-- The text strips to the empty one. -/
def Blank (s : String) : Prop := ∀ c ∈ s.toList, isSpace c = true

instance (s : String) : Decidable (Blank s) :=
  decidable_of_iff (s.toList.all isSpace = true) List.all_eq_true

example : Blank "" ∧ ¬ Blank "a b" := by decide

end MeshRouter.Lib
