import Mathlib.Data.List.MinMax
import Mathlib.Data.List.Sort

/-!
# The head of a stable sort

A stable sort by a key starts with the element that a search for the least key finds, the first of
them, and a stable sort by falling keys with the first of the greatest.
-/

namespace MeshRouter.Lib

variable {α β : Type} [LinearOrder β]

/-- The head after an insertion: what is inserted, unless the head before goes first. -/
theorem head?_orderedInsert (r : α → α → Prop) [DecidableRel r] (a : α) (l : List α) :
    (l.orderedInsert r a).head? =
      match l.head? with
      | none => some a
      | some b => if r a b then some a else some b := by
  cases l with
  | nil => rfl
  | cons b l =>
    rw [List.orderedInsert, List.head?_cons]
    dsimp only
    split_ifs
    · rfl
    · rfl

/-- A sort by a key starts with the first least element. -/
theorem head?_insertionSort_le (key : α → β) (l : List α) :
    (l.insertionSort fun a b => key a ≤ key b).head? = l.argmin key := by
  induction l with
  | nil => rfl
  | cons a l ih =>
    rw [List.insertionSort_cons, head?_orderedInsert, ih, List.argmin_cons]
    cases l.argmin key with
    | none => rfl
    | some b =>
      dsimp only
      by_cases hlt : key b < key a
      · rw [if_neg hlt.not_ge, if_pos hlt]
      · rw [if_pos (not_lt.mp hlt), if_neg hlt]

/-- A sort by falling keys starts with the first greatest element. -/
theorem head?_insertionSort_ge (key : α → β) (l : List α) :
    (l.insertionSort fun a b => key b ≤ key a).head? = l.argmax key :=
  head?_insertionSort_le (β := βᵒᵈ) key l

end MeshRouter.Lib
