import Mathlib.Algebra.Order.Ring.Int
import Mathlib.Data.List.Sort

/-!
# Bounded minimum queues

A queue that gives out its least element first, as `asyncio.PriorityQueue` does: `key` orders the
elements, `maxsize` bounds their number when it is positive, and `unfinished` counts the elements
that were put and not yet reported as done. The elements are kept in order, and that they are is a
field. What an operation waits for is a condition on the queue: `put` waits while the queue is full
and `get` while it is empty, and both return `none` then.
-/

namespace MeshRouter.Lib

/-- A minimum queue of elements ordered by `key`. -/
structure MinQueue {α κ : Type} [LinearOrder κ] (key : α → κ) where
  /-- The most elements it holds, if positive. -/
  maxsize : ℤ
  /-- The elements, least first. -/
  items : List α
  sorted : items.Pairwise fun a b => key a ≤ key b
  /-- The elements put and not reported as done. -/
  unfinished : ℕ

namespace MinQueue

variable {α κ : Type} [LinearOrder κ] {key : α → κ}

/-- The queue without elements. -/
def empty (key : α → κ) (maxsize : ℤ) : MinQueue key := ⟨maxsize, [], List.Pairwise.nil, 0⟩

/-- Whether a put has to wait. -/
def full (q : MinQueue key) : Bool := decide (0 < q.maxsize ∧ q.maxsize ≤ q.items.length)

/-- Put an element, unless the queue is full. -/
def put (q : MinQueue key) (a : α) : Option (MinQueue key) :=
  if q.full then
    none
  else
    -- Insertion keeps a list sorted for a total and transitive relation.
    have : Std.Total fun a b : α => key a ≤ key b := ⟨fun _ _ => le_total _ _⟩
    have : IsTrans α fun a b : α => key a ≤ key b := ⟨fun _ _ _ => le_trans⟩
    some { q with
      items := q.items.orderedInsert (fun a b => key a ≤ key b) a
      sorted := List.Pairwise.orderedInsert a q.items q.sorted
      unfinished := q.unfinished + 1 }

/-- Take the least element, unless the queue is empty. -/
def get (q : MinQueue key) : Option (α × MinQueue key) :=
  match h : q.items with
  | [] => none
  | a :: items =>
    some (a, { q with items := items, sorted := (List.pairwise_cons.mp (h ▸ q.sorted)).2 })

/-- Report an element as done. -/
def taskDone (q : MinQueue key) : MinQueue key := { q with unfinished := q.unfinished - 1 }

/-- A put adds the element and keeps the others. -/
theorem mem_put {q q' : MinQueue key} {a b : α} (h : q.put a = some q') :
    b ∈ q'.items ↔ b = a ∨ b ∈ q.items := by
  unfold put at h
  split_ifs at h
  obtain rfl := Option.some.inj h
  exact List.mem_orderedInsert _

/-- A put adds the element once. -/
theorem perm_of_put {q q' : MinQueue key} {a : α} (h : q.put a = some q') :
    q'.items.Perm (a :: q.items) := by
  unfold put at h
  split_ifs at h
  obtain rfl := Option.some.inj h
  exact List.perm_orderedInsert _ a q.items

/-- A queue that is not full takes a put. -/
theorem put_isSome {q : MinQueue key} (hfull : q.full = false) (a : α) :
    ∃ q', q.put a = some q' := by
  unfold put
  rw [hfull]
  exact ⟨_, rfl⟩

/-- A get waits exactly when there is no element. -/
theorem get_eq_none {q : MinQueue key} : q.get = none ↔ q.items = [] := by
  unfold get
  split
  · rename_i hitems
    exact ⟨fun _ => hitems, fun _ => rfl⟩
  · rename_i a items hitems
    exact ⟨fun h => (by cases h), fun h => absurd (hitems.symm.trans h) (List.cons_ne_nil a items)⟩

/-- A get takes the first element and leaves the others. -/
theorem items_of_get {q q' : MinQueue key} {a : α} (h : q.get = some (a, q')) :
    q.items = a :: q'.items := by
  unfold get at h
  split at h
  · cases h
  · obtain ⟨rfl, rfl⟩ := Prod.mk.inj (Option.some.inj h)
    assumption

/-- A get reports nothing as done. -/
theorem unfinished_of_get {q q' : MinQueue key} {a : α} (h : q.get = some (a, q')) :
    q'.unfinished = q.unfinished := by
  unfold get at h
  split at h
  · cases h
  · obtain ⟨rfl, rfl⟩ := Prod.mk.inj (Option.some.inj h)
    rfl

end MinQueue

end MeshRouter.Lib
