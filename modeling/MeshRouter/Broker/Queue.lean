import Mathlib.Data.Prod.Lex
import MeshRouter.Lib.MinQueue
import MeshRouter.Messages.Envelope

/-!
# The priority queue of envelopes

`PriorityMessageQueue` of `broker/queue.py`, over a minimum queue of items ordered by priority and,
within a priority, by arrival. The operations that wait are given by their attempts: `put` returns
`none` while the queue is full, and `getRound` is one turn of the loop in `get`, which waits while
the queue is empty and drops an item that has expired.
-/

namespace MeshRouter.Broker

open Lib Messages

/-- The wrapper that makes envelopes sortable. -/
structure QueueItem where
  priorityValue : ℕ
  sequence : ℕ
  enqueuedAt : ℚ
  envelope : MessageEnvelope
deriving DecidableEq

/-- Items are compared by priority, then by sequence number. -/
def QueueItem.key (item : QueueItem) : ℕ ×ₗ ℕ := toLex (item.priorityValue, item.sequence)

/-- "PriorityMessageQueue is full (maxsize=…)." -/
structure QueueFullError where
  maxsize : ℤ
deriving DecidableEq

/-- Priority queue for envelopes. -/
structure PriorityMessageQueue where
  discardExpired : Bool
  queue : MinQueue QueueItem.key
  sequence : ℕ := 0
  totalEnqueued : ℕ := 0
  totalDequeued : ℕ := 0
  totalDiscarded : ℕ := 0

namespace PriorityMessageQueue

/-- `__init__`. -/
def init (maxsize : ℤ) (discardExpired : Bool) : PriorityMessageQueue :=
  { discardExpired := discardExpired, queue := .empty _ maxsize }

/-- The items in the queue, the most urgent first. -/
def items (q : PriorityMessageQueue) : List QueueItem := q.queue.items

/-- `_make_item`: every item takes the next sequence number. -/
def makeItem (q : PriorityMessageQueue) (envelope : MessageEnvelope) (now : ℚ) :
    QueueItem × PriorityMessageQueue :=
  (⟨envelope.priority.value, q.sequence, now, envelope⟩, { q with sequence := q.sequence + 1 })

/-- What `put` does with its item, once the queue has room. -/
def put (q : PriorityMessageQueue) (item : QueueItem) : Option PriorityMessageQueue :=
  (q.queue.put item).map fun queue =>
    { q with queue := queue, totalEnqueued := q.totalEnqueued + 1 }

/-- `put_nowait`: the item takes its sequence number also when the queue is full. -/
def putNowait (q : PriorityMessageQueue) (envelope : MessageEnvelope) (now : ℚ) :
    Except QueueFullError Unit × PriorityMessageQueue :=
  let (item, q) := q.makeItem envelope now
  match q.put item with
  | some q => (.ok (), q)
  | none => (.error ⟨q.queue.maxsize⟩, q)

/-- A turn of the loop in `get`: the item that it returns, or none if it dropped an expired item. -/
def getRound (q : PriorityMessageQueue) (now : ℚ) :
    Option (Option QueueItem × PriorityMessageQueue) :=
  q.queue.get.map fun (item, queue) =>
    let q := { q with queue := queue, totalDequeued := q.totalDequeued + 1 }
    if q.discardExpired && item.envelope.isExpired now then
      (none, { q with queue := queue.taskDone, totalDiscarded := q.totalDiscarded + 1 })
    else
      (some item, q)

/-- `get_nowait`, which returns an item whether or not it has expired; `none` is
`asyncio.QueueEmpty`. -/
def getNowait (q : PriorityMessageQueue) : Option (QueueItem × PriorityMessageQueue) :=
  q.queue.get.map fun (item, queue) =>
    (item, { q with queue := queue, totalDequeued := q.totalDequeued + 1 })

/-- `qsize`. -/
def qsize (q : PriorityMessageQueue) : ℕ := q.queue.items.length

/-- `task_done`. -/
def taskDone (q : PriorityMessageQueue) : PriorityMessageQueue :=
  { q with queue := q.queue.taskDone }

/-- A put adds the item and keeps the others. -/
theorem mem_put {q q' : PriorityMessageQueue} {item i : QueueItem} (h : q.put item = some q') :
    i ∈ q'.items ↔ i = item ∨ i ∈ q.items := by
  obtain ⟨queue, hput, rfl⟩ := Option.map_eq_some_iff.mp h
  exact MinQueue.mem_put hput

/-- What a put does: the item is added, and counted. -/
theorem put_cases {q q' : PriorityMessageQueue} {item : QueueItem} (h : q.put item = some q') :
    ∃ queue : MinQueue QueueItem.key, queue.items.Perm (item :: q.items) ∧
      q' = { q with queue := queue, totalEnqueued := q.totalEnqueued + 1 } := by
  obtain ⟨queue, hput, rfl⟩ := Option.map_eq_some_iff.mp h
  exact ⟨queue, MinQueue.perm_of_put hput, rfl⟩

/-- What `put_nowait` does: it puts the item that it made, or raises and has used only the item's
sequence number. -/
theorem putNowait_cases (q : PriorityMessageQueue) (envelope : MessageEnvelope) (now : ℚ) :
    (∃ q', (q.makeItem envelope now).2.put (q.makeItem envelope now).1 = some q' ∧
      q.putNowait envelope now = (.ok (), q')) ∨
    q.putNowait envelope now =
      (.error ⟨q.queue.maxsize⟩, { q with sequence := q.sequence + 1 }) := by
  rcases hput : (q.makeItem envelope now).2.put (q.makeItem envelope now).1 with _ | q'
  · refine Or.inr ?_
    unfold putNowait
    dsimp only
    rw [hput]
    rfl
  · refine Or.inl ⟨q', rfl, ?_⟩
    unfold putNowait
    dsimp only
    rw [hput]

/-- An empty queue has room. -/
theorem put_isSome_of_empty {q : PriorityMessageQueue} (hempty : q.items = []) (item : QueueItem) :
    ∃ q', q.put item = some q' := by
  have hfull : q.queue.full = false := by
    have hlength : q.queue.items.length = 0 := List.length_eq_zero_iff.mpr hempty
    unfold MinQueue.full
    rw [hlength]
    simp
  obtain ⟨queue, hqueue⟩ := MinQueue.put_isSome hfull item
  exact ⟨_, Option.map_eq_some_iff.mpr ⟨queue, hqueue, rfl⟩⟩

/-- What a turn of the loop in `get` does: it takes the first item, and returns it or drops it as
its time to live demands. -/
theorem getRound_cases {q q' : PriorityMessageQueue} {now : ℚ} {taken : Option QueueItem}
    (h : q.getRound now = some (taken, q')) :
    ∃ item, q.items = item :: q'.items ∧ taken =
      if q.discardExpired && item.envelope.isExpired now then none else some item := by
  obtain ⟨⟨item, queue⟩, hget, hround⟩ := Option.map_eq_some_iff.mp h
  refine ⟨item, ?_⟩
  have hitems := MinQueue.items_of_get hget
  -- Both branches leave the queue that `get` left; they differ in what is returned.
  dsimp only at hround
  split_ifs at hround ⊢
  · obtain ⟨rfl, rfl⟩ := Prod.mk.inj hround
    exact ⟨hitems, rfl⟩
  · obtain ⟨rfl, rfl⟩ := Prod.mk.inj hround
    exact ⟨hitems, rfl⟩

/-- A call took the first item out of the queue `q` and left `q'`, with so many more items counted
as discarded. -/
structure Takes (q q' : PriorityMessageQueue) (item : QueueItem) (discarded : ℕ) : Prop where
  items : q.items = item :: q'.items
  discardExpired : q'.discardExpired = q.discardExpired
  sequence : q'.sequence = q.sequence
  totalEnqueued : q'.totalEnqueued = q.totalEnqueued
  totalDequeued : q'.totalDequeued = q.totalDequeued + 1
  totalDiscarded : q'.totalDiscarded = q.totalDiscarded + discarded

/-- A turn of the loop in `get` takes the first item, and counts it as discarded if it drops it. -/
theorem getRound_takes {q q' : PriorityMessageQueue} {now : ℚ} {taken : Option QueueItem}
    (h : q.getRound now = some (taken, q')) :
    ∃ item, (q.discardExpired && item.envelope.isExpired now) = true ∧ taken = none ∧
        Takes q q' item 1 ∨
      taken = some item ∧ Takes q q' item 0 := by
  obtain ⟨⟨item, queue⟩, hget, hround⟩ := Option.map_eq_some_iff.mp h
  have hitems := MinQueue.items_of_get hget
  refine ⟨item, ?_⟩
  dsimp only at hround
  split_ifs at hround with hexpired
  · obtain ⟨rfl, rfl⟩ := Prod.mk.inj hround
    exact Or.inl ⟨hexpired, rfl, ⟨hitems, rfl, rfl, rfl, rfl, rfl⟩⟩
  · obtain ⟨rfl, rfl⟩ := Prod.mk.inj hround
    exact Or.inr ⟨rfl, ⟨hitems, rfl, rfl, rfl, rfl, rfl⟩⟩

/-- `get_nowait` takes the first item. -/
theorem getNowait_takes {q q' : PriorityMessageQueue} {item : QueueItem}
    (h : q.getNowait = some (item, q')) : Takes q q' item 0 := by
  obtain ⟨⟨first, queue⟩, hget, hq⟩ := Option.map_eq_some_iff.mp h
  obtain ⟨rfl, rfl⟩ := Prod.mk.inj hq
  exact ⟨MinQueue.items_of_get hget, rfl, rfl, rfl, rfl, rfl⟩

end PriorityMessageQueue

end MeshRouter.Broker
