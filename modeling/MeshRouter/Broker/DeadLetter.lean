import MeshRouter.Lib.Slice
import MeshRouter.Messages.Envelope

/-!
# The dead-letter queue

`DeadLetterQueue` of `broker/dead_letter.py`: the envelopes that could not be delivered, oldest
first, at most `maxsize` of them. A push into a full queue evicts the oldest entry, and
`totalReceived` counts the evicted entries too, so that nothing has been evicted exactly while it is
at most `maxsize`.
-/

namespace MeshRouter.Broker

open Lib Messages

/-- "maxsize must be positive, got …." -/
structure MaxsizeError where
  got : ℤ
deriving DecidableEq

/-- A single dead-letter record. -/
structure DeadLetterEntry where
  envelope : MessageEnvelope
  reason : String
  errorDetail : String := ""
  deadLetteredAt : ℚ
  attemptCount : ℕ := 1
deriving DecidableEq

/-- A bounded queue for undeliverable messages. -/
structure DeadLetterQueue where
  maxsize : ℕ
  maxsize_pos : 0 < maxsize
  entries : List DeadLetterEntry := []
  totalReceived : ℕ := 0
deriving DecidableEq

namespace DeadLetterQueue

/-- `__init__`. -/
def init (maxsize : ℤ) : Except MaxsizeError DeadLetterQueue :=
  if h : 0 < maxsize then
    .ok { maxsize := maxsize.toNat, maxsize_pos := Int.pos_iff_toNat_pos.mp h }
  else
    .error ⟨maxsize⟩

/-- `push`: the oldest entry is evicted when the queue is full. -/
def push (dlq : DeadLetterQueue) (entry : DeadLetterEntry) : DeadLetterQueue :=
  let entries := if dlq.maxsize ≤ dlq.entries.length then dlq.entries.tail else dlq.entries
  { dlq with entries := entries ++ [entry], totalReceived := dlq.totalReceived + 1 }

/-- `pop`: the oldest entry, if there is one. -/
def pop (dlq : DeadLetterQueue) : Option DeadLetterEntry × DeadLetterQueue :=
  match dlq.entries with
  | [] => (none, dlq)
  | entry :: rest => (some entry, { dlq with entries := rest })

/-- The entries with a matching reason, or all of them without a filter. -/
def matching (dlq : DeadLetterQueue) (reasonFilter : Option String) : List DeadLetterEntry :=
  match reasonFilter with
  | none => dlq.entries
  | some reason => dlq.entries.filter fun e => e.reason = reason

/-- `list_entries`. -/
def listEntries (dlq : DeadLetterQueue) (reasonFilter : Option String) (limit : Option ℤ) :
    List DeadLetterEntry :=
  let entries := dlq.matching reasonFilter
  match limit with
  | none => entries
  | some limit => sliceFrom (-limit) entries

/-- `clear`. -/
def clear (dlq : DeadLetterQueue) : ℕ × DeadLetterQueue :=
  (dlq.entries.length, { dlq with entries := [] })

end DeadLetterQueue

end MeshRouter.Broker
