import MeshRouter.Lib.Dict
import MeshRouter.Value

/-!
# Message envelopes

The data of `messages/types.py` and `messages/envelope.py`, and the check of the time to live.
-/

namespace MeshRouter.Messages

open Lib

/-- Discriminator for inter-agent message semantics. -/
inductive MessageType where
  | TASK
  | QUERY
  | RESPONSE
  | RESULT
  | HANDOFF
  | BROADCAST
  | HEARTBEAT
  | ERROR
  | CANCEL
  | ACK
deriving DecidableEq

/-- Message priority levels. -/
inductive Priority where
  | CRITICAL
  | HIGH
  | NORMAL
  | LOW
  | BATCH
deriving DecidableEq

/-- The integer value of a priority: lower values are processed first. -/
def Priority.value : Priority → ℕ
  | .CRITICAL => 0
  | .HIGH => 1
  | .NORMAL => 2
  | .LOW => 3
  | .BATCH => 4

/-- Wrapper for all inter-agent messages. -/
structure MessageEnvelope where
  sender : String
  receiver : String
  payload : Dict String Value := .empty
  messageType : MessageType := .TASK
  priority : Priority := .NORMAL
  topic : Option String := none
  traceId : String := ""
  parentMessageId : Option String := none
  messageId : String
  createdAt : ℚ
  ttlSeconds : Option ℚ := none
  costBudgetUsd : Option ℚ := none
  metadata : Dict String String := .empty
deriving DecidableEq

/-- `is_expired` at the time `now`: the time to live has elapsed. -/
def MessageEnvelope.isExpired (envelope : MessageEnvelope) (now : ℚ) : Bool :=
  match envelope.ttlSeconds with
  | none => false
  | some ttl => decide (ttl < now - envelope.createdAt)

end MeshRouter.Messages
