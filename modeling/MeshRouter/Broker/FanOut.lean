import MeshRouter.Broker.Dispatch
import Mathlib.Logic.Relation

/-!
# Fan-out

`_dispatch` and `_deliver_to` of `broker/message_broker.py`, as far as the envelope goes. One object
is handed to the handler of every target, to every retry, and to the dead-letter queue, which keeps
a reference, so that what a handler does to the object is there for all that read it later. The
state of a dispatch (`FanOut`) is what the object holds now, with the calls of handlers and what
each of them saw.

The handlers are outside the program: what is registered for an agent at a lookup, how the call ends
and what it leaves in the object are a function `handlers` of the number of the lookup. What each of
them does with the envelope as it was published decides which lookup follows (`Turn.Next`), and
`fanOut_isolated_iff` says which handlers then keep the targets apart.
-/

namespace MeshRouter.Broker

open Lib Messages

/-- `_inject_trace_context` of `middleware/tracing.py`. The generated ids, the decision to sample
and the clock reading are arguments. -/
def injectTraceContext (serviceName traceId spanId sampled traceIngestedAt : String)
    (envelope : MessageEnvelope) : MessageEnvelope :=
  let metadata := envelope.metadata
  let metadata :=
    match metadata.get? "span_id" with
    | some existingSpanId =>
      if existingSpanId = "" then metadata else metadata.set "parent_span_id" existingSpanId
    | none => metadata
  { envelope with
    traceId := if envelope.traceId = "" then traceId else envelope.traceId
    metadata := (((metadata.set "span_id" spanId).set "service_name" serviceName).set "sampled"
      sampled).set "trace_ingested_at" traceIngestedAt }

/-- What a handler does in one call: how it ends, and what it leaves in the object. -/
abbrev HandlerCall := MessageEnvelope → HandlerOutcome × MessageEnvelope

/-- A call of a handler: the lookup that found it, its agent, and what the object held. -/
structure Invocation where
  lookup : ℕ
  agentId : String
  seen : MessageEnvelope
deriving DecidableEq

/-- A dead-letter entry of a dispatch, beside its reference to the object. -/
structure DeadLetterRef where
  reason : String
  errorDetail : String := ""
  attemptCount : ℕ := 1
deriving DecidableEq

/-- The state of a dispatch. -/
structure FanOut where
  /-- What the envelope object holds. -/
  object : MessageEnvelope
  /-- The lookups of handlers so far. -/
  lookups : ℕ := 0
  invocations : List Invocation := []
  deadLetters : List DeadLetterRef := []
  /-- An exception has left `_dispatch`. -/
  escaped : Bool := false
deriving DecidableEq

namespace FanOut

/-- `self._dlq.push`. -/
def deadLetter (s : FanOut) (entry : DeadLetterRef) : FanOut :=
  { s with deadLetters := s.deadLetters ++ [entry] }

/-- The envelopes that the dead-letter entries show. -/
def deadLettered (s : FanOut) : List MessageEnvelope := s.deadLetters.map fun _ => s.object

/-- The state after the call of a handler that leaves `object`. -/
def invoke (s : FanOut) (agentId : String) (object : MessageEnvelope) : FanOut :=
  { s with
    object := object
    lookups := s.lookups + 1
    invocations := s.invocations ++ [⟨s.lookups, agentId, s.object⟩] }

variable (handlers : ℕ → String → Option HandlerCall) (maxDeliveryAttempts : ℤ)

/-- `_deliver_to`. -/
def deliverTo (agentId : String) (attempt : ℕ) (s : FanOut) : FanOut :=
  match handlers s.lookups agentId with
  | none =>
    { s with lookups := s.lookups + 1 }.deadLetter
      { reason := "handler_disappeared", attemptCount := attempt }
  | some handler =>
    let (outcome, object) := handler s.object
    let s := s.invoke agentId object
    match outcome with
    | .returned => s
    | .cancelledError => { s with escaped := true }
    | .raised message =>
      if attempt < maxDeliveryAttempts then
        deliverTo agentId (attempt + 1) s
      else
        match message with
        | some message =>
          s.deadLetter
            { reason := "handler_error", errorDetail := message, attemptCount := attempt }
        -- `str(exc)` raises before anything is pushed.
        | none => { s with escaped := true }
termination_by (maxDeliveryAttempts - attempt).toNat

/-- The loop over the targets. -/
def deliverAll : List String → FanOut → FanOut
  | [], s => s
  | agentId :: targets, s =>
    let s := deliverTo handlers maxDeliveryAttempts agentId 1 s
    if s.escaped then s else deliverAll targets s

/-- `_dispatch`, of an envelope that is expired or not, to the targets that were resolved. -/
def dispatch (envelope : MessageEnvelope) (isExpired : Bool) (targets : List String) : FanOut :=
  let s : FanOut := { object := envelope }
  if isExpired then
    s.deadLetter { reason := "ttl_expired_at_dispatch" }
  else if targets = [] then
    s.deadLetter { reason := "no_subscriber" }
  else
    deliverAll handlers maxDeliveryAttempts targets s

/-! ## Isolation -/

/-- Every call of a handler and every dead-letter entry sees the envelope as it was published. -/
def Isolated (envelope : MessageEnvelope) (s : FanOut) : Prop :=
  (∀ c ∈ s.invocations, c.seen = envelope) ∧ ∀ shown ∈ s.deadLettered, shown = envelope

instance (envelope : MessageEnvelope) (s : FanOut) : Decidable (s.Isolated envelope) := by
  unfold Isolated
  infer_instance

/-- A turn of a dispatch: the number of a lookup, its target and attempt, and the targets to follow.
-/
structure Turn where
  lookup : ℕ
  agentId : String
  attempt : ℕ
  rest : List String

namespace Turn

variable (handlers : ℕ → String → Option HandlerCall) (maxDeliveryAttempts : ℤ)
  (envelope : MessageEnvelope) (turn : Turn)

/-- How the handler of a turn ends when it is given the envelope as published, or `none` where there
is no handler. -/
def outcome? : Option HandlerOutcome :=
  (handlers turn.lookup turn.agentId).map fun handler => (handler envelope).1

/-- The handler of a turn alters the envelope that it is given. -/
def Alters : Prop :=
  ∃ handler, handlers turn.lookup turn.agentId = some handler ∧ (handler envelope).2 ≠ envelope

/-- A turn that pushes to the dead-letter queue: there is no handler, or it has raised in the last
attempt an exception that has a text. -/
def DeadLetters : Prop :=
  turn.outcome? handlers envelope = none ∨
    maxDeliveryAttempts ≤ turn.attempt ∧
      ∃ message, turn.outcome? handlers envelope = some (.raised (some message))

/-- A turn that is followed by another attempt. -/
def Retried : Prop :=
  turn.attempt < maxDeliveryAttempts ∧
    ∃ message, turn.outcome? handlers envelope = some (.raised message)

/-- The turn after a turn, when the handler is given the envelope as published. -/
inductive Next : Turn → Prop where
  | retry :
      turn.Retried handlers maxDeliveryAttempts envelope →
      Next ⟨turn.lookup + 1, turn.agentId, turn.attempt + 1, turn.rest⟩
  | target {agentId : String} {rest : List String} :
      turn.outcome? handlers envelope = some .returned ∨
        turn.DeadLetters handlers maxDeliveryAttempts envelope →
      turn.rest = agentId :: rest →
      Next ⟨turn.lookup + 1, agentId, 1, rest⟩

/-- The turns that follow from a first one. -/
def Leads (first : Turn) : Turn → Prop :=
  Relation.ReflTransGen (Next handlers maxDeliveryAttempts envelope) first

/-- No handler alters the envelope, except that of the last turn if no turn pushes to the
dead-letter queue. -/
def Undisturbed (first : Turn) : Prop :=
  ∀ turn, Leads handlers maxDeliveryAttempts envelope first turn →
    turn.Alters handlers envelope →
    (∀ later, ¬ turn.Next handlers maxDeliveryAttempts envelope later) ∧
      ∀ other, Leads handlers maxDeliveryAttempts envelope first other →
        ¬ other.DeadLetters handlers maxDeliveryAttempts envelope

end Turn

variable {handlers : ℕ → String → Option HandlerCall} {maxDeliveryAttempts : ℤ}
  {envelope : MessageEnvelope} {s : FanOut} {agentId : String} {attempt : ℕ} {turn : Turn}

/-! ### The calls are there to stay -/

/-- Delivering adds to the calls of handlers. -/
theorem invocations_deliverTo (s : FanOut) :
    s.invocations <+: (deliverTo handlers maxDeliveryAttempts agentId attempt s).invocations := by
  fun_induction deliverTo handlers maxDeliveryAttempts agentId attempt s with
  | case1 => exact List.prefix_rfl
  | case4 attempt s handler hhandler outcome object s₁ message hlt ih =>
    exact (List.prefix_append _ _).trans ih
  | _ => exact List.prefix_append _ _

/-- Delivering to a registered handler begins with a call of it. -/
theorem invocations_deliverTo_some {handler : HandlerCall}
    (h : handlers s.lookups agentId = some handler) :
    s.invocations ++ [⟨s.lookups, agentId, s.object⟩] <+:
      (deliverTo handlers maxDeliveryAttempts agentId attempt s).invocations := by
  rw [deliverTo, h]
  dsimp only
  split
  · exact List.prefix_rfl
  · exact List.prefix_rfl
  · split_ifs
    · exact invocations_deliverTo (s.invoke agentId (handler s.object).2)
    · split
      · exact List.prefix_rfl
      · exact List.prefix_rfl

/-- Delivering to all targets adds to the calls of handlers. -/
theorem invocations_deliverAll (targets : List String) (s : FanOut) :
    s.invocations <+: (deliverAll handlers maxDeliveryAttempts targets s).invocations := by
  induction targets generalizing s with
  | nil => exact List.prefix_rfl
  | cons agentId targets ih =>
    rw [deliverAll]
    split_ifs
    · exact invocations_deliverTo s
    · exact (invocations_deliverTo s).trans (ih _)

/-! ### One turn after another -/

/-- The attempts from that of a turn on, and the targets that follow. -/
def proceed (handlers : ℕ → String → Option HandlerCall) (maxDeliveryAttempts : ℤ) (turn : Turn)
    (s : FanOut) : FanOut :=
  let s := deliverTo handlers maxDeliveryAttempts turn.agentId turn.attempt s
  if s.escaped then s else deliverAll handlers maxDeliveryAttempts turn.rest s

/-- What one turn does. -/
def play (handlers : ℕ → String → Option HandlerCall) (maxDeliveryAttempts : ℤ) (turn : Turn)
    (s : FanOut) : FanOut :=
  match handlers s.lookups turn.agentId with
  | none =>
    { s with lookups := s.lookups + 1 }.deadLetter
      { reason := "handler_disappeared", attemptCount := turn.attempt }
  | some handler =>
    let (outcome, object) := handler s.object
    let s := s.invoke turn.agentId object
    match outcome with
    | .returned => s
    | .cancelledError => { s with escaped := true }
    | .raised message =>
      if turn.attempt < maxDeliveryAttempts then
        s
      else
        match message with
        | some message =>
          s.deadLetter
            { reason := "handler_error", errorDetail := message, attemptCount := turn.attempt }
        | none => { s with escaped := true }

/-- A dispatch in which every call so far was given the envelope as published, and nothing altered
it. -/
structure Pristine (envelope : MessageEnvelope) (turn : Turn) (s : FanOut) : Prop where
  object : s.object = envelope
  seen : ∀ c ∈ s.invocations, c.seen = envelope
  lookups : s.lookups = turn.lookup
  goesOn : s.escaped = false

namespace Turn

section Outcome

variable (maxDeliveryAttempts)

/-- Whether a turn is retried, when its handler raises. -/
theorem retried_iff {message : Option String}
    (houtcome : turn.outcome? handlers envelope = some (.raised message)) :
    turn.Retried handlers maxDeliveryAttempts envelope ↔ turn.attempt < maxDeliveryAttempts := by
  simp [Retried, houtcome]

/-- A turn whose handler raises pushes in the last attempt, if the exception has a text. -/
theorem deadLetters_iff {message : Option String}
    (houtcome : turn.outcome? handlers envelope = some (.raised message)) :
    turn.DeadLetters handlers maxDeliveryAttempts envelope ↔
      maxDeliveryAttempts ≤ turn.attempt ∧ message ≠ none := by
  simp [DeadLetters, houtcome, Option.ne_none_iff_exists, eq_comm]

/-- A turn whose handler ends in another way is not retried and pushes nothing. -/
theorem quiet_of_outcome {outcome : HandlerOutcome}
    (houtcome : turn.outcome? handlers envelope = some outcome)
    (hraised : ∀ message, outcome ≠ .raised message) :
    ¬ turn.Retried handlers maxDeliveryAttempts envelope ∧
      ¬ turn.DeadLetters handlers maxDeliveryAttempts envelope := by
  simp [Retried, DeadLetters, houtcome, hraised]

end Outcome

end Turn

/-- What a pristine turn leaves: the calls have seen what was published, the object holds it unless
the handler has altered it, nothing is in the dead-letter queue that was not there before unless the
turn has pushed, and the dispatch goes on if the turn is retried, has pushed, or succeeded. -/
structure Played (handlers : ℕ → String → Option HandlerCall) (maxDeliveryAttempts : ℤ)
    (envelope : MessageEnvelope) (turn : Turn) (s t : FanOut) : Prop where
  lookups : t.lookups = turn.lookup + 1
  object : t.object = envelope ↔ ¬ turn.Alters handlers envelope
  seen : ∀ c ∈ t.invocations, c.seen = envelope
  deadLetters : t.deadLetters = [] ↔
    s.deadLetters = [] ∧ ¬ turn.DeadLetters handlers maxDeliveryAttempts envelope
  goesOn : t.escaped = false ↔ turn.Retried handlers maxDeliveryAttempts envelope ∨
    turn.outcome? handlers envelope = some .returned ∨
      turn.DeadLetters handlers maxDeliveryAttempts envelope

/-- One pristine turn, after which the attempts end or the next one is made. -/
theorem Pristine.played (h : Pristine envelope turn s)
    (handlers : ℕ → String → Option HandlerCall) (maxDeliveryAttempts : ℤ) :
    Played handlers maxDeliveryAttempts envelope turn s
        (play handlers maxDeliveryAttempts turn s) ∧
      (turn.Retried handlers maxDeliveryAttempts envelope →
        deliverTo handlers maxDeliveryAttempts turn.agentId turn.attempt s =
          deliverTo handlers maxDeliveryAttempts turn.agentId (turn.attempt + 1)
            (play handlers maxDeliveryAttempts turn s)) ∧
      (¬ turn.Retried handlers maxDeliveryAttempts envelope →
        deliverTo handlers maxDeliveryAttempts turn.agentId turn.attempt s =
          play handlers maxDeliveryAttempts turn s) := by
  obtain ⟨hobject, hseen, hlookups, hgoesOn⟩ := h
  have hnext : s.lookups + 1 = turn.lookup + 1 := by rw [hlookups]
  rw [deliverTo]
  unfold play
  cases hhandler : handlers s.lookups turn.agentId with
  | none =>
    have houtcome : turn.outcome? handlers envelope = none := by
      rw [Turn.outcome?, ← hlookups, hhandler, Option.map_none]
    have halters : ¬ turn.Alters handlers envelope := by
      rintro ⟨handler, hsome, -⟩
      rw [← hlookups, hhandler] at hsome
      cases hsome
    have hpush : turn.DeadLetters handlers maxDeliveryAttempts envelope := .inl houtcome
    refine ⟨⟨hnext, iff_of_true hobject halters, hseen, ?_, ?_⟩, ?_, fun _ => rfl⟩
    · simp [deadLetter, hpush]
    · exact iff_of_true hgoesOn (.inr (.inr hpush))
    · rintro ⟨-, message, hraised⟩
      rw [houtcome] at hraised
      cases hraised
  | some handler =>
    have houtcome : turn.outcome? handlers envelope = some (handler s.object).1 := by
      rw [Turn.outcome?, ← hlookups, hhandler, hobject, Option.map_some]
    have halters : (handler s.object).2 = envelope ↔ ¬ turn.Alters handlers envelope := by
      unfold Turn.Alters
      rw [← hlookups, hhandler, hobject]
      simp
    have hcalls : ∀ c ∈ (s.invoke turn.agentId (handler s.object).2).invocations,
        c.seen = envelope := by
      intro c hc
      rcases List.mem_append.mp hc with hc | hc
      · exact hseen c hc
      · rw [List.mem_singleton.mp hc]
        exact hobject
    dsimp only
    generalize (handler s.object).1 = outcome at houtcome
    cases outcome with
    | returned =>
      obtain ⟨hretried, hquiet⟩ := Turn.quiet_of_outcome maxDeliveryAttempts houtcome
        fun _ => nofun
      refine ⟨⟨hnext, halters, hcalls, ?_, ?_⟩, fun h => absurd h hretried, fun _ => rfl⟩
      · exact (and_iff_left hquiet).symm
      · exact iff_of_true hgoesOn (.inr (.inl houtcome))
    | cancelledError =>
      obtain ⟨hretried, hquiet⟩ := Turn.quiet_of_outcome maxDeliveryAttempts houtcome
        fun _ => nofun
      refine ⟨⟨hnext, halters, hcalls, ?_, ?_⟩, fun h => absurd h hretried, fun _ => rfl⟩
      · exact (and_iff_left hquiet).symm
      · simp [hretried, hquiet, houtcome]
    | raised message =>
      have hretried := Turn.retried_iff maxDeliveryAttempts houtcome
      have hletters := Turn.deadLetters_iff maxDeliveryAttempts houtcome
      dsimp only
      split_ifs with hlt
      · have hquiet : ¬ turn.DeadLetters handlers maxDeliveryAttempts envelope := by
          rw [hletters]
          omega
        refine ⟨⟨hnext, halters, hcalls, ?_, ?_⟩, fun _ => rfl,
          fun h => absurd (hretried.mpr hlt) h⟩
        · exact (and_iff_left hquiet).symm
        · exact iff_of_true hgoesOn (.inl (hretried.mpr hlt))
      · have hlast : ¬ turn.Retried handlers maxDeliveryAttempts envelope :=
          fun h => hlt (hretried.mp h)
        have hge : maxDeliveryAttempts ≤ turn.attempt := not_lt.mp hlt
        cases message with
        | some message =>
          have hpush := hletters.mpr ⟨hge, nofun⟩
          refine ⟨⟨hnext, halters, hcalls, ?_, ?_⟩, fun h => absurd h hlast, fun _ => rfl⟩
          · simp [deadLetter, hpush]
          · exact iff_of_true hgoesOn (.inr (.inr hpush))
        | none =>
          have hquiet : ¬ turn.DeadLetters handlers maxDeliveryAttempts envelope := by
            rw [hletters]
            simp
          refine ⟨⟨hnext, halters, hcalls, ?_, ?_⟩, fun h => absurd h hlast, fun _ => rfl⟩
          · exact (and_iff_left hquiet).symm
          · simp [hlast, hquiet, houtcome]

/-! ### What leaks -/

/-- A call that has not seen what was published is there to stay. -/
theorem not_isolated_of_prefix {calls : List Invocation} {c : Invocation}
    (hcalls : calls ++ [c] <+: s.invocations) (hseen : c.seen ≠ envelope) :
    ¬ s.Isolated envelope :=
  fun hisolated => hseen (hisolated.1 c (hcalls.subset (by simp)))

/-- An altered object shows in the next call, if there is one, and else in what is pushed because
there is no handler. -/
theorem proceed_leaks_of (turn : Turn) (hobject : s.object ≠ envelope) (hgoesOn : s.escaped = false)
    (hrest : ∀ t : FanOut, t.object ≠ envelope → t.escaped = false → t.deadLetters ≠ [] →
      ¬ (deliverAll handlers maxDeliveryAttempts turn.rest t).Isolated envelope) :
    ¬ (proceed handlers maxDeliveryAttempts turn s).Isolated envelope := by
  unfold proceed
  dsimp only
  cases hhandler : handlers s.lookups turn.agentId with
  | none =>
    have hletter : deliverTo handlers maxDeliveryAttempts turn.agentId turn.attempt s =
        { s with lookups := s.lookups + 1 }.deadLetter
          { reason := "handler_disappeared", attemptCount := turn.attempt } := by
      rw [deliverTo, hhandler]
    rw [hletter, if_neg (by simp [deadLetter, hgoesOn])]
    exact hrest _ hobject hgoesOn (by simp [deadLetter])
  | some handler =>
    have hcall : s.invocations ++ [⟨s.lookups, turn.agentId, s.object⟩] <+:
        (deliverTo handlers maxDeliveryAttempts turn.agentId turn.attempt s).invocations :=
      invocations_deliverTo_some hhandler
    split_ifs
    · exact not_isolated_of_prefix hcall hobject
    · exact not_isolated_of_prefix (hcall.trans (invocations_deliverAll turn.rest _)) hobject

/-- An altered object shows in the next call, or in what is dead-lettered. -/
theorem deliverAll_leaks (targets : List String) (hobject : s.object ≠ envelope)
    (hgoesOn : s.escaped = false) (hletters : s.deadLetters ≠ []) :
    ¬ (deliverAll handlers maxDeliveryAttempts targets s).Isolated envelope := by
  induction targets generalizing s with
  | nil =>
    obtain ⟨entry, hentry⟩ := List.exists_mem_of_ne_nil _ hletters
    exact fun hisolated => hobject (hisolated.2 _ (List.mem_map.mpr ⟨entry, hentry, rfl⟩))
  | cons agentId targets ih =>
    exact proceed_leaks_of ⟨s.lookups, agentId, 1, targets⟩ hobject hgoesOn
      fun t hobject hgoesOn hletters => ih hobject hgoesOn hletters

/-- An altered object shows in what follows from any turn. -/
theorem proceed_leaks (turn : Turn) (hobject : s.object ≠ envelope) (hgoesOn : s.escaped = false) :
    ¬ (proceed handlers maxDeliveryAttempts turn s).Isolated envelope :=
  proceed_leaks_of turn hobject hgoesOn fun _ hobject hgoesOn hletters =>
    deliverAll_leaks turn.rest hobject hgoesOn hletters

/-! ### The turns that follow -/

namespace Turn

variable {next next' : Turn}

/-- A turn that is retried neither succeeds nor pushes. -/
theorem Retried.not_done (h : turn.Retried handlers maxDeliveryAttempts envelope) :
    ¬ (turn.outcome? handlers envelope = some .returned ∨
      turn.DeadLetters handlers maxDeliveryAttempts envelope) := by
  obtain ⟨hlt, message, hraised⟩ := h
  rintro (hreturned | hpush)
  · simp [hraised] at hreturned
  · have hge := ((deadLetters_iff _ hraised).mp hpush).1
    omega

/-- At most one turn follows. -/
theorem Next.unique (h : turn.Next handlers maxDeliveryAttempts envelope next)
    (h' : turn.Next handlers maxDeliveryAttempts envelope next') : next = next' := by
  cases h with
  | retry hretried =>
    cases h' with
    | retry => rfl
    | target hdone => exact absurd hdone hretried.not_done
  | target hdone hrest =>
    cases h' with
    | retry hretried => exact absurd hdone hretried.not_done
    | target _ hrest' =>
      obtain ⟨rfl, rfl⟩ := List.cons.inj (hrest.symm.trans hrest')
      rfl

/-- How many turns can follow a turn at most. -/
def weight (maxDeliveryAttempts : ℤ) (turn : Turn) : ℕ :=
  turn.rest.length * (maxDeliveryAttempts.toNat + 1) + (maxDeliveryAttempts - turn.attempt).toNat

/-- Fewer turns can follow the next turn. -/
theorem Next.weight_lt (h : turn.Next handlers maxDeliveryAttempts envelope next) :
    next.weight maxDeliveryAttempts < turn.weight maxDeliveryAttempts := by
  cases h with
  | retry hretried =>
    have hlt := hretried.1
    unfold weight
    push_cast
    omega
  | target _ hrest =>
    unfold weight
    rw [hrest, List.length_cons, Nat.succ_mul]
    push_cast
    omega

/-- What follows from a turn is the turn, and what follows from the next one. -/
theorem leads_iff (h : turn.Next handlers maxDeliveryAttempts envelope next) {later : Turn} :
    turn.Leads handlers maxDeliveryAttempts envelope later ↔
      later = turn ∨ next.Leads handlers maxDeliveryAttempts envelope later := by
  constructor
  · intro hleads
    rcases Relation.ReflTransGen.cases_head hleads with heq | ⟨next', hnext', hlater⟩
    · exact .inl heq.symm
    · exact .inr (h.unique hnext' ▸ hlater)
  · rintro (rfl | hlater)
    · exact .refl
    · exact .head h hlater

/-- From the last turn nothing else follows. -/
theorem leads_iff_of_last (h : ∀ next, ¬ turn.Next handlers maxDeliveryAttempts envelope next)
    {later : Turn} : turn.Leads handlers maxDeliveryAttempts envelope later ↔ later = turn := by
  constructor
  · intro hleads
    rcases Relation.ReflTransGen.cases_head hleads with heq | ⟨next, hnext, -⟩
    · exact heq.symm
    · exact absurd hnext (h next)
  · rintro rfl
    exact .refl

end Turn

/-- What is done from a turn on is what the turn does, and then what is done from the next one on,
if there is one. -/
theorem Pristine.proceed_cases (h : Pristine envelope turn s)
    (handlers : ℕ → String → Option HandlerCall) (maxDeliveryAttempts : ℤ) :
    (∃ next, turn.Next handlers maxDeliveryAttempts envelope next ∧
        (play handlers maxDeliveryAttempts turn s).lookups = next.lookup ∧
        (play handlers maxDeliveryAttempts turn s).escaped = false ∧
        proceed handlers maxDeliveryAttempts turn s =
          proceed handlers maxDeliveryAttempts next (play handlers maxDeliveryAttempts turn s)) ∨
      (∀ next, ¬ turn.Next handlers maxDeliveryAttempts envelope next) ∧
        proceed handlers maxDeliveryAttempts turn s = play handlers maxDeliveryAttempts turn s := by
  obtain ⟨hplayed, hagain, hdone⟩ := h.played handlers maxDeliveryAttempts
  by_cases hretried : turn.Retried handlers maxDeliveryAttempts envelope
  · refine .inl ⟨_, .retry hretried, hplayed.lookups, hplayed.goesOn.mpr (.inl hretried), ?_⟩
    unfold proceed
    rw [hagain hretried]
  · have hproceed : proceed handlers maxDeliveryAttempts turn s =
        if (play handlers maxDeliveryAttempts turn s).escaped then
          play handlers maxDeliveryAttempts turn s
        else
          deliverAll handlers maxDeliveryAttempts turn.rest
            (play handlers maxDeliveryAttempts turn s) := by
      unfold proceed
      rw [hdone hretried]
    have hends := hplayed.goesOn
    cases hescaped : (play handlers maxDeliveryAttempts turn s).escaped with
    | true =>
      refine .inr ⟨fun next hnext => ?_, by rw [hproceed, if_pos hescaped]⟩
      rw [hescaped] at hends
      cases hnext with
      | retry h => exact hretried h
      | target hon => exact absurd (hends.mpr (.inr hon)) (by simp)
    | false =>
      have hon := (hends.mp hescaped).resolve_left hretried
      rw [hproceed, hescaped]
      cases hrest : turn.rest with
      | nil =>
        refine .inr ⟨fun next hnext => ?_, rfl⟩
        cases hnext with
        | retry h => exact hretried h
        | target _ hcons => simp [hrest] at hcons
      | cons agentId rest =>
        exact .inl ⟨_, .target hon hrest, hplayed.lookups, rfl, rfl⟩

/-- What follows from a pristine turn is isolated exactly when no handler alters the envelope except
that of the last turn, if nothing has been or is pushed to the dead-letter queue. -/
theorem Pristine.isolated_iff (h : Pristine envelope turn s)
    (handlers : ℕ → String → Option HandlerCall) (maxDeliveryAttempts : ℤ) :
    (proceed handlers maxDeliveryAttempts turn s).Isolated envelope ↔
      ∀ later, turn.Leads handlers maxDeliveryAttempts envelope later →
        later.Alters handlers envelope →
        (∀ next, ¬ later.Next handlers maxDeliveryAttempts envelope next) ∧ s.deadLetters = [] ∧
          ∀ other, turn.Leads handlers maxDeliveryAttempts envelope other →
            ¬ other.DeadLetters handlers maxDeliveryAttempts envelope := by
  -- Induction on the turns that can follow.
  generalize hn : turn.weight maxDeliveryAttempts = n
  induction n using Nat.strong_induction_on generalizing turn s with
  | h n ih =>
    obtain ⟨hplayed, -, -⟩ := h.played handlers maxDeliveryAttempts
    rcases h.proceed_cases handlers maxDeliveryAttempts with
      ⟨next, hnext, hlookups, hgoesOn, hproceed⟩ | ⟨hlast, hproceed⟩
    · rw [hproceed]
      by_cases halters : turn.Alters handlers envelope
      · -- The next turn shows what this one has altered.
        refine iff_of_false (proceed_leaks next (fun h => hplayed.object.mp h halters) hgoesOn)
          fun hall => ?_
        exact (hall turn .refl halters).1 next hnext
      · have hpristine : Pristine envelope next (play handlers maxDeliveryAttempts turn s) :=
          ⟨hplayed.object.mpr halters, hplayed.seen, hlookups, hgoesOn⟩
        rw [ih _ (hn ▸ hnext.weight_lt) hpristine rfl]
        simp only [hplayed.deadLetters, Turn.leads_iff hnext, forall_eq_or_imp, halters,
          IsEmpty.forall_iff, true_and, and_assoc]
    · -- Only what is dead-lettered can show what the last turn has altered.
      rw [hproceed]
      simp only [Turn.leads_iff_of_last hlast, forall_eq, hlast, not_false_eq_true, implies_true,
        true_and, ← hplayed.deadLetters]
      constructor
      · rintro ⟨-, hshown⟩ halters
        refine by_contra fun hletters => ?_
        obtain ⟨entry, hentry⟩ := List.exists_mem_of_ne_nil _ hletters
        exact hplayed.object.mp (hshown _ (List.mem_map.mpr ⟨entry, hentry, rfl⟩)) halters
      · intro hletters
        refine ⟨hplayed.seen, fun shown hshown => ?_⟩
        obtain ⟨entry, hentry, rfl⟩ := List.mem_map.mp hshown
        refine hplayed.object.mpr fun halters => ?_
        rw [hletters halters] at hentry
        cases hentry

/-- In a dispatch every call of a handler and every dead-letter entry sees the envelope as it was
published exactly when no handler that is called alters the envelope it is given, except that of the
last turn of a dispatch that pushes nothing to the dead-letter queue. -/
theorem fanOut_isolated_iff (handlers : ℕ → String → Option HandlerCall) (maxDeliveryAttempts : ℤ)
    (envelope : MessageEnvelope) (isExpired : Bool) (targets : List String) :
    (dispatch handlers maxDeliveryAttempts envelope isExpired targets).Isolated envelope ↔
      isExpired = true ∨ ∀ agentId rest, targets = agentId :: rest →
        Turn.Undisturbed handlers maxDeliveryAttempts envelope ⟨0, agentId, 1, rest⟩ := by
  have hdeadLetter : ∀ entry, (deadLetter { object := envelope } entry).Isolated envelope :=
    fun entry => ⟨by simp [deadLetter], by simp [deadLetter, deadLettered]⟩
  unfold dispatch
  dsimp only
  split_ifs with hexpired hempty
  · exact iff_of_true (hdeadLetter _) (.inl hexpired)
  · exact iff_of_true (hdeadLetter _) (.inr fun agentId rest h => by simp [hempty] at h)
  · obtain ⟨agentId, rest, rfl⟩ := List.exists_cons_of_ne_nil hempty
    have hstart : Pristine envelope ⟨0, agentId, 1, rest⟩ { object := envelope } :=
      ⟨rfl, by simp, rfl, rfl⟩
    have hiff := hstart.isolated_iff handlers maxDeliveryAttempts
    simp only [true_and] at hiff
    refine hiff.trans ⟨fun h => .inr fun agentId' rest' heq => ?_, fun h => ?_⟩
    · obtain ⟨rfl, rfl⟩ := List.cons.inj heq
      exact h
    · exact h.resolve_left hexpired agentId rest rfl

/-- The first agent's handler is behind the tracing middleware, and the others only read. -/
def tracedFirst (_ : ℕ) (agentId : String) : Option HandlerCall :=
  if agentId = "agent-a" then
    some fun envelope => (.returned, injectTraceContext "svc" "t1" "s1" "1" "0" envelope)
  else
    some fun envelope => (.returned, envelope)

/-- An announcement to all agents. -/
def announcement : MessageEnvelope :=
  { sender := "agent-c", receiver := "*", messageId := "m1", createdAt := 0 }

/-- The second agent sees the trace context of the first. -/
theorem traced_leaks :
    ((dispatch tracedFirst 3 announcement false ["agent-a", "agent-b"]).invocations.map fun c =>
        (c.agentId, c.seen.traceId)) = [("agent-a", ""), ("agent-b", "t1")] ∧
      ¬ (dispatch tracedFirst 3 announcement false ["agent-a", "agent-b"]).Isolated
        announcement := by
  have hrun : (dispatch tracedFirst 3 announcement false ["agent-a", "agent-b"]).invocations =
      [⟨0, "agent-a", announcement⟩,
        ⟨1, "agent-b", injectTraceContext "svc" "t1" "s1" "1" "0" announcement⟩] := by
    simp [dispatch, deliverAll, deliverTo, tracedFirst, invoke]
  rw [hrun]
  refine ⟨by decide, ?_⟩
  rintro ⟨hseen, -⟩
  rw [hrun] at hseen
  exact absurd (hseen _ (List.mem_cons_of_mem _ List.mem_cons_self)) (by decide)

end FanOut

end MeshRouter.Broker
