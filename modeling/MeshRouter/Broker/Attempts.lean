import MeshRouter.Broker.Drain
import MeshRouter.Broker.Items
import MeshRouter.Lib.Observed

/-!
# How often a message is dispatched

What is observed of a worker is each call of a handler, each such call that returns, and each push
to the dead-letter queue, with the sequence number of the message and the target. `Dispatching` is
the protocol of one dispatch: it says in which order a worker makes these, and
`workerStep_dispatching` is the simulation, that a step of a worker is one of the protocol. The
protocol alone then decides what a worker may have done so far at each place (`Progress`), and with
no item in two places (`OneHand`) what one worker does is not mixed with what another does.

So in every run, with any number of workers, restarts and cancellations, the handler of a target is
called with a message in the attempts 1, 2, …, and no more often than is allowed
(`attempts_in_order`).
-/

namespace MeshRouter.Broker

open Lib Messages

/-- What is done with a message. -/
inductive Occurrence where
  /-- The handler is called. -/
  | called (attempt : ℕ)
  /-- The handler returns. -/
  | returned
  /-- The message is pushed to the dead-letter queue. -/
  | deadLettered
deriving DecidableEq

/-- What is done with a message for one of its targets, or for none in particular. -/
structure DispatchEvent where
  sequence : ℕ
  target : Option String
  occurrence : Occurrence
deriving DecidableEq

/-- What is observed of a step of a worker. -/
def workerEvents (now : ℚ) (s : Shared) : Worker → WorkerMove → List DispatchEvent
  | .dispatching item, .dispatch =>
    if item.envelope.isExpired now then [⟨item.sequence, none, .deadLettered⟩] else []
  | .resolving item, .resolve targets =>
    if targets = [] then [⟨item.sequence, none, .deadLettered⟩] else []
  | .delivering item target attempt _, .deliver =>
    match s.broker.agentHandlers.get? target with
    | none => [⟨item.sequence, some target, .deadLettered⟩]
    | some _ => [⟨item.sequence, some target, .called attempt⟩]
  | .handling item target _ _, .handle .returned => [⟨item.sequence, some target, .returned⟩]
  | .handling item target attempt _, .handle (.raised message) =>
    if (attempt : ℤ) < s.broker.maxDeliveryAttempts then
      []
    else
      match message with
      | some _ => [⟨item.sequence, some target, .deadLettered⟩]
      | none => []
  | _, _ => []

/-- What is observed of a step of the system. -/
def brokerEvents (s : BrokerSystem) : BrokerAction → List DispatchEvent
  | .work worker move =>
    match s.workers[worker]? with
    | none => []
    | some phase => workerEvents s.now s.shared phase move
  | _ => []

/-- What was done with a message for a target. -/
def eventsOf (sequence : ℕ) (target : Option String) (past : List DispatchEvent) :
    List Occurrence :=
  past.filterMap fun e =>
    if e.sequence = sequence ∧ e.target = target then some e.occurrence else none

/-- The calls of the attempts 1 to `made`. -/
def calls (made : ℕ) : List Occurrence := (List.range made).map fun i => .called (i + 1)

/-- How a delivery can end: not yet, with a handler that returned, or in the dead-letter queue. -/
def endings : List (List Occurrence) := [[], [.returned], [.deadLettered]]

section Events

variable {n m : ℕ} {target target' : Option String} {past : List DispatchEvent} {o : Occurrence}

/-- What is done for the target comes after what was done for it. -/
theorem eventsOf_concat_self :
    eventsOf n target (past ++ [⟨n, target, o⟩]) = eventsOf n target past ++ [o] := by
  simp [eventsOf]

/-- What is done for another target, or with another message, does not count. -/
theorem eventsOf_concat_other (h : m ≠ n ∨ target' ≠ target) :
    eventsOf n target (past ++ [⟨m, target', o⟩]) = eventsOf n target past := by
  have hnot : ¬ (m = n ∧ target' = target) := fun heq =>
    h.elim (fun hne => hne heq.1) (fun hne => hne heq.2)
  simp [eventsOf, hnot]

/-- One more attempt. -/
theorem calls_succ (made : ℕ) : calls made ++ [.called (made + 1)] = calls (made + 1) := by
  simp [calls, List.range_succ]

end Events

/-! ## The protocol of a dispatch -/

/-- Where a worker is after the last call for a target. -/
def Worker.after (item : QueueItem) : List String → Worker
  | [] => .polling
  | target :: rest => .delivering item target 1 rest

/-- A step of the protocol, with what is observed of it. -/
inductive Dispatching (maxAttempts : ℤ) : Worker → List DispatchEvent → Worker → Prop where
  | idle {phase phase' : Worker} (hphase : phase.item = none) (hphase' : phase'.item = none) :
      Dispatching maxAttempts phase [] phase'
  | take {item : QueueItem} : Dispatching maxAttempts .waiting [] (.dispatching item)
  | expired {item : QueueItem} : Dispatching maxAttempts (.dispatching item)
      [⟨item.sequence, none, .deadLettered⟩] .polling
  | dispatch {item : QueueItem} : Dispatching maxAttempts (.dispatching item) [] (.resolving item)
  | noSubscriber {item : QueueItem} : Dispatching maxAttempts (.resolving item)
      [⟨item.sequence, none, .deadLettered⟩] .polling
  | resolve {item : QueueItem} {target : String} {rest : List String}
      (hnodup : (target :: rest).Nodup) :
      Dispatching maxAttempts (.resolving item) [] (.delivering item target 1 rest)
  | disappeared {item : QueueItem} {target : String} {attempt : ℕ} {rest : List String} :
      Dispatching maxAttempts (.delivering item target attempt rest)
        [⟨item.sequence, some target, .deadLettered⟩] (.after item rest)
  | deliver {item : QueueItem} {target : String} {attempt : ℕ} {rest : List String} :
      Dispatching maxAttempts (.delivering item target attempt rest)
        [⟨item.sequence, some target, .called attempt⟩] (.handling item target attempt rest)
  | returned {item : QueueItem} {target : String} {attempt : ℕ} {rest : List String} :
      Dispatching maxAttempts (.handling item target attempt rest)
        [⟨item.sequence, some target, .returned⟩] (.after item rest)
  | retry {item : QueueItem} {target : String} {attempt : ℕ} {rest : List String}
      (hattempt : (attempt : ℤ) < maxAttempts) :
      Dispatching maxAttempts (.handling item target attempt rest) []
        (.backoff item target attempt rest)
  | exhausted {item : QueueItem} {target : String} {attempt : ℕ} {rest : List String} :
      Dispatching maxAttempts (.handling item target attempt rest)
        [⟨item.sequence, some target, .deadLettered⟩] (.after item rest)
  | abandoned {item : QueueItem} {target : String} {attempt : ℕ} {rest : List String}
      {phase' : Worker} (hphase' : phase'.item = none) :
      Dispatching maxAttempts (.handling item target attempt rest) [] phase'
  | resume {item : QueueItem} {target : String} {attempt : ℕ} {rest : List String} :
      Dispatching maxAttempts (.backoff item target attempt rest) []
        (.delivering item target (attempt + 1) rest)

/-- After a target, a worker of the code is where the protocol has it. -/
theorem next_eq_after (s : Shared) (item : QueueItem) (rest : List String) :
    (s.next item rest).2 = .after item rest := by
  cases rest with
  | nil => rfl
  | cons => rfl

/-- The messages of which a handler was called, once for each call. -/
def calledNumbers (events : List DispatchEvent) : List ℕ :=
  events.filterMap fun e =>
    match e.occurrence with
    | .called _ => some e.sequence
    | .returned | .deadLettered => none

/-- The messages that were pushed to the dead-letter queue, once for each push. -/
def deadLetteredNumbers (events : List DispatchEvent) : List ℕ :=
  events.filterMap fun e =>
    match e.occurrence with
    | .called _ | .returned => none
    | .deadLettered => some e.sequence

/-- The ledger has written down what was observed of a step. -/
structure Written (s s' : Shared) (events : List DispatchEvent) : Prop where
  called : s'.ledger.handedNumbers = s.ledger.handedNumbers ++ calledNumbers events
  deadLettered : s'.ledger.deadNumbers = s.ledger.deadNumbers ++ deadLetteredNumbers events

/-- Nothing was observed that is written, and nothing was written. -/
theorem Written.nothing {s s' : Shared} {events : List DispatchEvent} (h : s'.ledger = s.ledger)
    (hcalled : calledNumbers events = []) (hdead : deadLetteredNumbers events = []) :
    Written s s' events := by
  constructor
  · rw [h, hcalled, List.append_nil]
  · rw [h, hdead, List.append_nil]

/-- A call is written down. -/
theorem written_hand (s : Shared) (item : QueueItem) (target : Option String) (attempt : ℕ) :
    Written s (s.hand item.receipt) [⟨item.sequence, target, .called attempt⟩] :=
  ⟨List.filterMap_append, (List.append_nil _).symm⟩

/-- A push to the dead-letter queue is written down. -/
theorem written_deadLetter {s s' : Shared} {item : QueueItem} (target : Option String)
    (h : s'.ledger = { s.ledger with deadLettered := s.ledger.deadLettered ++ [item.receipt] }) :
    Written s s' [⟨item.sequence, target, .deadLettered⟩] := by
  constructor
  · rw [h]
    exact (List.append_nil _).symm
  · rw [h]
    exact List.filterMap_append

/-- A step of a worker is a step of the protocol, and the ledger writes it down. -/
theorem workerStep_dispatching {now : ℚ} {s s' : Shared} {phase phase' : Worker} {move : WorkerMove}
    (h : workerStep now s phase move = some (s', phase')) :
    Dispatching s.broker.maxDeliveryAttempts phase (workerEvents now s phase move) phase' ∧
      Written s s' (workerEvents now s phase move) := by
  unfold workerStep at h
  split at h
  · -- The test of the flag.
    obtain ⟨rfl, rfl⟩ := Prod.mk.inj (Option.some.inj h)
    split_ifs
    · exact ⟨.idle rfl rfl, .nothing rfl rfl rfl⟩
    · exact ⟨.idle rfl rfl, .nothing rfl rfl rfl⟩
  · -- A turn of `get`.
    split at h
    · cases h
    · obtain ⟨rfl, rfl⟩ := Prod.mk.inj (Option.some.inj h)
      exact ⟨.idle rfl rfl, .nothing rfl rfl rfl⟩
    · obtain ⟨rfl, rfl⟩ := Prod.mk.inj (Option.some.inj h)
      exact ⟨.take, .nothing rfl rfl rfl⟩
  · obtain ⟨rfl, rfl⟩ := Prod.mk.inj (Option.some.inj h)
    exact ⟨.idle rfl rfl, .nothing rfl rfl rfl⟩
  · -- The check of the time to live.
    split_ifs at h with hexpired
    · obtain ⟨rfl, rfl⟩ := Prod.mk.inj (Option.some.inj h)
      rw [workerEvents, if_pos hexpired]
      exact ⟨.expired, written_deadLetter none rfl⟩
    · obtain ⟨rfl, rfl⟩ := Prod.mk.inj (Option.some.inj h)
      rw [workerEvents, if_neg hexpired]
      exact ⟨.dispatch, .nothing rfl rfl rfl⟩
  · -- The targets, which are all different.
    split_ifs at h with htargets
    split at h
    · obtain ⟨rfl, rfl⟩ := Prod.mk.inj (Option.some.inj h)
      exact ⟨.noSubscriber, written_deadLetter none rfl⟩
    · obtain ⟨rfl, rfl⟩ := Prod.mk.inj (Option.some.inj h)
      rw [workerEvents, if_neg (List.cons_ne_nil _ _)]
      exact ⟨.resolve htargets.1, .nothing rfl rfl rfl⟩
  · split at h
    · rename_i hhandler
      have hnext := Option.some.inj h
      obtain rfl := (next_eq_after _ _ _).symm.trans (congrArg Prod.snd hnext)
      obtain rfl := congrArg Prod.fst hnext
      simp only [workerEvents, hhandler]
      exact ⟨.disappeared, written_deadLetter _ Shared.ledger_next⟩
    · rename_i hhandler
      obtain ⟨rfl, rfl⟩ := Prod.mk.inj (Option.some.inj h)
      simp only [workerEvents, hhandler]
      exact ⟨.deliver, written_hand _ _ _ _⟩
  · -- The end of a handler.
    split at h
    · have hnext := Option.some.inj h
      obtain rfl := (next_eq_after _ _ _).symm.trans (congrArg Prod.snd hnext)
      obtain rfl := congrArg Prod.fst hnext
      exact ⟨.returned, .nothing Shared.ledger_next rfl rfl⟩
    · split_ifs at h with hattempt
      · obtain ⟨rfl, rfl⟩ := Prod.mk.inj (Option.some.inj h)
        simp only [workerEvents, if_pos hattempt]
        exact ⟨.retry hattempt, .nothing rfl rfl rfl⟩
      · simp only [workerEvents, if_neg hattempt]
        split at h
        · have hnext := Option.some.inj h
          obtain rfl := (next_eq_after _ _ _).symm.trans (congrArg Prod.snd hnext)
          obtain rfl := congrArg Prod.fst hnext
          exact ⟨.exhausted, written_deadLetter _ Shared.ledger_next⟩
        · obtain ⟨rfl, rfl⟩ := Prod.mk.inj (Option.some.inj h)
          exact ⟨.abandoned rfl, .nothing rfl rfl rfl⟩
    · obtain ⟨rfl, rfl⟩ := Prod.mk.inj (Option.some.inj h)
      exact ⟨.abandoned rfl, .nothing rfl rfl rfl⟩
  · obtain ⟨rfl, rfl⟩ := Prod.mk.inj (Option.some.inj h)
    exact ⟨.resume, .nothing rfl rfl rfl⟩
  · cases h

/-! ## How far a worker has come -/

section Progress

variable {maxAttempts : ℤ} {past events : List DispatchEvent} {phase phase' : Worker}
  {item : QueueItem} {target : String} {made : ℕ} {rest : List String} {n : ℕ}

/-- `made` calls were made for the target, and none yet for the targets that follow. -/
structure Ongoing (maxAttempts : ℤ) (past : List DispatchEvent) (item : QueueItem) (target : String)
    (made : ℕ) (rest : List String) : Prop where
  made_le : (made : ℤ) ≤ max 1 maxAttempts
  calls_eq : eventsOf item.sequence (some target) past = calls made
  whole : eventsOf item.sequence none past = []
  nodup : (target :: rest).Nodup
  untouched : ∀ other ∈ rest, eventsOf item.sequence (some other) past = []

/-- What has been done with the item of a worker, by the place where the worker is. -/
def Progress (maxAttempts : ℤ) (past : List DispatchEvent) : Worker → Prop
  | .dispatching item | .resolving item => ∀ target, eventsOf item.sequence target past = []
  | .delivering item target attempt rest =>
    ∃ made, attempt = made + 1 ∧ ((made + 1 : ℕ) : ℤ) ≤ max 1 maxAttempts ∧
      Ongoing maxAttempts past item target made rest
  | .handling item target attempt rest => Ongoing maxAttempts past item target attempt rest
  | .backoff item target attempt rest =>
    (attempt : ℤ) < maxAttempts ∧ Ongoing maxAttempts past item target attempt rest
  | .polling | .waiting | .left => True

/-- What may have been done with any message: for each target the attempts in order, no more than
allowed, and one ending, or the one push to the dead-letter queue without an attempt for any target.
-/
structure Legal (maxAttempts : ℤ) (past : List DispatchEvent) : Prop where
  target : ∀ n target, ∃ made : ℕ, (made : ℤ) ≤ max 1 maxAttempts ∧
    ∃ ending ∈ endings, eventsOf n (some target) past = calls made ++ ending
  whole : ∀ n, eventsOf n none past = [] ∨
    eventsOf n none past = [.deadLettered] ∧ ∀ target, eventsOf n (some target) past = []

/-- Before the next target there is nothing for it. -/
theorem progress_after (hwhole : eventsOf item.sequence none past = []) (hnodup : rest.Nodup)
    (huntouched : ∀ other ∈ rest, eventsOf item.sequence (some other) past = []) :
    Progress maxAttempts past (.after item rest) := by
  cases rest with
  | nil => trivial
  | cons next rest =>
    refine ⟨0, rfl, le_max_left _ _, ?_, huntouched next List.mem_cons_self, hwhole, hnodup,
      fun other hother => huntouched other (List.mem_cons_of_mem _ hother)⟩
    exact Int.natCast_zero.le.trans (zero_le_one.trans (le_max_left _ _))

/-- A legal event for one target. -/
theorem Legal.concat {o : Occurrence} (h : Legal maxAttempts past)
    (hwhole : eventsOf n none past = [])
    (htarget : ∃ made : ℕ, (made : ℤ) ≤ max 1 maxAttempts ∧
      ∃ ending ∈ endings, eventsOf n (some target) past ++ [o] = calls made ++ ending) :
    Legal maxAttempts (past ++ [⟨n, some target, o⟩]) := by
  constructor
  · intro m other
    by_cases hsame : n = m ∧ target = other
    · obtain ⟨rfl, rfl⟩ := hsame
      rw [eventsOf_concat_self]
      exact htarget
    · rw [eventsOf_concat_other (by simpa [imp_iff_not_or] using hsame)]
      exact h.target m other
  · intro m
    rw [eventsOf_concat_other (Or.inr (Option.some_ne_none target))]
    by_cases hsame : n = m
    · exact Or.inl (hsame ▸ hwhole)
    · refine (h.whole m).imp_right fun hdead => ⟨hdead.1, fun other => ?_⟩
      rw [eventsOf_concat_other (Or.inl hsame)]
      exact hdead.2 other

/-- A message with which nothing was done may be pushed to the dead-letter queue. -/
theorem Legal.reject (h : Legal maxAttempts past) (hnone : ∀ target, eventsOf n target past = []) :
    Legal maxAttempts (past ++ [⟨n, none, .deadLettered⟩]) := by
  constructor
  · intro m other
    rw [eventsOf_concat_other (Or.inr (Option.some_ne_none other).symm)]
    exact h.target m other
  · intro m
    by_cases hsame : n = m
    · subst hsame
      refine Or.inr ⟨?_, fun other => ?_⟩
      · rw [eventsOf_concat_self, hnone]
        rfl
      · rw [eventsOf_concat_other (Or.inr (Option.some_ne_none other).symm)]
        exact hnone _
    · rw [eventsOf_concat_other (Or.inl hsame)]
      refine (h.whole m).imp_right fun hdead => ⟨hdead.1, fun other => ?_⟩
      rw [eventsOf_concat_other (Or.inl hsame)]
      exact hdead.2 other

/-- A step of the protocol is observed only of the item that the worker dispatches. -/
theorem dispatching_events (h : Dispatching maxAttempts phase events phase') :
    ∀ e ∈ events, ∃ item, phase.item = some item ∧ e.sequence = item.sequence := by
  intro e he
  cases h with
  | expired | noSubscriber | disappeared | deliver | returned | exhausted =>
    obtain rfl := List.mem_singleton.mp he
    exact ⟨_, rfl, rfl⟩
  | _ => cases he

/-- The delivery to a target ends after the attempts. -/
theorem Ongoing.finish {o : Occurrence} (h : Ongoing maxAttempts past item target made rest)
    (hlegal : Legal maxAttempts past) (ho : [o] ∈ endings) :
    Progress maxAttempts (past ++ [⟨item.sequence, some target, o⟩]) (.after item rest) ∧
      Legal maxAttempts (past ++ [⟨item.sequence, some target, o⟩]) := by
  obtain ⟨hmade, hcalls, hwhole, hnodup, huntouched⟩ := h
  obtain ⟨htarget, hnodup⟩ := List.nodup_cons.mp hnodup
  constructor
  · refine progress_after ?_ hnodup fun other hother => ?_
    · rw [eventsOf_concat_other (Or.inr (Option.some_ne_none target)), hwhole]
    · have hne : some target ≠ some other := fun heq => htarget (Option.some.inj heq ▸ hother)
      rw [eventsOf_concat_other (Or.inr hne)]
      exact huntouched other hother
  · exact hlegal.concat hwhole ⟨made, hmade, [o], ho, by rw [hcalls]⟩

/-- A step of the protocol keeps to what may be done. -/
theorem dispatching_progress (h : Dispatching maxAttempts phase events phase')
    (hfresh : ∀ item ∈ phase'.item, phase.item = none →
      ∀ target, eventsOf item.sequence target past = [])
    (hprogress : Progress maxAttempts past phase) (hlegal : Legal maxAttempts past) :
    Progress maxAttempts (past ++ events) phase' ∧ Legal maxAttempts (past ++ events) := by
  cases h with
  | idle _ hphase' | abandoned hphase' =>
    rw [List.append_nil]
    refine ⟨?_, hlegal⟩
    cases phase' with
    | polling | waiting | left => trivial
    | _ => cases hphase'
  | take =>
    rw [List.append_nil]
    exact ⟨hfresh _ rfl rfl, hlegal⟩
  | expired => exact ⟨trivial, hlegal.reject hprogress⟩
  | dispatch =>
    rw [List.append_nil]
    exact ⟨hprogress, hlegal⟩
  | noSubscriber => exact ⟨trivial, hlegal.reject hprogress⟩
  | resolve hnodup =>
    rw [List.append_nil]
    exact ⟨progress_after (hprogress none) hnodup fun other _ => hprogress (some other), hlegal⟩
  | disappeared =>
    obtain ⟨made, -, -, hongoing⟩ := hprogress
    exact hongoing.finish hlegal (by simp [endings])
  | @deliver item target attempt rest =>
    -- The one step that makes a call: it is the next attempt, which was allowed.
    obtain ⟨made, rfl, hallowed, hongoing⟩ := hprogress
    obtain ⟨-, hcalls, hwhole, hnodup, huntouched⟩ := hongoing
    have hnext := calls_succ made
    refine ⟨⟨hallowed, ?_, ?_, hnodup, fun other hother => ?_⟩, ?_⟩
    · rw [eventsOf_concat_self, hcalls, hnext]
    · rw [eventsOf_concat_other (Or.inr (Option.some_ne_none _)), hwhole]
    · have hne : some target ≠ some other := fun heq =>
        (List.nodup_cons.mp hnodup).1 (Option.some.inj heq ▸ hother)
      rw [eventsOf_concat_other (Or.inr hne)]
      exact huntouched other hother
    · exact hlegal.concat hwhole ⟨made + 1, hallowed, [], by simp [endings],
        by rw [hcalls, hnext, List.append_nil]⟩
  | returned => exact hprogress.finish hlegal (by simp [endings])
  | retry hattempt =>
    rw [List.append_nil]
    exact ⟨⟨hattempt, hprogress⟩, hlegal⟩
  | exhausted => exact hprogress.finish hlegal (by simp [endings])
  | resume =>
    obtain ⟨hattempt, hongoing⟩ := hprogress
    rw [List.append_nil]
    exact ⟨⟨_, rfl, by omega, hongoing⟩, hlegal⟩

/-- What is done with the items of others leaves the progress of a worker as it was. -/
theorem Progress.frame (h : Progress maxAttempts past phase)
    (hother : ∀ e ∈ events, ∀ item ∈ phase.item, e.sequence ≠ item.sequence) :
    Progress maxAttempts (past ++ events) phase := by
  have hkeep : ∀ item ∈ phase.item, ∀ target,
      eventsOf item.sequence target (past ++ events) = eventsOf item.sequence target past := by
    intro item hitem target
    have hnone : eventsOf item.sequence target events = [] := by
      refine List.filterMap_eq_nil_iff.mpr fun e he => ?_
      rw [if_neg fun hsame => hother e he item hitem hsame.1]
    rw [eventsOf, List.filterMap_append]
    exact (congrArg _ hnone).trans (List.append_nil _)
  have hongoing : ∀ {item : QueueItem} {target : String} {made : ℕ} {rest : List String},
      item ∈ phase.item → Ongoing maxAttempts past item target made rest →
      Ongoing maxAttempts (past ++ events) item target made rest := by
    intro item target made rest hitem ⟨hmade, hcalls, hwhole, hnodup, huntouched⟩
    refine ⟨hmade, (hkeep item hitem _).trans hcalls, (hkeep item hitem _).trans hwhole, hnodup,
      fun other hmem => (hkeep item hitem _).trans (huntouched other hmem)⟩
  cases phase with
  | polling | waiting | left => trivial
  | dispatching | resolving => exact fun target => (hkeep _ rfl target).trans (h target)
  | delivering =>
    obtain ⟨made, hattempt, hallowed, hmade⟩ := h
    exact ⟨made, hattempt, hallowed, hongoing rfl hmade⟩
  | handling => exact hongoing rfl h
  | backoff => exact ⟨h.1, hongoing rfl h.2⟩

end Progress

/-! ## Every run -/

section Run

variable {maxAttempts : ℤ} {past : List DispatchEvent} {s t : BrokerSystem} {a : BrokerAction}

/-- The past of a system is legal, and each worker is where its own past says. -/
structure Orderly (maxAttempts : ℤ) (past : List DispatchEvent) (s : BrokerSystem) : Prop where
  oneHand : OneHand s
  maxDeliveryAttempts : s.broker.maxDeliveryAttempts = maxAttempts
  /-- With what is queued or waits nothing has been done. -/
  taken : ∀ e ∈ past, e.sequence < s.sequence ∧ e.sequence ∉ s.waiting
  legal : Legal maxAttempts past
  progress : ∀ phase ∈ s.workers, Progress maxAttempts past phase
  handed : s.shared.ledger.handedNumbers = calledNumbers past
  dead : s.shared.ledger.deadNumbers = deadLetteredNumbers past

/-- With what no event is about nothing was done. -/
theorem eventsOf_eq_nil {n : ℕ} (h : ∀ e ∈ past, e.sequence ≠ n) (target : Option String) :
    eventsOf n target past = [] :=
  List.filterMap_eq_nil_iff.mpr fun e he => if_neg fun hsame => h e he hsame.1

/-- A step of a caller is observed by nobody. -/
theorem Orderly.arrives (h : Orderly maxAttempts past s) (harrives : Arrives s t) :
    Orderly maxAttempts past t := by
  have hhand := h.oneHand.arrives harrives
  obtain ⟨⟨n, hworkers⟩, hattempts, hnumbers, -, hhanded, hdead⟩ := harrives
  refine ⟨hhand, hattempts.trans h.maxDeliveryAttempts, fun e he => ?_, h.legal,
    fun phase hphase => ?_, hhanded.trans h.handed, hdead.trans h.dead⟩
  · obtain ⟨hlt, hnot⟩ := h.taken e he
    rcases hnumbers with ⟨hperm, hle⟩ | ⟨hperm, hnext⟩
    · exact ⟨hlt.trans_le hle, fun hmem => hnot (hperm.mem_iff.mp hmem)⟩
    · refine ⟨by omega, fun hmem => ?_⟩
      rcases List.mem_cons.mp (hperm.mem_iff.mp hmem) with heq | hmem
      · omega
      · exact hnot hmem
  · rw [hworkers] at hphase
    rcases List.mem_append.mp hphase with hphase | hphase
    · exact h.progress phase hphase
    · rw [List.eq_of_mem_replicate hphase]
      trivial

/-- A step of a worker adds to the past what is observed of it. -/
theorem Orderly.work (h : Orderly maxAttempts past s) {worker : ℕ} {move : WorkerMove}
    (hstep : s.step (.work worker move) = some t) :
    Orderly maxAttempts (past ++ brokerEvents s (.work worker move)) t := by
  have hhand := h.oneHand.step hstep
  obtain ⟨phase, shared, phase', hphase, hwork, rfl⟩ := step_work hstep
  have hmem : phase ∈ s.workers := List.mem_of_getElem? hphase
  have hevents : brokerEvents s (.work worker move) =
      workerEvents s.now s.shared phase move := by
    simp only [brokerEvents, hphase]
  obtain ⟨hdispatching, hwritten⟩ := workerStep_dispatching hwork
  obtain ⟨hsequence, hattempts, hitems⟩ := workerStep_item hwork
  have hmax : s.shared.broker.maxDeliveryAttempts = maxAttempts := h.maxDeliveryAttempts
  rw [hmax] at hdispatching
  rw [hevents]
  -- What is taken was queued, so that nothing was done with it.
  have hfresh : ∀ item ∈ phase'.item, phase.item = none →
      ∀ target, eventsOf item.sequence target past = [] := by
    intro item hitem hnone
    rcases hitems with ⟨-, hsame⟩ | ⟨first, hqueued, -, htaken⟩
    · rw [hnone, or_self] at hsame
      rw [hsame] at hitem
      cases hitem
    · have hfirst : phase'.item = some first := htaken.resolve_right fun hempty => by
        rw [hempty] at hitem
        cases hitem
      obtain rfl := Option.some.inj (hfirst.symm.trans hitem)
      have hwaiting : first.sequence ∈ s.waiting := by
        refine List.mem_map_of_mem (List.mem_append_left _ ?_)
        have hfirst : first ∈ s.shared.broker.queue.items := hqueued ▸ List.mem_cons_self
        exact hfirst
      exact eventsOf_eq_nil fun e he heq => (h.taken e he).2 (heq ▸ hwaiting)
  obtain ⟨hprogress, hlegal⟩ :=
    dispatching_progress hdispatching hfresh (h.progress phase hmem) h.legal
  -- The new events are about the item of this worker.
  have hown := dispatching_events hdispatching
  refine ⟨hhand, hattempts.trans hmax, fun e he => ?_, hlegal, fun p hp => ?_, ?_, ?_⟩
  · have hsub : ∀ n ∈ BrokerSystem.waiting
        { s with shared := shared, workers := s.workers.set worker phase' }, n ∈ s.waiting := by
      intro n hn
      obtain ⟨item, hitem, rfl⟩ := List.mem_map.mp hn
      refine List.mem_map_of_mem ?_
      rcases List.mem_append.mp hitem with hitem | hitem
      · exact List.mem_append_left _ (workerStep_items_subset hwork hitem)
      · exact List.mem_append_right _ hitem
    have hlater : e.sequence < s.sequence ∧ e.sequence ∉ s.waiting := by
      rcases List.mem_append.mp he with he | he
      · exact h.taken e he
      · obtain ⟨item, hitem, heq⟩ := hown e he
        rw [heq]
        exact h.oneHand.carried phase hmem item hitem
    exact ⟨hlater.1.trans_eq hsequence.symm, fun hn => hlater.2 (hsub _ hn)⟩
  · obtain ⟨w, hw⟩ := List.mem_iff_getElem?.mp hp
    dsimp only at hw
    rw [List.getElem?_set] at hw
    split_ifs at hw with hself
    · obtain rfl := Option.some.inj hw
      exact hprogress
    · -- Another worker dispatches another item.
      refine (h.progress p (List.mem_of_getElem? hw)).frame fun e he item hitem heq => ?_
      obtain ⟨own, hitem', heq'⟩ := hown e he
      exact hself (h.oneHand.single worker w phase p own item hphase hw hitem' hitem
        (heq'.symm.trans heq))
  · rw [calledNumbers, List.filterMap_append]
    exact hwritten.called.trans (congrArg (· ++ _) h.handed)
  · rw [deadLetteredNumbers, List.filterMap_append]
    exact hwritten.deadLettered.trans (congrArg (· ++ _) h.dead)

/-- A cancelled worker does no more with its item. -/
theorem Orderly.cancel (h : Orderly maxAttempts past s) {worker : ℕ}
    (hstep : s.step (.cancel worker) = some t) : Orderly maxAttempts past t := by
  have hhand := h.oneHand.step hstep
  obtain ⟨phase, hphase, -, rfl⟩ := step_cancel hstep
  refine ⟨hhand, h.maxDeliveryAttempts, h.taken, h.legal, fun p hp => ?_, h.handed, h.dead⟩
  rcases List.mem_or_eq_of_mem_set hp with hp | rfl
  · exact h.progress p hp
  · trivial

/-- Every step keeps the past legal. -/
theorem Orderly.step (h : Orderly maxAttempts past s) (hstep : s.step a = some t) :
    Orderly maxAttempts (past ++ brokerEvents s a) t := by
  cases a with
  | work worker move => exact h.work hstep
  | cancel worker =>
    change Orderly maxAttempts (past ++ []) t
    rw [List.append_nil]
    exact h.cancel hstep
  | _ =>
    -- The other steps are observed by nobody.
    change Orderly maxAttempts (past ++ []) t
    rw [List.append_nil]
    exact h.arrives (step_arrives rfl hstep)

/-- Nothing has been done yet by a new broker. -/
theorem Orderly.init {queueMaxsize dlqMaxsize maxDeliveryAttempts dispatchWorkers : ℤ}
    {discardExpired : Bool} {broker : MessageBroker}
    (hinit : MessageBroker.init queueMaxsize dlqMaxsize maxDeliveryAttempts dispatchWorkers
      discardExpired = .ok broker) (now : ℚ) :
    Orderly maxDeliveryAttempts [] (.init broker now) := by
  unfold MessageBroker.init DeadLetterQueue.init at hinit
  split_ifs at hinit
  obtain rfl := Except.ok.inj hinit
  refine ⟨.init rfl now, rfl, fun e he => (by cases he),
    ⟨fun n target => ⟨0, ?_, [], List.mem_cons_self, rfl⟩, fun n => Or.inl rfl⟩,
    fun phase hphase => (by cases hphase), rfl, rfl⟩
  exact Int.natCast_zero.le.trans (zero_le_one.trans (le_max_left _ _))

/-- In every run of a broker, with any number of workers, restarts and cancellations: the handler of
a target is called with a message in the attempts 1, 2, …, in this order and each once, no more
often than `max_delivery_attempts` allows. After a call that returned, or a push to the dead-letter
queue for this target, nothing more is done for it. A message is pushed without a target only if it
was tried for none, and once. What is observed is what the ledger holds. -/
theorem attempts_in_order {queueMaxsize dlqMaxsize maxDeliveryAttempts dispatchWorkers : ℤ}
    {discardExpired : Bool} {broker : MessageBroker} {now : ℚ} {as : List BrokerAction}
    (hinit : MessageBroker.init queueMaxsize dlqMaxsize maxDeliveryAttempts dispatchWorkers
      discardExpired = .ok broker)
    (hrun : run BrokerSystem.step (.init broker now) as = some t) :
    (∀ n target, ∃ made : ℕ, (made : ℤ) ≤ max 1 maxDeliveryAttempts ∧ ∃ ending ∈ endings,
      eventsOf n (some target) (observed BrokerSystem.step brokerEvents (.init broker now) as) =
        calls made ++ ending) ∧
    (∀ n, eventsOf n none (observed BrokerSystem.step brokerEvents (.init broker now) as) = [] ∨
      eventsOf n none (observed BrokerSystem.step brokerEvents (.init broker now) as) =
          [.deadLettered] ∧
        ∀ target, eventsOf n (some target)
          (observed BrokerSystem.step brokerEvents (.init broker now) as) = []) ∧
    t.shared.ledger.handedNumbers =
      calledNumbers (observed BrokerSystem.step brokerEvents (.init broker now) as) ∧
    t.shared.ledger.deadNumbers =
      deadLetteredNumbers (observed BrokerSystem.step brokerEvents (.init broker now) as) := by
  have horderly : Orderly maxDeliveryAttempts
      (observed BrokerSystem.step brokerEvents (.init broker now) as) t :=
    observed_induction (I := Orderly maxDeliveryAttempts) (fun _ _ _ _ h hstep => h.step hstep)
      (.init hinit now) hrun
  exact ⟨horderly.legal.target, horderly.legal.whole, horderly.handed, horderly.dead⟩

/-- One worker calls the handler of a target twice, which raises, and then dead-letters the message
for the second target, whose handler is gone. -/
def twoTargets : List BrokerAction :=
  [.subscribe "agent-b" "handler", .subscribe "agent-c" "handler",
    .publish { sender := "agent-a", receiver := "*", messageId := "m1", createdAt := 0 }, .start,
    .work 0 .poll, .work 0 .take, .work 0 .dispatch, .work 0 (.resolve ["agent-c", "agent-b"]),
    .work 0 .deliver, .work 0 (.handle (.raised (some "busy"))), .work 0 .resume, .work 0 .deliver,
    .unsubscribe "agent-b", .work 0 (.handle .returned), .work 0 .deliver]

/-- `attempts_in_order` on this run. -/
theorem attempts_in_order_twoTargets :
    ∃ t, run BrokerSystem.step (.init oneWorker 0) twoTargets = some t ∧
      t.shared.ledger.handedNumbers = [0, 0] ∧
      ∃ made : ℕ, (made : ℤ) ≤ max 1 3 ∧ ∃ ending ∈ endings,
        eventsOf 0 (some "agent-c")
            (observed BrokerSystem.step brokerEvents (.init oneWorker 0) twoTargets) =
          calls made ++ ending := by
  obtain ⟨t, ht⟩ := Option.isSome_iff_exists.mp
    (show (run BrokerSystem.step (.init oneWorker 0) twoTargets).isSome by decide +kernel)
  have hinit : MessageBroker.init 0 1000 3 1 true = .ok oneWorker := rfl
  obtain ⟨htarget, -, hhanded, -⟩ := attempts_in_order hinit ht
  refine ⟨t, ht, ?_, htarget 0 "agent-c"⟩
  rw [hhanded]
  decide +kernel

end Run

end MeshRouter.Broker
