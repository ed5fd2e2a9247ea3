import MeshRouter.Broker.Dispatch

/-!
# What becomes of accepted envelopes

An accepted envelope is accounted for when it is queued, when a worker is dispatching it, when it
was handed to a handler, or when it is in the dead-letter queue. Every step of the system keeps
what is accounted for but one: a worker in `get` that meets an item whose time to live has elapsed
drops it, and neither the loop nor the dead-letter queue hears of it.

`Stored` is what the queue and the ledger account for, and `workerStep_stored` and `workerStep_held`
are the step lemmas of a worker: what it does not store it is dispatching, and what it gives up it
has handed over. `Kept` is the invariant of the system, kept by every step whose `get` meets a live
item. `Recorded` ties the ledger to the dead-letter queue while nothing is evicted.
-/

namespace MeshRouter.Broker

open Lib Messages

/-! ## One worker -/

section Worker

variable {now : ℚ} {s s' : Shared} {phase phase' : Worker} {move : WorkerMove} {r : Receipt}

/-- The envelope of the receipt is queued, handed, or dead-lettered. -/
def Stored (s : Shared) (r : Receipt) : Prop :=
  r ∈ s.broker.queue.items.map QueueItem.receipt ∨ r ∈ s.ledger.handed ∨ r ∈ s.ledger.deadLettered

/-- The worker is dispatching the envelope of the receipt. -/
def Worker.Carries (phase : Worker) (r : Receipt) : Prop :=
  phase.item.map QueueItem.receipt = some r

/-- What a handler is called with, or will be called with again, has been handed. -/
def Held (s : Shared) : Worker → Prop
  | .handling item _ _ _ | .backoff item _ _ _ => item.receipt ∈ s.ledger.handed
  | _ => True

/-- A `get` of the worker does not meet an item that it drops. -/
def MeetsLive (now : ℚ) (s : Shared) : WorkerMove → Prop
  | .take => ∀ item ∈ s.broker.queue.items.head?,
      s.broker.queue.discardExpired = true → item.envelope.isExpired now = false
  | _ => True

instance : Decidable (MeetsLive now s move) := by
  cases move <;> unfold MeetsLive <;> infer_instance

@[simp]
theorem stored_deadLetter {receipt : Receipt} {entry : DeadLetterEntry} :
    Stored (s.deadLetter receipt entry) r ↔ Stored s r ∨ r = receipt := by
  simp [Stored, Shared.deadLetter, MessageBroker.deadLetter, or_assoc]

@[simp]
theorem stored_hand {receipt : Receipt} : Stored (s.hand receipt) r ↔ Stored s r ∨ r = receipt := by
  simp [Stored, Shared.hand, or_assoc, or_comm]

@[simp]
theorem stored_finish : Stored s.finish.1 r ↔ Stored s r := Iff.rfl

@[simp]
theorem stored_next {item : QueueItem} {rest : List String} :
    Stored (s.next item rest).1 r ↔ Stored s r := by
  unfold Stored
  rw [Shared.items_next, Shared.ledger_next]

/-- After the end of a delivery no handler is called. -/
theorem held_next {item : QueueItem} {rest : List String} :
    Held (s.next item rest).1 (s.next item rest).2 := by
  cases rest
  · exact trivial
  · exact trivial

/-- What a step of a worker does not store, the worker is dispatching. -/
theorem workerStep_stored (h : workerStep now s phase move = some (s', phase'))
    (hlive : MeetsLive now s move) (hheld : Held s phase) (hr : Stored s r ∨ phase.Carries r) :
    Stored s' r ∨ phase'.Carries r := by
  have hcarried : ∀ {item : QueueItem}, some item.receipt = some r → r = item.receipt :=
    fun hc => (Option.some.inj hc).symm
  cases workerStep_cases h with
  | again | leave | timeout | dispatch | resolve | retry | resume => exact hr
  | drop hitems hdiscard hexpired =>
    -- The one step that would lose an envelope: the condition rules it out.
    have hlive := hlive _ (by rw [hitems]; rfl) hdiscard
    cases hlive.symm.trans hexpired
  | take hitems =>
    -- The worker was waiting and dispatched nothing, so the envelope is stored, and if it is at the
    -- head of the queue it passes to the worker.
    have hstored : Stored s r := hr.resolve_right fun hc => by cases hc
    rcases hstored with hqueue | hledger
    · rw [hitems] at hqueue
      rcases List.mem_cons.mp hqueue with rfl | hqueue
      · exact Or.inr rfl
      · exact Or.inl (Or.inl hqueue)
    · exact Or.inl (Or.inr hledger)
  | expired | noSubscriber =>
    exact Or.inl (stored_finish.mpr (stored_deadLetter.mpr (hr.imp_right hcarried)))
  | disappeared | exhausted =>
    exact Or.inl (stored_next.mpr (stored_deadLetter.mpr (hr.imp_right hcarried)))
  | deliver => exact Or.inl (stored_hand.mpr (hr.imp_right hcarried))
  | returned =>
    -- The worker gives up an envelope that it has handed over.
    have hstored : Stored s r := hr.elim id fun hc => hcarried hc ▸ Or.inr (Or.inl hheld)
    exact Or.inl (stored_next.mpr hstored)
  -- The dispatch ends without `task_done`, in a call for which the envelope was handed over.
  | cancelled | unprintable =>
    have hstored : Stored s r := hr.elim id fun hc => hcarried hc ▸ Or.inr (Or.inl hheld)
    exact Or.inl hstored

/-- A step of a worker hands over before it calls, and takes nothing back. -/
theorem workerStep_held (h : workerStep now s phase move = some (s', phase'))
    (hheld : Held s phase) : s.ledger.handed ⊆ s'.ledger.handed ∧ Held s' phase' := by
  cases workerStep_cases h with
  | again | leave | drop | take | timeout | dispatch | resolve | cancelled | unprintable | resume
  | expired | noSubscriber => exact ⟨List.Subset.refl _, trivial⟩
  | disappeared | exhausted | returned =>
    rw [Shared.ledger_next]
    exact ⟨List.Subset.refl _, held_next⟩
  | deliver => exact ⟨List.subset_append_left _ _, List.mem_append_right _ List.mem_cons_self⟩
  | retry => exact ⟨List.Subset.refl _, hheld⟩

/-- A step of a worker accepts nothing. -/
theorem workerStep_accepted (h : workerStep now s phase move = some (s', phase')) :
    s'.ledger.accepted = s.ledger.accepted := by
  cases workerStep_cases h with
  | disappeared | exhausted => exact (congrArg Ledger.accepted Shared.ledger_next).trans rfl
  | returned => exact congrArg Ledger.accepted Shared.ledger_next
  | _ => rfl

/-- What another worker is called with stays handed. -/
theorem Held.mono (h : Held s phase) (hsub : s.ledger.handed ⊆ s'.ledger.handed) :
    Held s' phase := by
  cases phase with
  | handling | backoff => exact hsub h
  | _ => trivial

/-- The ledger and the dead-letter queue agree while nothing has been evicted. -/
structure Recorded (s : Shared) : Prop where
  received : s.broker.dlq.totalReceived = s.ledger.deadLettered.length
  envelopes : s.broker.dlq.totalReceived ≤ s.broker.dlq.maxsize →
    s.broker.dlq.entries.map (·.envelope) = s.ledger.deadLettered.map (·.envelope)

/-- The agreement is about the dead-letter queue and the ledger only. -/
theorem Recorded.congr (h : Recorded s) (hdlq : s'.broker.dlq = s.broker.dlq)
    (hledger : s'.ledger = s.ledger) : Recorded s' := by
  constructor
  · rw [hdlq, hledger]
    exact h.received
  · rw [hdlq, hledger]
    exact h.envelopes

/-- Dead-lettering an accepted envelope keeps the agreement. -/
theorem Recorded.deadLetter (h : Recorded s) (receipt : Receipt) {entry : DeadLetterEntry}
    (hentry : entry.envelope = receipt.envelope) : Recorded (s.deadLetter receipt entry) := by
  have hreceived := h.received
  constructor
  · simp [Shared.deadLetter, MessageBroker.deadLetter, DeadLetterQueue.push, hreceived]
  · intro hroom
    change s.broker.dlq.totalReceived + 1 ≤ s.broker.dlq.maxsize at hroom
    have hrecorded := h.envelopes (Nat.le_of_succ_le hroom)
    have hlength := congrArg List.length hrecorded
    rw [List.length_map, List.length_map] at hlength
    -- No more entries than envelopes received, so that there is room for one more.
    have hnotFull : ¬ s.broker.dlq.maxsize ≤ s.broker.dlq.entries.length := by omega
    simp [Shared.deadLetter, MessageBroker.deadLetter, DeadLetterQueue.push, hnotFull, hrecorded,
      hentry]

/-- A step of a worker keeps the agreement. -/
theorem workerStep_recorded (h : workerStep now s phase move = some (s', phase'))
    (hrec : Recorded s) : Recorded s' := by
  have hnext : ∀ {s : Shared} {item : QueueItem} {rest : List String}, Recorded s →
      Recorded (s.next item rest).1 :=
    fun hrec => hrec.congr Shared.dlq_next Shared.ledger_next
  cases workerStep_cases h with
  | again | leave | timeout | dispatch | resolve | retry | cancelled | unprintable | resume =>
    exact hrec
  | drop | take | deliver => exact ⟨hrec.received, hrec.envelopes⟩
  | expired hentry | noSubscriber hentry =>
    have hdead := hrec.deadLetter (QueueItem.receipt _) hentry
    exact ⟨hdead.received, hdead.envelopes⟩
  | disappeared hentry | exhausted hentry =>
    exact hnext (hrec.deadLetter (QueueItem.receipt _) hentry)
  | returned => exact hnext hrec

end Worker

/-! ## The system -/

section System

variable {s t : BrokerSystem} {r : Receipt}

/-- The envelope of the receipt is queued, being dispatched by a worker, handed to a handler, or
dead-lettered. -/
def Accounted (s : BrokerSystem) (r : Receipt) : Prop :=
  r ∈ s.queued.map QueueItem.receipt ∨ (∃ phase ∈ s.workers, phase.Carries r) ∨
    r ∈ s.shared.ledger.handed ∨ r ∈ s.shared.ledger.deadLettered

/-- What is accounted for is stored, or carried by a worker. -/
theorem accounted_iff :
    Accounted s r ↔ Stored s.shared r ∨ ∃ phase ∈ s.workers, phase.Carries r := by
  unfold Accounted Stored
  rw [or_assoc, or_assoc]
  exact or_congr_right (by rw [or_left_comm, or_comm (a := ∃ phase ∈ s.workers, phase.Carries r)])

/-- Nothing is lost by what keeps the queue, the workers, and the ledger. -/
theorem Accounted.mono (h : Accounted s r) (hqueued : s.queued ⊆ t.queued)
    (hworkers : s.workers ⊆ t.workers)
    (hhanded : s.shared.ledger.handed ⊆ t.shared.ledger.handed)
    (hdead : s.shared.ledger.deadLettered ⊆ t.shared.ledger.deadLettered) : Accounted t r := by
  rcases h with hq | ⟨phase, hphase, hcarries⟩ | hh | hd
  · exact Or.inl (List.map_subset _ hqueued hq)
  · exact Or.inr (Or.inl ⟨phase, hworkers hphase, hcarries⟩)
  · exact Or.inr (Or.inr (Or.inl (hhanded hh)))
  · exact Or.inr (Or.inr (Or.inr (hdead hd)))

/-- The invariant of the runs in which no `get` drops an item. -/
structure Kept (s : BrokerSystem) : Prop where
  accounted : ∀ r ∈ s.shared.ledger.accepted, Accounted s r
  held : ∀ phase ∈ s.workers, Held s.shared phase
  recorded : Recorded s.shared

/-- The step does not drop an item. -/
def TakesLive (s : BrokerSystem) : BrokerAction → Prop
  | .work _ move => MeetsLive s.now s.shared move
  | _ => True

/-- Steps that change neither the queue nor the ledger, and at most add workers with nothing to
dispatch, keep the invariant. -/
theorem Kept.unchanged (h : Kept s) (hqueued : t.queued = s.queued)
    (hledger : t.shared.ledger = s.shared.ledger) (hdlq : t.shared.broker.dlq = s.shared.broker.dlq)
    {added : List Worker} (hworkers : t.workers = s.workers ++ added)
    (hadded : ∀ phase ∈ added, phase.item = none) : Kept t := by
  constructor
  · intro r hr
    rw [hledger] at hr
    refine (h.accounted r hr).mono ?_ ?_ ?_ ?_
    · rw [hqueued]
      exact List.Subset.refl _
    · rw [hworkers]
      exact List.subset_append_left _ _
    · rw [hledger]
      exact List.Subset.refl _
    · rw [hledger]
      exact List.Subset.refl _
  · intro phase hphase
    rw [hworkers] at hphase
    rcases List.mem_append.mp hphase with hphase | hphase
    · refine (h.held phase hphase).mono ?_
      rw [hledger]
      exact List.Subset.refl _
    · cases phase with
      | handling | backoff => cases hadded _ hphase
      | _ => trivial
  · exact h.recorded.congr hdlq hledger

instance (s : BrokerSystem) (a : BrokerAction) : Decidable (TakesLive s a) := by
  cases a <;> unfold TakesLive <;> infer_instance

/-- Dead-lettering at publish accounts for the envelope. -/
theorem Kept.deadOnArrival (h : Kept s) (envelope : MessageEnvelope) :
    Kept (s.deadOnArrival envelope) := by
  constructor
  · intro r hr
    rcases List.mem_append.mp hr with hr | hr
    · exact (h.accounted r hr).mono (List.Subset.refl _) (List.Subset.refl _)
        (List.Subset.refl _) (List.subset_append_left _ _)
    · exact Or.inr (Or.inr (Or.inr (List.mem_append_right _ hr)))
  · exact h.held
  · -- Accepting the envelope as well is nothing to the agreement.
    have hdead : ∀ entry : DeadLetterEntry, entry.envelope = envelope →
        Recorded (s.shared.deadLetter ⟨envelope, none⟩ entry) :=
      fun entry hentry => h.recorded.deadLetter ⟨envelope, none⟩ hentry
    exact ⟨(hdead _ rfl).received, (hdead _ rfl).envelopes⟩

/-- A put accounts for its item. -/
theorem Kept.of_enqueue {item : QueueItem} (ht : s.enqueue item = some t) (h : Kept s) :
    Kept t := by
  obtain ⟨queue, hput, rfl⟩ := Option.map_eq_some_iff.mp ht
  constructor
  · intro r hr
    rcases List.mem_append.mp hr with hr | hr
    · refine (h.accounted r hr).mono (fun i hi => ?_) (List.Subset.refl _) (List.Subset.refl _)
        (List.Subset.refl _)
      exact (PriorityMessageQueue.mem_put hput).mpr (Or.inr hi)
    · obtain rfl := List.mem_singleton.mp hr
      have hitem : item ∈ queue.items := (PriorityMessageQueue.mem_put hput).mpr (Or.inl rfl)
      exact Or.inl (List.mem_map_of_mem hitem)
  · exact h.held
  · exact ⟨h.recorded.received, h.recorded.envelopes⟩

/-- A worker that was not set is still there. -/
theorem mem_set_or_eq {α : Type} {l : List α} {i : ℕ} {a b c : α} (ha : l[i]? = some a)
    (hc : c ∈ l) : c = a ∨ c ∈ l.set i b := by
  obtain ⟨j, hj⟩ := List.mem_iff_getElem?.mp hc
  by_cases hij : i = j
  · subst hij
    exact Or.inl (Option.some.inj (hj.symm.trans ha))
  · refine Or.inr (List.mem_iff_getElem?.mpr ⟨j, ?_⟩)
    rwa [List.getElem?_set_ne hij]

/-- A step of a worker that does not drop an item keeps the invariant. -/
theorem Kept.work (h : Kept s) {worker : ℕ} {phase phase' : Worker} {move : WorkerMove}
    {shared : Shared} (hphase : s.workers[worker]? = some phase)
    (hlive : MeetsLive s.now s.shared move)
    (hstep : workerStep s.now s.shared phase move = some (shared, phase')) :
    Kept { s with shared := shared, workers := s.workers.set worker phase' } := by
  have hmem : phase ∈ s.workers := List.mem_of_getElem? hphase
  have hheld := h.held phase hmem
  obtain ⟨hhanded, hheld'⟩ := workerStep_held hstep hheld
  have hlt : worker < s.workers.length := (List.getElem?_eq_some_iff.mp hphase).1
  have hphase' : phase' ∈ s.workers.set worker phase' := List.mem_set hlt phase'
  constructor
  · -- A receipt that the worker carried is stored or still carried; the others stay.
    intro r hr
    dsimp only at hr
    rw [workerStep_accepted hstep] at hr
    refine accounted_iff.mpr ?_
    have hstay : Stored s.shared r ∨ phase.Carries r → Stored shared r ∨
        ∃ p ∈ s.workers.set worker phase', p.Carries r :=
      fun hr => (workerStep_stored hstep hlive hheld hr).imp_right fun hc => ⟨phase', hphase', hc⟩
    rcases accounted_iff.mp (h.accounted r hr) with hs | ⟨p, hp, hc⟩
    · exact hstay (Or.inl hs)
    · rcases mem_set_or_eq (b := phase') hphase hp with rfl | hp
      · exact hstay (Or.inr hc)
      · exact Or.inr ⟨p, hp, hc⟩
  · intro p hp
    rcases List.mem_or_eq_of_mem_set hp with hp | rfl
    · exact (h.held p hp).mono hhanded
    · exact hheld'
  · exact workerStep_recorded hstep h.recorded

/-- A cancelled worker gives up only what it has handed over. -/
theorem Kept.cancel (h : Kept s) {worker : ℕ} {phase : Worker}
    (hphase : s.workers[worker]? = some phase) (hsuspended : phase.suspended = true) :
    Kept { s with workers := s.workers.set worker .left } := by
  have hheld := h.held phase (List.mem_of_getElem? hphase)
  constructor
  · intro r hr
    refine accounted_iff.mpr ?_
    rcases accounted_iff.mp (h.accounted r hr) with hs | ⟨p, hp, hc⟩
    · exact Or.inl hs
    · rcases mem_set_or_eq (b := Worker.left) hphase hp with rfl | hp
      · cases p with
        | handling | backoff =>
          obtain rfl := Option.some.inj hc
          exact Or.inl (Or.inr (Or.inl hheld))
        -- Between two points of suspension no cancellation arrives.
        | dispatching | resolving | delivering => cases hsuspended
        | polling | waiting | left => cases hc
      · exact Or.inr ⟨p, hp, hc⟩
  · intro p hp
    rcases List.mem_or_eq_of_mem_set hp with hp | rfl
    · exact h.held p hp
    · trivial
  · exact h.recorded

/-- A step that does not drop an item keeps the invariant. -/
theorem Kept.step (h : Kept s) {a : BrokerAction} (hlive : TakesLive s a)
    (hstep : s.step a = some t) : Kept t := by
  have hsame : ∀ {u : BrokerSystem}, u.queued = s.queued → u.shared.ledger = s.shared.ledger →
      u.shared.broker.dlq = s.shared.broker.dlq → u.workers = s.workers → Kept u :=
    fun hqueued hledger hdlq hworkers => h.unchanged hqueued hledger hdlq
      (hworkers.trans (List.append_nil _).symm) (by simp)
  unfold BrokerSystem.step at hstep
  cases a with
  | start =>
    dsimp only at hstep
    split_ifs at hstep
    · obtain rfl := Option.some.inj hstep
      exact h
    · obtain rfl := Option.some.inj hstep
      -- New workers stand at the test of the flag.
      refine h.unchanged rfl rfl rfl rfl fun phase hphase => ?_
      rw [List.eq_of_mem_replicate hphase]
      rfl
  | subscribe | unsubscribe | subscribeTopic | unsubscribeTopic =>
    obtain rfl := Option.some.inj hstep
    exact hsame rfl rfl rfl rfl
  | publish envelope =>
    dsimp only at hstep
    split_ifs at hstep
    · obtain rfl := Option.some.inj hstep
      exact h.deadOnArrival envelope
    · -- With room the item is put, and without room it waits, not yet accepted.
      split at hstep
      · obtain rfl := Option.some.inj hstep
        rename_i henqueue
        exact Kept.of_enqueue henqueue (hsame rfl rfl rfl rfl)
      · obtain rfl := Option.some.inj hstep
        exact hsame rfl rfl rfl rfl
  | put putter =>
    dsimp only at hstep
    split at hstep
    · cases hstep
    · exact Kept.of_enqueue hstep (hsame rfl rfl rfl rfl)
  | publishNowait envelope =>
    dsimp only at hstep
    split_ifs at hstep
    · obtain rfl := Option.some.inj hstep
      exact h.deadOnArrival envelope
    · obtain rfl := Option.some.inj hstep
      -- Here a full queue refuses the item, which was not accepted.
      generalize henqueue : BrokerSystem.enqueue _ _ = result
      cases result with
      | none => exact hsame rfl rfl rfl rfl
      | some u =>
        have hkept : Kept u := Kept.of_enqueue henqueue (hsame rfl rfl rfl rfl)
        exact hkept
  | advance =>
    dsimp only at hstep
    split_ifs at hstep
    obtain rfl := Option.some.inj hstep
    exact hsame rfl rfl rfl rfl
  | work worker move =>
    dsimp only at hstep
    split at hstep
    · cases hstep
    · rename_i hphase
      obtain ⟨⟨shared, phase'⟩, hwork, rfl⟩ := Option.map_eq_some_iff.mp hstep
      exact h.work hphase hlive hwork
  | stop =>
    dsimp only at hstep
    split_ifs at hstep
    · obtain rfl := Option.some.inj hstep
      exact hsame rfl rfl rfl rfl
    · obtain rfl := Option.some.inj hstep
      exact h
  | joined | joinTimeout =>
    dsimp only at hstep
    split_ifs at hstep
    obtain rfl := Option.some.inj hstep
    exact hsame rfl rfl rfl rfl
  | cancel worker =>
    dsimp only at hstep
    split at hstep
    · cases hstep
    · split_ifs at hstep with hcancel
      obtain rfl := Option.some.inj hstep
      rename_i hphase
      exact h.cancel hphase (Bool.and_eq_true_iff.mp hcancel).1
  | gathered =>
    dsimp only at hstep
    split at hstep
    · split_ifs at hstep
      obtain rfl := Option.some.inj hstep
      exact hsame rfl rfl rfl rfl
    · cases hstep

/-- A new broker accounts for everything. -/
theorem Kept.init {queueMaxsize dlqMaxsize maxDeliveryAttempts dispatchWorkers : ℤ}
    {discardExpired : Bool} {broker : MessageBroker}
    (hinit : MessageBroker.init queueMaxsize dlqMaxsize maxDeliveryAttempts dispatchWorkers
      discardExpired = .ok broker) (now : ℚ) : Kept (.init broker now) := by
  unfold MessageBroker.init DeadLetterQueue.init at hinit
  split_ifs at hinit
  obtain rfl := Except.ok.inj hinit
  exact ⟨fun r hr => (by cases hr), fun phase hphase => (by cases hphase), ⟨rfl, fun _ => rfl⟩⟩

/-- In a run in which no `get` meets an item whose time to live has elapsed, every accepted envelope
is queued, being dispatched, handed to a handler, or dead-lettered, and while the dead-letter queue
evicts nothing it holds what was dead-lettered. -/
theorem no_loss {queueMaxsize dlqMaxsize maxDeliveryAttempts dispatchWorkers : ℤ}
    {broker : MessageBroker} {now : ℚ} {as : List BrokerAction}
    (hinit : MessageBroker.init queueMaxsize dlqMaxsize maxDeliveryAttempts dispatchWorkers true =
      .ok broker)
    (hlive : Along BrokerSystem.step TakesLive (.init broker now) as)
    (hrun : run BrokerSystem.step (.init broker now) as = some t)
    (hroom : t.broker.dlq.totalReceived ≤ t.broker.dlq.maxsize) :
    (∀ r ∈ t.shared.ledger.accepted, Accounted t r) ∧
      t.broker.dlq.entries.map (·.envelope) = t.shared.ledger.deadLettered.map (·.envelope) := by
  have hkept : Kept t := run_induction_along (fun _ _ _ h hlive hstep => h.step hlive hstep)
    (Kept.init hinit now) hlive hrun
  exact ⟨hkept.accounted, hkept.recorded.envelopes hroom⟩

end System

/-! ## A message with a time to live -/

/-- A message that expires one second after its creation. -/
def shortLived : MessageEnvelope :=
  { sender := "agent-a", receiver := "agent-b", messageId := "m1", createdAt := 0,
    ttlSeconds := some 1 }

/-- The message is published, and the worker takes it after `delay` seconds. -/
def takeAfter (delay : ℚ) : List BrokerAction :=
  [.subscribe "agent-b" "handler", .start, .publish shortLived, .advance delay, .work 0 .poll,
    .work 0 .take]

/-- What the state says about the accepted envelopes. -/
structure Account where
  accepted : List Receipt
  queued : List QueueItem
  workers : List Worker
  handed : List Receipt
  deadLettered : List Receipt
deriving DecidableEq

/-- The account of a state. -/
def BrokerSystem.account (s : BrokerSystem) : Account :=
  ⟨s.shared.ledger.accepted, s.queued, s.workers, s.shared.ledger.handed,
    s.shared.ledger.deadLettered⟩

/-- `no_loss` on a message that is taken in time. -/
theorem no_loss_takeAfter :
    ∃ t, run BrokerSystem.step (.init oneWorker 0) (takeAfter (1 / 2)) = some t ∧
      (∀ r ∈ t.shared.ledger.accepted, Accounted t r) ∧
      t.broker.dlq.entries.map (·.envelope) = t.shared.ledger.deadLettered.map (·.envelope) := by
  obtain ⟨t, ht⟩ := Option.isSome_iff_exists.mp
    (show (run BrokerSystem.step (.init oneWorker 0) (takeAfter (1 / 2))).isSome by decide +kernel)
  -- The side conditions are read off the run, which computes.
  have hroom : (run BrokerSystem.step (.init oneWorker 0) (takeAfter (1 / 2))).all
      (fun t => t.broker.dlq.totalReceived ≤ t.broker.dlq.maxsize) = true := by decide +kernel
  rw [ht] at hroom
  have hinit : MessageBroker.init 0 1000 3 1 true = .ok oneWorker := rfl
  exact ⟨t, ht, no_loss hinit (by decide +kernel) ht (of_decide_eq_true hroom)⟩

/-- The worker takes the message too late: it is dropped and not dead-lettered. -/
theorem expired_in_queue_lost :
    MessageBroker.init 0 1000 3 1 true = .ok oneWorker ∧
      ∃ t, run BrokerSystem.step (.init oneWorker 0) (takeAfter 2) = some t ∧
        ⟨shortLived, some 0⟩ ∈ t.shared.ledger.accepted ∧ ¬ Accounted t ⟨shortLived, some 0⟩ ∧
        t.broker.dlq.entries = [] := by
  refine ⟨rfl, ?_⟩
  obtain ⟨t, ht⟩ := Option.isSome_iff_exists.mp
    (show (run BrokerSystem.step (.init oneWorker 0) (takeAfter 2)).isSome by decide +kernel)
  have haccount : (run BrokerSystem.step (.init oneWorker 0) (takeAfter 2)).map
      (fun t => (t.account, t.broker.dlq.entries)) =
        some (⟨[⟨shortLived, some 0⟩], [], [.waiting], [], []⟩, []) := by decide +kernel
  rw [ht] at haccount
  obtain ⟨haccount, hentries⟩ := Prod.mk.inj (Option.some.inj haccount)
  obtain ⟨haccepted, hqueued, hworkers, hhanded, hdead⟩ := Account.mk.inj haccount
  refine ⟨t, ht, by rw [haccepted]; exact List.mem_cons_self, ?_, hentries⟩
  rintro (hq | ⟨phase, hphase, hcarries⟩ | hh | hd)
  · rw [hqueued] at hq
    cases hq
  · rw [hworkers] at hphase
    obtain rfl := List.mem_singleton.mp hphase
    cases hcarries
  · rw [hhanded] at hh
    cases hh
  · rw [hdead] at hd
    cases hd

end MeshRouter.Broker
