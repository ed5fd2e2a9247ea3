import MeshRouter.Broker.Dispatch

/-!
# Where the items of a broker are

An item is queued, waits with a publish for room in the queue, or is being dispatched by a worker.
`step_arrives` says once what the steps of the callers and of the clock do to the items, `step_work`
and `step_cancel` what the steps of a worker are, and `takes_of_take` what a turn of `get` does.
From these, `OneHand` is an invariant of every run: the sequence numbers are all different, so that
no item is in two places and no two workers dispatch the same message.
-/

namespace MeshRouter.Broker

open Lib Messages

/-- The worker whose step an action is. -/
def BrokerAction.worker? : BrokerAction → Option ℕ
  | .work worker _ | .cancel worker => some worker
  | _ => none

/-- The next sequence number. -/
def BrokerSystem.sequence (s : BrokerSystem) : ℕ := s.shared.broker.queue.sequence

/-- The items put and not reported as done. -/
def BrokerSystem.unfinished (s : BrokerSystem) : ℕ := s.shared.broker.queue.queue.unfinished

/-- The sequence numbers of the items that are queued or wait for room. -/
def BrokerSystem.waiting (s : BrokerSystem) : List ℕ :=
  (s.queued ++ s.putters).map QueueItem.sequence

/-- The sequence numbers of the messages handed to handlers, once for each call. -/
def Ledger.handedNumbers (ledger : Ledger) : List ℕ := ledger.handed.filterMap Receipt.sequence

/-- The sequence numbers of the messages dead-lettered after they were queued. -/
def Ledger.deadNumbers (ledger : Ledger) : List ℕ := ledger.deadLettered.filterMap Receipt.sequence

variable {s t : BrokerSystem} {a : BrokerAction}

/-! ## The steps of the callers -/

/-- What a step of a caller or of the clock does to the items. -/
structure Arrives (s t : BrokerSystem) : Prop where
  /-- New workers have nothing to dispatch. -/
  workers : ∃ n, t.workers = s.workers ++ List.replicate n .polling
  maxDeliveryAttempts : t.broker.maxDeliveryAttempts = s.broker.maxDeliveryAttempts
  /-- No item comes, or one with the next sequence number. -/
  numbers : t.waiting.Perm s.waiting ∧ s.sequence ≤ t.sequence ∨
    t.waiting.Perm (s.sequence :: s.waiting) ∧ t.sequence = s.sequence + 1
  /-- What is put is counted as unfinished. -/
  unfinished : t.unfinished + s.queued.length = s.unfinished + t.queued.length
  handed : t.shared.ledger.handedNumbers = s.shared.ledger.handedNumbers
  /-- What is dead-lettered before it is queued has no number. -/
  dead : t.shared.ledger.deadNumbers = s.shared.ledger.deadNumbers

/-- A step that leaves the items alone. -/
theorem Arrives.idle (hworkers : ∃ n, t.workers = s.workers ++ List.replicate n .polling)
    (hattempts : t.broker.maxDeliveryAttempts = s.broker.maxDeliveryAttempts)
    (hqueue : t.shared.broker.queue = s.shared.broker.queue) (hputters : t.putters = s.putters)
    (hhanded : t.shared.ledger.handedNumbers = s.shared.ledger.handedNumbers)
    (hdead : t.shared.ledger.deadNumbers = s.shared.ledger.deadNumbers) : Arrives s t := by
  have hqueued : t.queued = s.queued := congrArg PriorityMessageQueue.items hqueue
  have hsequence : t.sequence = s.sequence := congrArg PriorityMessageQueue.sequence hqueue
  have hunfinished : t.unfinished = s.unfinished := congrArg (·.queue.unfinished) hqueue
  refine ⟨hworkers, hattempts, Or.inl ⟨?_, hsequence.ge⟩, by rw [hunfinished, hqueued], hhanded,
    hdead⟩
  rw [BrokerSystem.waiting, BrokerSystem.waiting, hqueued, hputters]

/-- A message that has expired when it is published never has a number. -/
theorem Arrives.deadOnArrival (envelope : MessageEnvelope) :
    Arrives s (s.deadOnArrival envelope) := by
  refine .idle ⟨0, (List.append_nil _).symm⟩ rfl rfl rfl rfl ?_
  exact (List.filterMap_append ..).trans (List.append_nil _)

/-- A put adds its item to the queue, as an unfinished one. -/
theorem enqueue_cases {item : QueueItem} (h : s.enqueue item = some t) :
    t.queued.Perm (item :: s.queued) ∧ t.unfinished = s.unfinished + 1 ∧
      t.sequence = s.sequence ∧ t.putters = s.putters ∧ t.workers = s.workers ∧
      t.broker.maxDeliveryAttempts = s.broker.maxDeliveryAttempts ∧
      t.shared.ledger.handedNumbers = s.shared.ledger.handedNumbers ∧
      t.shared.ledger.deadNumbers = s.shared.ledger.deadNumbers := by
  obtain ⟨queue, hput, rfl⟩ := Option.map_eq_some_iff.mp h
  obtain ⟨inner, hinner, rfl⟩ := Option.map_eq_some_iff.mp hput
  refine ⟨MinQueue.perm_of_put hinner, ?_, rfl, rfl, rfl, rfl, rfl, rfl⟩
  unfold MinQueue.put at hinner
  split_ifs at hinner
  obtain rfl := Option.some.inj hinner
  rfl

/-- A publish that puts its new item. -/
theorem Arrives.put {envelope : MessageEnvelope} {item : QueueItem} {queue : PriorityMessageQueue}
    (hmake : s.broker.queue.makeItem envelope s.now = (item, queue))
    (henqueue : (s.withBroker { s.broker with queue := queue }).enqueue item = some t) :
    Arrives s t := by
  obtain ⟨rfl, rfl⟩ := Prod.mk.inj hmake
  obtain ⟨hqueued, hunfinished, hsequence, hputters, hworkers, hattempts, hhanded, hdead⟩ :=
    enqueue_cases henqueue
  refine ⟨⟨0, by rw [hworkers]; exact (List.append_nil _).symm⟩, hattempts,
    Or.inr ⟨?_, hsequence⟩, ?_, hhanded, hdead⟩
  · rw [BrokerSystem.waiting, hputters]
    exact (hqueued.append_right _).map QueueItem.sequence
  · rw [hunfinished, hqueued.length_eq, List.length_cons]
    exact Nat.add_right_comm _ _ _

/-- A publish that waits with its new item, or is refused. -/
theorem Arrives.numbered {envelope : MessageEnvelope} {item : QueueItem}
    {queue : PriorityMessageQueue}
    (hmake : s.broker.queue.makeItem envelope s.now = (item, queue)) :
    Arrives s (s.withBroker { s.broker with queue := queue }) ∧
      Arrives s { s.withBroker { s.broker with queue := queue } with
        putters := s.putters ++ [item] } := by
  obtain ⟨rfl, rfl⟩ := Prod.mk.inj hmake
  refine ⟨⟨⟨0, (List.append_nil _).symm⟩, rfl, Or.inl ⟨List.Perm.refl _, Nat.le_succ _⟩, rfl, rfl,
    rfl⟩, ⟨⟨0, (List.append_nil _).symm⟩, rfl, Or.inr ⟨?_, rfl⟩, rfl, rfl, rfl⟩⟩
  have hlast : (s.queued ++ (s.putters ++ [(s.broker.queue.makeItem envelope s.now).1])).Perm
      ((s.broker.queue.makeItem envelope s.now).1 :: (s.queued ++ s.putters)) := by
    rw [← List.append_assoc]
    exact List.perm_append_singleton _ _
  exact hlast.map QueueItem.sequence

/-- A publish that waited puts its item. -/
theorem Arrives.room {putter : ℕ} {item : QueueItem} (hputter : s.putters[putter]? = some item)
    (henqueue : ({ s with putters := s.putters.eraseIdx putter }).enqueue item = some t) :
    Arrives s t := by
  obtain ⟨hqueued, hunfinished, hsequence, hputters, hworkers, hattempts, hhanded, hdead⟩ :=
    enqueue_cases henqueue
  refine ⟨⟨0, by rw [hworkers]; exact (List.append_nil _).symm⟩, hattempts,
    Or.inl ⟨?_, hsequence.ge⟩, ?_, hhanded, hdead⟩
  · -- The item goes from the one list to the other.
    obtain ⟨hlt, hget⟩ := List.getElem?_eq_some_iff.mp hputter
    have hputters' : s.putters.Perm (item :: s.putters.eraseIdx putter) := by
      rw [← hget]
      exact (List.getElem_cons_eraseIdx_perm hlt).symm
    have hback : (s.queued ++ item :: s.putters.eraseIdx putter).Perm (s.queued ++ s.putters) :=
      hputters'.symm.append_left _
    have hmove : (t.queued ++ t.putters).Perm (s.queued ++ s.putters) := by
      rw [hputters]
      exact (hqueued.append_right _).trans (List.perm_middle.symm.trans hback)
    exact hmove.map QueueItem.sequence
  · rw [hunfinished, hqueued.length_eq, List.length_cons]
    exact Nat.add_right_comm _ _ _

/-- What a step that is not a worker's does to the items. -/
theorem step_arrives (ha : a.worker? = none) (h : s.step a = some t) : Arrives s t := by
  have hnone : ∀ workers : List Worker, ∃ n, workers = workers ++ List.replicate n .polling :=
    fun workers => ⟨0, (List.append_nil _).symm⟩
  unfold BrokerSystem.step at h
  cases a with
  | start =>
    dsimp only at h
    split_ifs at h
    · obtain rfl := Option.some.inj h
      exact .idle (hnone _) rfl rfl rfl rfl rfl
    · obtain rfl := Option.some.inj h
      exact .idle ⟨_, rfl⟩ rfl rfl rfl rfl rfl
  | subscribe | unsubscribe | subscribeTopic | unsubscribeTopic =>
    obtain rfl := Option.some.inj h
    exact .idle (hnone _) rfl rfl rfl rfl rfl
  | publish envelope =>
    dsimp only at h
    split_ifs at h
    · obtain rfl := Option.some.inj h
      exact .deadOnArrival envelope
    · -- The item is put, or waits for room.
      split at h
      · rename_i henqueue
        obtain rfl := Option.some.inj h
        exact .put rfl henqueue
      · obtain rfl := Option.some.inj h
        exact (Arrives.numbered rfl).2
  | put putter =>
    dsimp only at h
    split at h
    · cases h
    · rename_i hputter
      exact .room hputter h
  | publishNowait envelope =>
    dsimp only at h
    split_ifs at h
    · obtain rfl := Option.some.inj h
      exact .deadOnArrival envelope
    · obtain rfl := Option.some.inj h
      generalize henqueue : BrokerSystem.enqueue _ _ = result
      cases result with
      | none =>
        have hmake : s.broker.queue.makeItem envelope s.now = _ := rfl
        exact (Arrives.numbered hmake).1
      | some u => exact .put rfl henqueue
  | advance | joined | joinTimeout =>
    dsimp only at h
    split_ifs at h
    obtain rfl := Option.some.inj h
    exact .idle (hnone _) rfl rfl rfl rfl rfl
  | work | cancel => cases ha
  | stop =>
    dsimp only at h
    split_ifs at h
    · obtain rfl := Option.some.inj h
      exact .idle (hnone _) rfl rfl rfl rfl rfl
    · obtain rfl := Option.some.inj h
      exact .idle (hnone _) rfl rfl rfl rfl rfl
  | gathered =>
    dsimp only at h
    split at h
    · split_ifs at h
      obtain rfl := Option.some.inj h
      exact .idle (hnone _) rfl rfl rfl rfl rfl
    · cases h

/-! ## The steps of the workers -/

/-- A step of a worker changes what the workers share, and its own phase. -/
theorem step_work {worker : ℕ} {move : WorkerMove} (h : s.step (.work worker move) = some t) :
    ∃ phase shared phase', s.workers[worker]? = some phase ∧
      workerStep s.now s.shared phase move = some (shared, phase') ∧
      t = { s with shared := shared, workers := s.workers.set worker phase' } := by
  unfold BrokerSystem.step at h
  dsimp only at h
  split at h
  · cases h
  · rename_i phase hphase
    obtain ⟨⟨shared, phase'⟩, hwork, rfl⟩ := Option.map_eq_some_iff.mp h
    exact ⟨phase, shared, phase', hphase, hwork, rfl⟩

/-- A cancellation ends a worker that is suspended. -/
theorem step_cancel {worker : ℕ} (h : s.step (.cancel worker) = some t) :
    ∃ phase, s.workers[worker]? = some phase ∧ phase.suspended = true ∧
      t = { s with workers := s.workers.set worker .left } := by
  unfold BrokerSystem.step at h
  dsimp only at h
  split at h
  · cases h
  · rename_i phase hphase
    split_ifs at h with hcancel
    obtain rfl := Option.some.inj h
    exact ⟨phase, hphase, (Bool.and_eq_true_iff.mp hcancel).1, rfl⟩

variable {now : ℚ} {shared shared' : Shared} {phase phase' : Worker} {move : WorkerMove}

/-- A turn of `get` takes the first item of the queue: it drops the item, which is then reported as
done, or the worker goes on to dispatch it. -/
theorem takes_of_take (h : workerStep now shared .waiting .take = some (shared', phase')) :
    ∃ item queue, shared.broker.queue.items = item :: queue.items ∧
      shared' = shared.withQueue queue ∧ queue.sequence = shared.broker.queue.sequence ∧
      (phase' = .dispatching item ∧
          queue.queue.unfinished = shared.broker.queue.queue.unfinished ∨
        phase' = .waiting ∧
          queue.queue.unfinished = shared.broker.queue.queue.unfinished - 1) := by
  unfold workerStep at h
  dsimp only at h
  -- Both ways of `getRound` leave the queue that `get` of the minimum queue left.
  have hround : ∀ {taken : Option QueueItem} {queue : PriorityMessageQueue},
      shared.broker.queue.getRound now = some (taken, queue) →
      ∃ item, shared.broker.queue.items = item :: queue.items ∧
        queue.sequence = shared.broker.queue.sequence ∧
        (taken = some item ∧
            queue.queue.unfinished = shared.broker.queue.queue.unfinished ∨
          taken = none ∧
            queue.queue.unfinished = shared.broker.queue.queue.unfinished - 1) := by
    intro taken queue hget
    unfold PriorityMessageQueue.getRound at hget
    obtain ⟨⟨item, inner⟩, hinner, hround⟩ := Option.map_eq_some_iff.mp hget
    have hitems := MinQueue.items_of_get hinner
    have hunfinished := MinQueue.unfinished_of_get hinner
    dsimp only at hround
    split_ifs at hround
    · obtain ⟨rfl, rfl⟩ := Prod.mk.inj hround
      exact ⟨item, hitems, rfl, Or.inr ⟨rfl, congrArg (· - 1) hunfinished⟩⟩
    · obtain ⟨rfl, rfl⟩ := Prod.mk.inj hround
      exact ⟨item, hitems, rfl, Or.inl ⟨rfl, hunfinished⟩⟩
  split at h
  · cases h
  · rename_i hget
    obtain ⟨rfl, rfl⟩ := Prod.mk.inj (Option.some.inj h)
    obtain ⟨item, hitems, hsequence, htaken⟩ := hround hget
    obtain ⟨-, hunfinished⟩ := htaken.resolve_left fun htaken => by cases htaken.1
    exact ⟨item, _, hitems, rfl, hsequence, Or.inr ⟨rfl, hunfinished⟩⟩
  · rename_i hget
    obtain ⟨rfl, rfl⟩ := Prod.mk.inj (Option.some.inj h)
    obtain ⟨item, hitems, hsequence, htaken⟩ := hround hget
    obtain ⟨hitem, hunfinished⟩ := htaken.resolve_right fun htaken => by cases htaken.1
    obtain rfl := Option.some.inj hitem
    exact ⟨_, _, hitems, rfl, hsequence, Or.inl ⟨rfl, hunfinished⟩⟩

/-- What a step of a worker does to the items: it keeps the item that it dispatches or is done with
it, or it takes the first item out of the queue. -/
theorem workerStep_item (h : workerStep now shared phase move = some (shared', phase')) :
    shared'.broker.queue.sequence = shared.broker.queue.sequence ∧
      shared'.broker.maxDeliveryAttempts = shared.broker.maxDeliveryAttempts ∧
      (shared'.broker.queue.items = shared.broker.queue.items ∧
          (phase'.item = phase.item ∨ phase'.item = none) ∨
        ∃ item, shared.broker.queue.items = item :: shared'.broker.queue.items ∧
          phase.item = none ∧ (phase'.item = some item ∨ phase'.item = none)) := by
  have hnext : ∀ (s : Shared) (item : QueueItem) (rest : List String),
      (s.next item rest).1.broker.queue.sequence = s.broker.queue.sequence ∧
        (s.next item rest).1.broker.maxDeliveryAttempts = s.broker.maxDeliveryAttempts ∧
        ((s.next item rest).2.item = some item ∨ (s.next item rest).2.item = none) := by
    intro s item rest
    cases rest with
    | nil => exact ⟨rfl, rfl, Or.inr rfl⟩
    | cons => exact ⟨rfl, rfl, Or.inl rfl⟩
  cases workerStep_cases h with
  | again | leave | timeout | dispatch | resolve | retry | resume | deliver =>
    exact ⟨rfl, rfl, Or.inl ⟨rfl, Or.inl rfl⟩⟩
  | cancelled | unprintable | expired | noSubscriber =>
    exact ⟨rfl, rfl, Or.inl ⟨rfl, Or.inr rfl⟩⟩
  | drop hitems =>
    obtain ⟨item, queue, hitems, heq, hsequence, -⟩ := takes_of_take h
    rw [heq]
    exact ⟨hsequence, rfl, Or.inr ⟨item, hitems, rfl, Or.inr rfl⟩⟩
  | take hitems =>
    obtain ⟨item, queue, hitems, heq, hsequence, hphase⟩ := takes_of_take h
    rw [heq]
    refine ⟨hsequence, rfl, Or.inr ⟨item, hitems, rfl, Or.inl ?_⟩⟩
    rcases hphase with ⟨hphase, -⟩ | ⟨hphase, -⟩
    · rw [hphase]
      rfl
    · cases hphase
  | disappeared | exhausted | returned =>
    obtain ⟨hsequence, hattempts, hitem⟩ := hnext _ _ _
    exact ⟨hsequence.trans rfl, hattempts.trans rfl, Or.inl ⟨Shared.items_next, hitem⟩⟩

/-! ## No item is in two places -/

/-- The sequence numbers of the items are all different, and below the next one. -/
structure OneHand (s : BrokerSystem) : Prop where
  nodup : s.waiting.Nodup
  waiting_lt : ∀ n ∈ s.waiting, n < s.sequence
  /-- What a worker dispatches neither is queued nor waits. -/
  carried : ∀ phase ∈ s.workers, ∀ item ∈ phase.item,
    item.sequence < s.sequence ∧ item.sequence ∉ s.waiting
  /-- No two workers dispatch the same item. -/
  single : ∀ (v w : ℕ) (phase phase' : Worker) (item item' : QueueItem),
    s.workers[v]? = some phase → s.workers[w]? = some phase' → phase.item = some item →
    phase'.item = some item' → item.sequence = item'.sequence → v = w

/-- New workers dispatch nothing. -/
theorem item_of_append_replicate {workers : List Worker} {n w : ℕ} {item : QueueItem}
    (hphase : (workers ++ List.replicate n .polling)[w]? = some phase)
    (hitem : phase.item = some item) : workers[w]? = some phase := by
  rcases Nat.lt_or_ge w workers.length with hlt | hge
  · rwa [List.getElem?_append_left hlt] at hphase
  · rw [List.getElem?_append_right hge] at hphase
    have hpolling : phase = .polling := List.eq_of_mem_replicate (List.mem_of_getElem? hphase)
    rw [hpolling] at hitem
    cases hitem

/-- The callers give every new item a number of its own. -/
theorem OneHand.arrives (h : OneHand s) (harrives : Arrives s t) : OneHand t := by
  obtain ⟨⟨n, hworkers⟩, -, hnumbers, -, -, -⟩ := harrives
  -- The workers carry what they carried.
  have hold : ∀ {w : ℕ} {phase : Worker} {item : QueueItem}, t.workers[w]? = some phase →
      phase.item = some item → s.workers[w]? = some phase := by
    intro w phase item hphase hitem
    rw [hworkers] at hphase
    exact item_of_append_replicate hphase hitem
  have hcarried : ∀ phase ∈ t.workers, ∀ item ∈ phase.item,
      item.sequence < s.sequence ∧ item.sequence ∉ s.waiting := by
    intro phase hphase item hitem
    obtain ⟨w, hw⟩ := List.mem_iff_getElem?.mp hphase
    exact h.carried phase (List.mem_of_getElem? (hold hw hitem)) item hitem
  have hsingle : ∀ (v w : ℕ) (phase phase' : Worker) (item item' : QueueItem),
      t.workers[v]? = some phase → t.workers[w]? = some phase' → phase.item = some item →
      phase'.item = some item' → item.sequence = item'.sequence → v = w :=
    fun v w phase phase' item item' hv hw hitem hitem' =>
      h.single v w phase phase' item item' (hold hv hitem) (hold hw hitem') hitem hitem'
  rcases hnumbers with ⟨hperm, hle⟩ | ⟨hperm, hnext⟩
  · refine ⟨hperm.nodup_iff.mpr h.nodup, fun m hm => ?_, fun phase hphase item hitem => ?_, hsingle⟩
    · exact (h.waiting_lt m (hperm.mem_iff.mp hm)).trans_le hle
    · obtain ⟨hlt, hnot⟩ := hcarried phase hphase item hitem
      exact ⟨hlt.trans_le hle, fun hm => hnot (hperm.mem_iff.mp hm)⟩
  · -- The new number is above all that are in use.
    have hfresh : s.sequence ∉ s.waiting := fun hm => (h.waiting_lt _ hm).false
    refine ⟨hperm.nodup_iff.mpr (List.nodup_cons.mpr ⟨hfresh, h.nodup⟩), fun m hm => ?_,
      fun phase hphase item hitem => ?_, hsingle⟩
    · rcases List.mem_cons.mp (hperm.mem_iff.mp hm) with rfl | hm
      · omega
      · have hlt := h.waiting_lt m hm
        omega
    · obtain ⟨hlt, hnot⟩ := hcarried phase hphase item hitem
      refine ⟨by omega, fun hm => ?_⟩
      rcases List.mem_cons.mp (hperm.mem_iff.mp hm) with heq | hm
      · omega
      · exact hnot hm

/-- One worker goes on with its item, or without one. -/
theorem OneHand.set (h : OneHand s) {worker : ℕ} (hphase : s.workers[worker]? = some phase)
    (hitem : phase'.item = phase.item ∨ phase'.item = none) (hwaiting : t.waiting = s.waiting)
    (hsequence : t.sequence = s.sequence) (hworkers : t.workers = s.workers.set worker phase') :
    OneHand t := by
  have hlt : worker < s.workers.length := (List.getElem?_eq_some_iff.mp hphase).1
  -- What a worker of `t` carries, the same worker carried in `s`.
  have hold : ∀ {w : ℕ} {p : Worker} {item : QueueItem}, t.workers[w]? = some p →
      p.item = some item → ∃ q, s.workers[w]? = some q ∧ q.item = some item := by
    intro w p item hp hcarries
    rw [hworkers, List.getElem?_set] at hp
    split_ifs at hp with hw
    · obtain rfl := Option.some.inj hp
      rcases hitem with hitem | hitem
      · exact ⟨phase, hw ▸ hphase, hitem ▸ hcarries⟩
      · rw [hitem] at hcarries
        cases hcarries
    · exact ⟨p, hp, hcarries⟩
  refine ⟨hwaiting ▸ h.nodup, fun m hm => ?_, fun p hp item hcarries => ?_, ?_⟩
  · rw [hsequence]
    exact h.waiting_lt m (hwaiting ▸ hm)
  · obtain ⟨w, hw⟩ := List.mem_iff_getElem?.mp hp
    obtain ⟨q, hq, hcarried⟩ := hold hw hcarries
    rw [hsequence, hwaiting]
    exact h.carried q (List.mem_of_getElem? hq) item hcarried
  · intro v w p p' item item' hv hw hp hp' heq
    obtain ⟨q, hq, hqitem⟩ := hold hv hp
    obtain ⟨q', hq', hqitem'⟩ := hold hw hp'
    exact h.single v w q q' item item' hq hq' hqitem hqitem' heq

/-- An item leaves the queue for one worker, or is dropped. -/
theorem OneHand.take (h : OneHand s) {worker : ℕ} {first : QueueItem}
    (hitem : phase'.item = some first ∨ phase'.item = none)
    (hqueued : s.queued = first :: t.queued) (hputters : t.putters = s.putters)
    (hsequence : t.sequence = s.sequence) (hworkers : t.workers = s.workers.set worker phase') :
    OneHand t := by
  have hwaiting : s.waiting = first.sequence :: t.waiting := by
    rw [BrokerSystem.waiting, BrokerSystem.waiting, hqueued, hputters]
    rfl
  have hnodup := h.nodup
  rw [hwaiting, List.nodup_cons] at hnodup
  obtain ⟨hfirst, hnodup⟩ := hnodup
  have hfirst_lt : first.sequence < s.sequence :=
    h.waiting_lt _ (hwaiting ▸ List.mem_cons_self)
  -- Another worker's item was not in the queue, so that it is not the one that was taken.
  have hother : ∀ {w : ℕ} {p : Worker} {item : QueueItem}, s.workers[w]? = some p →
      p.item = some item → item.sequence < s.sequence ∧ item.sequence ≠ first.sequence ∧
        item.sequence ∉ t.waiting := by
    intro w p item hp hcarries
    obtain ⟨hlt, hnot⟩ := h.carried p (List.mem_of_getElem? hp) item hcarries
    rw [hwaiting, List.mem_cons, not_or] at hnot
    exact ⟨hlt, hnot⟩
  have hset : ∀ {w : ℕ} {p : Worker} {item : QueueItem}, t.workers[w]? = some p →
      p.item = some item →
      w = worker ∧ item = first ∨ w ≠ worker ∧ s.workers[w]? = some p := by
    intro w p item hp hcarries
    rw [hworkers, List.getElem?_set] at hp
    split_ifs at hp with hw
    · obtain rfl := Option.some.inj hp
      rcases hitem with hitem | hitem
      · exact Or.inl ⟨hw.symm, Option.some.inj (hcarries.symm.trans hitem)⟩
      · rw [hitem] at hcarries
        cases hcarries
    · exact Or.inr ⟨Ne.symm hw, hp⟩
  refine ⟨hnodup, fun m hm => ?_, fun p hp item hcarries => ?_, ?_⟩
  · rw [hsequence]
    exact h.waiting_lt m (hwaiting ▸ List.mem_cons_of_mem _ hm)
  · obtain ⟨w, hw⟩ := List.mem_iff_getElem?.mp hp
    rw [hsequence]
    rcases hset hw hcarries with ⟨-, rfl⟩ | ⟨-, hw⟩
    · exact ⟨hfirst_lt, hfirst⟩
    · obtain ⟨hlt, -, hnot⟩ := hother hw hcarries
      exact ⟨hlt, hnot⟩
  · intro v w p p' item item' hv hw hp hp' heq
    rcases hset hv hp with ⟨rfl, rfl⟩ | ⟨-, hv⟩
    · rcases hset hw hp' with ⟨rfl, -⟩ | ⟨-, hw⟩
      · rfl
      · exact absurd heq.symm (hother hw hp').2.1
    · rcases hset hw hp' with ⟨-, rfl⟩ | ⟨-, hw⟩
      · exact absurd heq (hother hv hp).2.1
      · exact h.single v w p p' item item' hv hw hp hp' heq

/-- Every step keeps the items apart. -/
theorem OneHand.step (h : OneHand s) (hstep : s.step a = some t) : OneHand t := by
  cases a with
  | work worker move =>
    obtain ⟨phase, shared, phase', hphase, hwork, rfl⟩ := step_work hstep
    obtain ⟨hsequence, -, hitem⟩ := workerStep_item hwork
    rcases hitem with ⟨hitems, hitem⟩ | ⟨first, hitems, -, hitem⟩
    · refine h.set hphase hitem ?_ hsequence rfl
      unfold BrokerSystem.waiting BrokerSystem.queued
      dsimp only
      rw [hitems]
    · exact h.take hitem hitems rfl hsequence rfl
  | cancel worker =>
    obtain ⟨phase, hphase, -, rfl⟩ := step_cancel hstep
    exact h.set hphase (Or.inr rfl) rfl rfl rfl
  | _ => exact h.arrives (step_arrives rfl hstep)

/-- A new broker has no items. -/
theorem OneHand.init {broker : MessageBroker} (hempty : broker.queue.items = []) (now : ℚ) :
    OneHand (.init broker now) := by
  have hwaiting : (BrokerSystem.init broker now).waiting = [] := by
    unfold BrokerSystem.waiting BrokerSystem.queued BrokerSystem.init
    dsimp only
    rw [hempty]
    rfl
  refine ⟨hwaiting ▸ List.nodup_nil, fun m hm => ?_, fun p hp => (by cases hp), ?_⟩
  · rw [hwaiting] at hm
    cases hm
  · intro v w p p' item item' hv
    cases hv

end MeshRouter.Broker
