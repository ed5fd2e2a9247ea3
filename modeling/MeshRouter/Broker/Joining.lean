import MeshRouter.Broker.Drain
import MeshRouter.Broker.Items
import MeshRouter.Lib.Observed

/-!
# When a queue can be joined

`stop` waits in `self._queue.join()` until every item that was put has been reported as done. The
queue counts the items that have not been (`unfinished`), and the count says no more than a number.
`Balanced` says what it counts: the items that are queued, those that a worker dispatches, and those
that a worker gave up when it was cancelled or could not say why a delivery failed, which nobody
will report. So `task_done` is called at
most once for an item, the wait of `stop` ends only when nothing is queued and nothing is being
dispatched, and after a single dispatch was given up it does not end at all (`joined_iff`).
-/

namespace MeshRouter.Broker

open Lib Messages

/-- The item that a worker gives up in a move, without reporting it as done: its handler ends with
what is no `Exception`, or the exception of the last attempt has no text. -/
def Worker.abandons (maxDeliveryAttempts : ℤ) (phase : Worker) : WorkerMove → List QueueItem
  | .handle .cancelledError => phase.item.toList
  | .handle (.raised none) =>
    match phase with
    | .handling item _ attempt _ => if attempt < maxDeliveryAttempts then [] else [item]
    | _ => []
  | _ => []

/-- The item that is given up in a step of the system. -/
def abandoned (s : BrokerSystem) : BrokerAction → List QueueItem
  | .work worker move =>
    match s.workers[worker]? with
    | none => []
    | some phase => phase.abandons s.broker.maxDeliveryAttempts move
  | .cancel worker =>
    match s.workers[worker]? with
    | none => []
    | some phase => phase.item.toList
  | _ => []

/-- The items that the workers are dispatching. -/
def BrokerSystem.carried (s : BrokerSystem) : List QueueItem := s.workers.filterMap Worker.item

variable {s t : BrokerSystem} {a : BrokerAction} {past : List QueueItem}

/-- What the queue counts as unfinished, once the items in `past` were given up. -/
def Balanced (past : List QueueItem) (s : BrokerSystem) : Prop :=
  s.unfinished = s.queued.length + s.carried.length + past.length

/-- How many items a worker is dispatching: none or one. -/
def Worker.load (phase : Worker) : ℕ := phase.item.toList.length

/-- What the other workers carry does not depend on where one of them goes. -/
theorem exists_carried_others {workers : List Worker} {worker : ℕ} {phase : Worker}
    (hphase : workers[worker]? = some phase) :
    ∃ others, (workers.filterMap Worker.item).length = phase.load + others ∧
      ∀ phase', ((workers.set worker phase').filterMap Worker.item).length =
        phase'.load + others := by
  obtain ⟨hlt, hget⟩ := List.getElem?_eq_some_iff.mp hphase
  obtain ⟨others, hload⟩ : ∃ others, ∀ p : Worker,
      ((workers.take worker ++ p :: workers.drop (worker + 1)).filterMap Worker.item).length =
        p.load + others := by
    refine ⟨((workers.take worker).filterMap Worker.item).length +
      ((workers.drop (worker + 1)).filterMap Worker.item).length, fun p => ?_⟩
    have hone : ([p].filterMap Worker.item).length = p.load := by
      rw [Worker.load, List.filterMap_cons]
      cases p.item with
      | none => rfl
      | some => rfl
    rw [List.filterMap_append, List.length_append, ← List.singleton_append, List.filterMap_append,
      List.length_append, hone, Nat.add_left_comm]
  refine ⟨others, ?_, fun phase' => ?_⟩
  · have hsplit : workers = workers.take worker ++ phase :: workers.drop (worker + 1) := by
      rw [← hget, List.cons_getElem_drop_succ, List.take_append_drop]
    exact (congrArg (fun l => (l.filterMap Worker.item).length) hsplit).trans (hload phase)
  · rw [List.set_eq_take_append_cons_drop, if_pos hlt]
    exact hload phase'

/-- After a target, a worker reports its item as done or goes on with it. -/
theorem next_balance (shared : Shared) (item : QueueItem) (rest : List String) {k : ℕ}
    (hbalance : shared.broker.queue.queue.unfinished = shared.broker.queue.items.length + 1 + k) :
    (shared.next item rest).1.broker.queue.queue.unfinished =
      (shared.next item rest).1.broker.queue.items.length +
        (shared.next item rest).2.load + 0 + k := by
  cases rest with
  | nil =>
    change shared.broker.queue.queue.unfinished - 1 = shared.broker.queue.items.length + 0 + 0 + k
    omega
  | cons => exact hbalance

/-- A turn of `get` passes the item to the worker, or drops it and reports it as done. -/
theorem take_balance {now : ℚ} {shared shared' : Shared} {phase' : Worker}
    (h : workerStep now shared .waiting .take = some (shared', phase')) {k : ℕ}
    (hbalance : shared.broker.queue.queue.unfinished =
      shared.broker.queue.items.length + 0 + k) :
    shared'.broker.queue.queue.unfinished =
      shared'.broker.queue.items.length + phase'.load + 0 + k := by
  obtain ⟨item, queue, hitems, rfl, -, htaken⟩ := takes_of_take h
  rw [hitems, List.length_cons] at hbalance
  change queue.queue.unfinished = queue.items.length + phase'.load + 0 + k
  rcases htaken with ⟨rfl, hunfinished⟩ | ⟨rfl, hunfinished⟩
  · have hload : (Worker.dispatching item).load = 1 := rfl
    omega
  · have hload : Worker.waiting.load = 0 := rfl
    omega

/-- What a step of a worker does to the balance of the queue, when `k` is what the others count. -/
theorem workerStep_balance {now : ℚ} {shared shared' : Shared} {phase phase' : Worker}
    {move : WorkerMove} (h : workerStep now shared phase move = some (shared', phase')) {k : ℕ}
    (hbalance : shared.broker.queue.queue.unfinished =
      shared.broker.queue.items.length + phase.load + k) :
    shared'.broker.queue.queue.unfinished =
      shared'.broker.queue.items.length + phase'.load +
        (phase.abandons shared.broker.maxDeliveryAttempts move).length + k := by
  cases workerStep_cases h with
  | again | leave | timeout | dispatch | resolve | resume | deliver | cancelled => exact hbalance
  | @retry item target attempt rest message hlt =>
    -- An attempt follows, so nothing is given up.
    have hnone : (Worker.handling item target attempt rest).abandons
        shared.broker.maxDeliveryAttempts (.handle (.raised message)) = [] := by
      cases message with
      | none => exact if_pos hlt
      | some _ => rfl
    rw [hnone]
    exact hbalance
  | @unprintable item target attempt rest hge =>
    have hgiven : (Worker.handling item target attempt rest).abandons
        shared.broker.maxDeliveryAttempts (.handle (.raised none)) = [item] :=
      if_neg (not_lt.mpr hge)
    rw [hgiven]
    exact hbalance
  | drop | take => exact take_balance h hbalance
  | @expired item | @noSubscriber item => exact next_balance _ item [] hbalance
  | disappeared | exhausted | returned => exact next_balance _ _ _ hbalance

/-- A step of a caller puts what it counts. -/
theorem Balanced.arrives (h : Balanced past s) (harrives : Arrives s t) : Balanced past t := by
  obtain ⟨⟨n, hworkers⟩, -, -, hunfinished, -, -⟩ := harrives
  have hcarried : t.carried = s.carried := by
    rw [BrokerSystem.carried, BrokerSystem.carried, hworkers, List.filterMap_append]
    have hnew : (List.replicate n Worker.polling).filterMap Worker.item = [] :=
      List.filterMap_eq_nil_iff.mpr fun phase hphase => by
        rw [List.eq_of_mem_replicate hphase]
        rfl
    rw [hnew, List.append_nil]
  have hbalance : s.unfinished = s.queued.length + s.carried.length + past.length := h
  change t.unfinished = t.queued.length + t.carried.length + past.length
  rw [hcarried]
  omega

/-- Every step keeps the balance, with what it gives up. -/
theorem Balanced.step (h : Balanced past s) (hstep : s.step a = some t) :
    Balanced (past ++ abandoned s a) t := by
  cases a with
  | work worker move =>
    obtain ⟨phase, shared, phase', hphase, hwork, rfl⟩ := step_work hstep
    obtain ⟨others, hcarried, hcarried'⟩ := exists_carried_others hphase
    have hgiven : abandoned s (.work worker move) =
        phase.abandons s.shared.broker.maxDeliveryAttempts move := by
      simp only [abandoned, hphase, BrokerSystem.broker]
    have hbalance : s.shared.broker.queue.queue.unfinished =
        s.shared.broker.queue.items.length + phase.load + (others + past.length) := by
      have hbefore : s.unfinished = s.queued.length + s.carried.length + past.length := h
      rw [BrokerSystem.carried, hcarried] at hbefore
      exact hbefore.trans (by rw [BrokerSystem.queued]; omega)
    have hafter := workerStep_balance hwork hbalance
    rw [hgiven]
    unfold Balanced BrokerSystem.unfinished BrokerSystem.queued BrokerSystem.carried
    rw [hcarried', List.length_append, hafter]
    dsimp only
    omega
  | cancel worker =>
    obtain ⟨phase, hphase, -, rfl⟩ := step_cancel hstep
    obtain ⟨others, hcarried, hcarried'⟩ := exists_carried_others hphase
    have hgiven : abandoned s (.cancel worker) = phase.item.toList := by
      simp only [abandoned, hphase]
    have hbefore : s.unfinished = s.queued.length + s.carried.length + past.length := h
    rw [BrokerSystem.carried, hcarried] at hbefore
    rw [hgiven]
    -- What the worker carried is given up, and it carries nothing any more.
    have hleft : Worker.left.load = 0 := rfl
    change s.unfinished = s.queued.length + ((s.workers.set worker .left).filterMap _).length + _
    rw [hcarried', hleft, List.length_append, hbefore, Worker.load]
    omega
  | _ =>
    change Balanced (past ++ []) t
    rw [List.append_nil]
    exact h.arrives (step_arrives rfl hstep)

/-- A new broker has nothing unfinished. -/
theorem Balanced.init {queueMaxsize dlqMaxsize maxDeliveryAttempts dispatchWorkers : ℤ}
    {discardExpired : Bool} {broker : MessageBroker}
    (hinit : MessageBroker.init queueMaxsize dlqMaxsize maxDeliveryAttempts dispatchWorkers
      discardExpired = .ok broker) (now : ℚ) : Balanced [] (.init broker now) := by
  unfold MessageBroker.init DeadLetterQueue.init at hinit
  split_ifs at hinit
  obtain rfl := Except.ok.inj hinit
  rfl

/-- In every run of a broker, the queue counts as unfinished exactly the items that are queued, that
a worker dispatches, and that a worker gave up, so that `task_done` is never called once
too often. The wait of a `stop` can end before it times out exactly when nothing is queued, nothing
is being dispatched, and no dispatch was given up in the whole run. -/
theorem joined_iff {queueMaxsize dlqMaxsize maxDeliveryAttempts dispatchWorkers : ℤ}
    {discardExpired : Bool} {broker : MessageBroker} {now : ℚ} {as : List BrokerAction}
    (hinit : MessageBroker.init queueMaxsize dlqMaxsize maxDeliveryAttempts dispatchWorkers
      discardExpired = .ok broker)
    (hrun : run BrokerSystem.step (.init broker now) as = some t) :
    t.unfinished = t.queued.length + t.carried.length +
        (observed BrokerSystem.step abandoned (.init broker now) as).length ∧
      ∀ call, (t.step (.joined call)).isSome ↔ t.stops[call]? = some .draining ∧ t.queued = [] ∧
        (∀ phase ∈ t.workers, phase.item = none) ∧
        observed BrokerSystem.step abandoned (.init broker now) as = [] := by
  have hbalanced : Balanced (observed BrokerSystem.step abandoned (.init broker now) as) t :=
    observed_induction (I := Balanced) (fun _ _ _ _ h hstep => h.step hstep) (.init hinit now) hrun
  have hbalance : t.unfinished = t.queued.length + t.carried.length +
      (observed BrokerSystem.step abandoned (.init broker now) as).length := hbalanced
  refine ⟨hbalance, fun call => ?_⟩
  have hjoined : (t.step (.joined call)).isSome ↔
      t.stops[call]? = some .draining ∧ t.unfinished = 0 := by
    unfold BrokerSystem.step
    dsimp only
    split_ifs with hcan
    · exact iff_of_true rfl hcan
    · exact iff_of_false (by simp) hcan
  have hcarried : t.carried = [] ↔ ∀ phase ∈ t.workers, phase.item = none :=
    List.filterMap_eq_nil_iff
  rw [hjoined, ← hcarried, hbalance, Nat.add_eq_zero_iff, Nat.add_eq_zero_iff,
    List.length_eq_zero_iff, List.length_eq_zero_iff, List.length_eq_zero_iff, and_assoc]

/-- A message is dispatched, and the handler returns while `stop` waits for the queue to drain. -/
def deliveredInTime : List BrokerAction :=
  [.subscribe "agent-b" "handler", .start, .publish (message "m1"), .work 0 .poll, .work 0 .take,
    .work 0 .dispatch, .work 0 (.resolve ["agent-b"]), .work 0 .deliver, .stop,
    .work 0 (.handle .returned)]

/-- `joined_iff` on this run. -/
theorem joined_iff_deliveredInTime :
    ∃ t, run BrokerSystem.step (.init oneWorker 0) deliveredInTime = some t ∧
      (t.step (.joined 0)).isSome ∧ t.queued = [] ∧ ∀ phase ∈ t.workers, phase.item = none := by
  obtain ⟨t, ht⟩ := Option.isSome_iff_exists.mp
    (show (run BrokerSystem.step (.init oneWorker 0) deliveredInTime).isSome by decide +kernel)
  have hcan : ((run BrokerSystem.step (.init oneWorker 0) deliveredInTime).bind
      (·.step (.joined 0))).isSome := by decide +kernel
  rw [ht] at hcan
  have hinit : MessageBroker.init 0 1000 3 1 true = .ok oneWorker := rfl
  obtain ⟨-, hqueued, hnone, -⟩ := ((joined_iff hinit ht).2 0).mp hcan
  exact ⟨t, ht, hcan, hqueued, hnone⟩

end MeshRouter.Broker
