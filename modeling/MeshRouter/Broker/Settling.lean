import Mathlib.Algebra.Order.BigOperators.Group.List
import Mathlib.Algebra.Order.Ring.Nat
import Mathlib.Data.Finset.Card
import MeshRouter.Broker.Joining
import MeshRouter.Broker.NoLoss
import MeshRouter.Lib.Workload

/-!
# The broker settles

Between publishes, a broker has a bounded amount of work. A worker makes three moves for an attempt
at a target, and no more attempts than `max_delivery_attempts`; an item has at most as many targets
as there are handlers; and what is queued is taken once. `workload` adds this up over the queue, the
publishes that wait for room, and the workers, and every step but a publish and a new handler keeps
to it: `workerStep_work` says so for a worker, in whichever place it stands, and `step_workload` for
the system. So in every interleaving the moves that bring a delivery on come to an end
(`settles_of_quiet`), and when they have, nothing is being dispatched, and nothing is queued either
if a worker still waits.
-/

namespace MeshRouter.Broker

open Lib Messages

/-! ## What is work -/

/-- The move brings the dispatch of an item on. -/
def WorkerMove.works : WorkerMove → Bool
  | .poll | .timeout => false
  | .take | .dispatch | .resolve _ | .deliver | .handle _ | .resume => true

/-- The action brings an item on: a move of a worker that dispatches it or takes it out of the
queue, or a put of one that waited for room. -/
def BrokerAction.works : BrokerAction → Bool
  | .work _ move => move.works
  | .put _ => true
  | _ => false

/-- The action brings new work: an envelope, or a handler. -/
def BrokerAction.brings : BrokerAction → Bool
  | .publish _ | .publishNowait _ | .subscribe _ _ => true
  | _ => false

/-- How many attempts a target has at most: the first is made in any case. -/
def MessageBroker.attempts (b : MessageBroker) : ℕ := max 1 b.maxDeliveryAttempts.toNat

/-- How many moves a target takes at most that is given its first attempt: three for each, but no
pause after the last. -/
def MessageBroker.targetWork (b : MessageBroker) : ℕ := 3 * (b.attempts - 1) + 2

/-- How many moves the targets of an item take at most. -/
def MessageBroker.targetsWork (b : MessageBroker) : ℕ :=
  b.agentHandlers.keys.length * b.targetWork

/-- How many moves a worker has ahead of it at most, before it is at the top of its loop again. -/
def Worker.work (b : MessageBroker) : Worker → ℕ
  | .polling | .waiting | .left => 0
  | .dispatching _ => b.targetsWork + 2
  | .resolving _ => b.targetsWork + 1
  | .delivering _ _ attempt rest => 3 * (b.attempts - attempt) + 2 + rest.length * b.targetWork
  | .handling _ _ attempt rest => 3 * (b.attempts - attempt) + 1 + rest.length * b.targetWork
  | .backoff _ _ attempt rest => 3 * (b.attempts - attempt) + rest.length * b.targetWork

/-- How many moves are ahead at most: for the items in the queue, for those that wait for room, and
for those that are being dispatched. -/
def BrokerSystem.workload (s : BrokerSystem) : ℕ :=
  s.queued.length * (s.broker.targetsWork + 3) + s.putters.length * (s.broker.targetsWork + 4) +
    (s.workers.map (Worker.work s.broker)).sum

/-- A pause comes before another attempt only. -/
def Worker.Pausing (b : MessageBroker) : Worker → Prop
  | .backoff _ _ attempt _ => (attempt : ℤ) < b.maxDeliveryAttempts
  | _ => True

/-! ## The steps of a worker -/

section Worker

variable {now : ℚ} {s s' : Shared} {phase phase' : Worker} {move : WorkerMove}

/-- A worker registers no handler, and does not change the number of attempts. -/
theorem workerStep_broker (h : workerStep now s phase move = some (s', phase')) :
    s'.broker.agentHandlers = s.broker.agentHandlers ∧
      s'.broker.maxDeliveryAttempts = s.broker.maxDeliveryAttempts := by
  have hnext : ∀ (s : Shared) (item : QueueItem) (rest : List String),
      (s.next item rest).1.broker.agentHandlers = s.broker.agentHandlers ∧
        (s.next item rest).1.broker.maxDeliveryAttempts = s.broker.maxDeliveryAttempts := by
    intro s item rest
    cases rest with
    | nil => exact ⟨rfl, rfl⟩
    | cons => exact ⟨rfl, rfl⟩
  cases workerStep_cases h with
  | disappeared | exhausted => exact hnext _ _ _
  | returned => exact hnext _ _ _
  | _ => exact ⟨rfl, rfl⟩

/-- A worker pauses only before an attempt that it may make. -/
theorem workerStep_pausing (h : workerStep now s phase move = some (s', phase')) :
    phase'.Pausing s'.broker := by
  have hnext : ∀ {s s' : Shared} {item : QueueItem} {rest : List String} {phase' : Worker},
      s.next item rest = (s', phase') → phase'.Pausing s'.broker := by
    rintro s s' item (_ | ⟨target, rest⟩) phase' hnext
    · obtain ⟨-, rfl⟩ := Prod.mk.inj hnext
      trivial
    · obtain ⟨-, rfl⟩ := Prod.mk.inj hnext
      trivial
  cases workerStep_cases h with
  | retry hagain => exact hagain
  | disappeared | exhausted | returned => exact hnext rfl
  | _ => trivial

/-- The targets have handlers, so that there are no more of them than handlers. -/
theorem length_targets_le {b : MessageBroker} {envelope : MessageEnvelope} {targets : List String}
    (hnodup : targets.Nodup) (htargets : targets.toFinset = b.resolveTargets envelope) :
    targets.length ≤ b.agentHandlers.keys.length := by
  have hsub : b.resolveTargets envelope ⊆ b.agentHandlers.keys.toFinset := by
    intro target htarget
    unfold MessageBroker.resolveTargets at htarget
    dsimp only at htarget
    rw [List.mem_toFinset]
    rcases Finset.mem_union.mp htarget with hdirect | htopic
    · split_ifs at hdirect with hall hmem
      · exact List.mem_toFinset.mp hdirect
      · rwa [Finset.mem_singleton.mp hdirect]
      · exact absurd hdirect (Finset.notMem_empty target)
    · split at htopic
      · exact absurd htopic (Finset.notMem_empty target)
      · split_ifs at htopic
        · exact absurd htopic (Finset.notMem_empty target)
        · exact (Finset.mem_filter.mp htopic).2
  calc targets.length = targets.toFinset.card := (List.toFinset_card_of_nodup hnodup).symm
    _ ≤ b.agentHandlers.keys.toFinset.card := Finset.card_le_card (htargets ▸ hsub)
    _ ≤ b.agentHandlers.keys.length := List.toFinset_card_le _

/-- What is ahead after a target: the first attempts at the targets that follow. -/
theorem work_next (b : MessageBroker) (s : Shared) (item : QueueItem) (rest : List String) :
    (s.next item rest).2.work b = rest.length * b.targetWork := by
  cases rest with
  | nil => exact (Nat.zero_mul _).symm
  | cons target rest =>
    rw [List.length_cons, Nat.succ_mul, Nat.add_comm]
    rfl

/-- A step of a worker keeps to the work that is ahead, and a move that brings an item on does some
of it. -/
theorem workerStep_work (h : workerStep now s phase move = some (s', phase'))
    (hpausing : phase.Pausing s.broker) :
    phase'.work s.broker + s'.broker.queue.items.length * (s.broker.targetsWork + 3) +
        move.works.toNat ≤
      phase.work s.broker + s.broker.queue.items.length * (s.broker.targetsWork + 3) := by
  cases workerStep_cases h with
  | again | leave | timeout => exact Nat.le_refl _
  | @drop item queue hitems | @take item queue hitems =>
    -- The item that leaves the queue is worth more than what its dispatch has ahead.
    rw [hitems, List.length_cons, Nat.succ_mul]
    dsimp only [Worker.work, Shared.withQueue, WorkerMove.works, Bool.toNat_true]
    omega
  | expired | noSubscriber | dispatch | cancelled | unprintable | deliver | retry =>
    dsimp only [Worker.work, Shared.finish, Shared.deadLetter, Shared.hand,
      MessageBroker.deadLetter, MessageBroker.taskDone, PriorityMessageQueue.items,
      PriorityMessageQueue.taskDone, MinQueue.taskDone, WorkerMove.works, Bool.toNat_true]
    omega
  | @resolve item target rest =>
    unfold workerStep at h
    dsimp only at h
    split_ifs at h with htargets
    have hcount := Nat.mul_le_mul_right s.broker.targetWork
      (length_targets_le htargets.1 htargets.2)
    rw [List.length_cons, Nat.succ_mul] at hcount
    have hfirst : Worker.work s.broker (.delivering item target 1 rest) =
        s.broker.targetWork + rest.length * s.broker.targetWork := rfl
    have htargetsWork : s.broker.agentHandlers.keys.length * s.broker.targetWork =
        s.broker.targetsWork := rfl
    rw [hfirst]
    dsimp only [Worker.work, WorkerMove.works, Bool.toNat_true]
    omega
  | disappeared | exhausted | returned =>
    rw [Shared.items_next, work_next]
    dsimp only [Worker.work, Shared.deadLetter, MessageBroker.deadLetter,
      WorkerMove.works, Bool.toNat_true]
    omega
  | resume =>
    -- The attempt is not the last, so that there is one more to count.
    have hagain : _ < s.broker.attempts := lt_max_of_lt_right (Int.lt_toNat.mpr hpausing)
    dsimp only [Worker.work, WorkerMove.works, Bool.toNat_true]
    omega

/-- A worker that dispatches an item can bring it on. -/
theorem exists_move_of_item (now : ℚ) (s : Shared) {item : QueueItem}
    (hitem : phase.item = some item) :
    ∃ move, move.works = true ∧ (workerStep now s phase move).isSome := by
  cases phase with
  | polling | waiting | left => cases hitem
  | dispatching item =>
    refine ⟨.dispatch, rfl, ?_⟩
    unfold workerStep
    dsimp only
    split_ifs
    · rfl
    · rfl
  | resolving item =>
    -- In any order of the targets.
    refine ⟨.resolve (s.broker.resolveTargets item.envelope).toList, rfl, ?_⟩
    unfold workerStep
    dsimp only
    rw [if_pos ⟨Finset.nodup_toList _, Finset.toList_toFinset _⟩]
    split
    · rfl
    · rfl
  | delivering item target attempt rest =>
    refine ⟨.deliver, rfl, ?_⟩
    unfold workerStep
    dsimp only
    split
    · rfl
    · rfl
  | handling => exact ⟨.handle .returned, rfl, rfl⟩
  | backoff => exact ⟨.resume, rfl, rfl⟩

/-- A worker that waits can take an item out of a queue that has one. -/
theorem take_isSome {item : QueueItem} (now : ℚ) (hitem : item ∈ s.broker.queue.items) :
    (workerStep now s .waiting .take).isSome := by
  have hround : s.broker.queue.getRound now ≠ none := by
    intro hnone
    have hempty := MinQueue.get_eq_none.mp (Option.map_eq_none_iff.mp hnone)
    exact absurd (hempty ▸ hitem : item ∈ []) List.not_mem_nil
  unfold workerStep
  dsimp only
  split
  · rename_i hnone
    exact absurd hnone hround
  · rfl
  · rfl

end Worker

/-! ## The system -/

section System

variable {s t : BrokerSystem} {a : BrokerAction}

/-- The workers pause only before an attempt that they may make. -/
def Pausing (s : BrokerSystem) : Prop := ∀ phase ∈ s.workers, phase.Pausing s.broker

/-- Every step keeps to that. -/
theorem Pausing.step (h : Pausing s) (hstep : s.step a = some t) : Pausing t := by
  have hbroker : ∀ {b b' : MessageBroker} {phase : Worker},
      b'.maxDeliveryAttempts = b.maxDeliveryAttempts → phase.Pausing b → phase.Pausing b' := by
    intro b b' phase hattempts hphase
    cases phase with
    | backoff item target attempt rest =>
      change (attempt : ℤ) < b'.maxDeliveryAttempts
      rw [hattempts]
      exact hphase
    | _ => trivial
  cases a with
  | work worker move =>
    obtain ⟨phase, shared, phase', hphase, hwork, rfl⟩ := step_work hstep
    intro p hp
    rcases List.mem_or_eq_of_mem_set hp with hp | rfl
    · exact hbroker (workerStep_broker hwork).2 (h p hp)
    · exact workerStep_pausing hwork
  | cancel worker =>
    obtain ⟨phase, hphase, -, rfl⟩ := step_cancel hstep
    intro p hp
    rcases List.mem_or_eq_of_mem_set hp with hp | rfl
    · exact h p hp
    · trivial
  | _ =>
    obtain ⟨⟨n, hworkers⟩, hattempts, -⟩ := step_arrives rfl hstep
    intro p hp
    rw [hworkers] at hp
    rcases List.mem_append.mp hp with hp | hp
    · exact hbroker hattempts (h p hp)
    · rw [List.eq_of_mem_replicate hp]
      trivial

/-- With no more handlers, a worker has no more ahead of it. -/
theorem Worker.work_mono {b b' : MessageBroker}
    (hattempts : b'.maxDeliveryAttempts = b.maxDeliveryAttempts)
    (hhandlers : b'.agentHandlers.keys.length ≤ b.agentHandlers.keys.length) (phase : Worker) :
    b'.targetsWork ≤ b.targetsWork ∧ phase.work b' ≤ phase.work b := by
  have hsame : b'.attempts = b.attempts := by
    unfold MessageBroker.attempts
    rw [hattempts]
  have htarget : b'.targetWork = b.targetWork := by
    unfold MessageBroker.targetWork
    rw [hsame]
  have htargets : b'.targetsWork ≤ b.targetsWork := by
    unfold MessageBroker.targetsWork
    rw [htarget]
    exact Nat.mul_le_mul_right _ hhandlers
  refine ⟨htargets, ?_⟩
  cases phase with
  | polling | waiting | left => exact Nat.le_refl _
  | dispatching => exact Nat.add_le_add_right htargets 2
  | resolving => exact Nat.add_le_add_right htargets 1
  | delivering | handling | backoff =>
    dsimp only [Worker.work]
    rw [hsame, htarget]

/-- A step that adds no handler, no item, and at most workers with nothing to dispatch adds no
work. -/
theorem workload_le (hattempts : t.broker.maxDeliveryAttempts = s.broker.maxDeliveryAttempts)
    (hhandlers : t.broker.agentHandlers.keys.length ≤ s.broker.agentHandlers.keys.length)
    (hqueued : t.queued.length = s.queued.length) (hputters : t.putters = s.putters)
    (hworkers : ∃ n, t.workers = s.workers ++ List.replicate n .polling) :
    t.workload ≤ s.workload := by
  obtain ⟨n, hworkers⟩ := hworkers
  have hmono := Worker.work_mono hattempts hhandlers
  have hsum : (t.workers.map (Worker.work t.broker)).sum ≤
      (s.workers.map (Worker.work s.broker)).sum := by
    have hidle : ((List.replicate n Worker.polling).map (Worker.work t.broker)).sum = 0 := by
      rw [List.map_replicate, List.sum_replicate]
      exact Nat.mul_zero n
    rw [hworkers, List.map_append, List.sum_append, hidle, Nat.add_zero]
    exact List.sum_le_sum fun phase _ => (hmono phase).2
  unfold BrokerSystem.workload
  rw [hqueued, hputters]
  have hitems := Nat.mul_le_mul_left s.queued.length
    (Nat.add_le_add_right (hmono .polling).1 3)
  have hwaiting := Nat.mul_le_mul_left s.putters.length
    (Nat.add_le_add_right (hmono .polling).1 4)
  omega

/-- A put moves an item into the queue, where it is closer to its end. -/
theorem put_workload {putter : ℕ} (hstep : s.step (.put putter) = some t) :
    t.workload + 1 ≤ s.workload := by
  unfold BrokerSystem.step at hstep
  dsimp only at hstep
  split at hstep
  · cases hstep
  · rename_i item hputter
    obtain ⟨hqueued, -, -, hputters, hworkers, -⟩ := enqueue_cases hstep
    have hone : s.putters.length = (s.putters.eraseIdx putter).length + 1 := by
      have hlt := (List.getElem?_eq_some_iff.mp hputter).1
      rw [List.length_eraseIdx_of_lt hlt]
      omega
    have hmore : t.queued.length = s.queued.length + 1 := hqueued.length_eq
    have htargets : t.broker.targetsWork = s.broker.targetsWork := by
      obtain ⟨queue, -, rfl⟩ := Option.map_eq_some_iff.mp hstep
      rfl
    have hwork : Worker.work t.broker = Worker.work s.broker := by
      obtain ⟨queue, -, rfl⟩ := Option.map_eq_some_iff.mp hstep
      rfl
    unfold BrokerSystem.workload
    rw [hmore, hputters, hworkers, hone, htargets, hwork, Nat.succ_mul, Nat.succ_mul]
    dsimp only
    omega

/-- Every step keeps to the work that is ahead, unless it brings new work, and what brings an item
on does some of it. -/
theorem step_workload (hpausing : Pausing s) (hquiet : a.brings = false)
    (hstep : s.step a = some t) : t.workload + a.works.toNat ≤ s.workload := by
  have hnone : ∀ workers : List Worker, ∃ n, workers = workers ++ List.replicate n .polling :=
    fun workers => ⟨0, (List.append_nil _).symm⟩
  cases a with
  | subscribe | publish | publishNowait => cases hquiet
  | put putter => exact put_workload hstep
  | work worker move =>
    obtain ⟨phase, shared, phase', hphase, hwork, rfl⟩ := step_work hstep
    obtain ⟨hhandlers, hattempts⟩ := workerStep_broker hwork
    have hworker := workerStep_work hwork (hpausing phase (List.mem_of_getElem? hphase))
    obtain ⟨others, hsum, hsum'⟩ := exists_sum_others hphase (Worker.work s.broker)
    -- A worker changes nothing that the work of the others depends on.
    have htargets : shared.broker.targetsWork = s.broker.targetsWork := by
      change shared.broker.targetsWork = s.shared.broker.targetsWork
      unfold MessageBroker.targetsWork MessageBroker.targetWork MessageBroker.attempts
      rw [hhandlers, hattempts]
    have hsame : Worker.work shared.broker = Worker.work s.broker := funext fun p =>
      Nat.le_antisymm
        (Worker.work_mono hattempts (congrArg (·.keys.length) hhandlers).le p).2
        (Worker.work_mono hattempts.symm (congrArg (·.keys.length) hhandlers).ge p).2
    unfold BrokerSystem.workload
    change shared.broker.queue.items.length * (shared.broker.targetsWork + 3) +
      s.putters.length * (shared.broker.targetsWork + 4) +
      ((s.workers.set worker phase').map (Worker.work shared.broker)).sum + move.works.toNat ≤ _
    rw [htargets, hsame, hsum, hsum' phase']
    change phase'.work s.broker + shared.broker.queue.items.length * (s.broker.targetsWork + 3) +
      move.works.toNat ≤ phase.work s.broker + s.queued.length * (s.broker.targetsWork + 3)
        at hworker
    omega
  | cancel worker =>
    obtain ⟨phase, hphase, -, rfl⟩ := step_cancel hstep
    obtain ⟨others, hsum, hsum'⟩ := exists_sum_others hphase (Worker.work s.broker)
    have hleft : Worker.work s.broker .left = 0 := rfl
    unfold BrokerSystem.workload
    change s.queued.length * (s.broker.targetsWork + 3) +
      s.putters.length * (s.broker.targetsWork + 4) +
      ((s.workers.set worker .left).map (Worker.work s.broker)).sum + 0 ≤ _
    rw [hsum, hsum' .left, hleft]
    omega
  | start =>
    unfold BrokerSystem.step at hstep
    dsimp only at hstep
    split_ifs at hstep
    · obtain rfl := Option.some.inj hstep
      exact Nat.le_refl _
    · obtain rfl := Option.some.inj hstep
      exact workload_le rfl (Nat.le_refl _) rfl rfl ⟨_, rfl⟩
  | unsubscribe agentId =>
    obtain rfl := Option.some.inj hstep
    refine workload_le rfl ?_ rfl rfl (hnone _)
    change (s.broker.agentHandlers.erase agentId).keys.length ≤ _
    rw [Dict.keys_erase]
    exact List.length_filter_le _ _
  | subscribeTopic | unsubscribeTopic =>
    obtain rfl := Option.some.inj hstep
    exact workload_le rfl (Nat.le_refl _) rfl rfl (hnone _)
  | advance | joined | joinTimeout =>
    unfold BrokerSystem.step at hstep
    dsimp only at hstep
    split_ifs at hstep
    obtain rfl := Option.some.inj hstep
    exact workload_le rfl (Nat.le_refl _) rfl rfl (hnone _)
  | stop =>
    unfold BrokerSystem.step at hstep
    dsimp only at hstep
    split_ifs at hstep
    · obtain rfl := Option.some.inj hstep
      exact workload_le rfl (Nat.le_refl _) rfl rfl (hnone _)
    · obtain rfl := Option.some.inj hstep
      exact Nat.le_refl _
  | gathered =>
    unfold BrokerSystem.step at hstep
    dsimp only at hstep
    split at hstep
    · split_ifs at hstep
      obtain rfl := Option.some.inj hstep
      exact workload_le rfl (Nat.le_refl _) rfl rfl (hnone _)
    · cases hstep

/-- Nothing that is in the broker can be brought on. -/
def Settled (s : BrokerSystem) : Prop := ∀ a, a.works = true → s.step a = none

/-- In a settled broker no worker has a move that brings an item on. -/
theorem Settled.worker (h : Settled s) {phase : Worker} (hphase : phase ∈ s.workers)
    {move : WorkerMove} (hmove : move.works = true) :
    workerStep s.now s.shared phase move = none := by
  obtain ⟨worker, hworker⟩ := List.mem_iff_getElem?.mp hphase
  have hnone := h (.work worker move) hmove
  simp only [BrokerSystem.step, hworker, Option.map_eq_none_iff] at hnone
  exact hnone

/-- In a settled broker nothing is being dispatched. -/
theorem Settled.carried (h : Settled s) : s.carried = [] := by
  refine List.filterMap_eq_nil_iff.mpr fun phase hphase => ?_
  by_contra hitem
  obtain ⟨item, hitem⟩ := Option.ne_none_iff_exists'.mp hitem
  obtain ⟨move, hmove, hcan⟩ := exists_move_of_item s.now s.shared hitem
  rw [h.worker hphase hmove] at hcan
  cases hcan

/-- In a settled broker whose workers have not all left, nothing is queued, and nothing waits for
room. -/
theorem Settled.queued (h : Settled s) (hwaiting : Worker.waiting ∈ s.workers) :
    s.queued = [] ∧ s.putters = [] := by
  have hqueued : s.queued = [] := by
    refine List.eq_nil_iff_forall_not_mem.mpr fun item hitem => ?_
    have hcan := take_isSome s.now hitem
    rw [h.worker hwaiting rfl] at hcan
    cases hcan
  refine ⟨hqueued, ?_⟩
  rcases hputters : s.putters with _ | ⟨item, putters⟩
  · rfl
  · -- The empty queue has room.
    obtain ⟨queue, hqueue⟩ := PriorityMessageQueue.put_isSome_of_empty hqueued item
    have hstep : s.step (.put 0) =
        ({ s with putters := s.putters.eraseIdx 0 }).enqueue item := by
      simp only [BrokerSystem.step, hputters, List.getElem?_cons_zero]
    rw [h (.put 0) rfl] at hstep
    have hfull := Option.map_eq_none_iff.mp hstep.symm
    cases hfull.symm.trans hqueue

/-- In a settled broker whose workers have not all left, what was accepted was handed to a handler
or dead-lettered, if nothing was dropped. -/
theorem Settled.delivered (h : Settled s) (hkept : Kept s) (hwaiting : Worker.waiting ∈ s.workers)
    {r : Receipt} (hr : r ∈ s.shared.ledger.accepted) :
    r ∈ s.shared.ledger.handed ∨ r ∈ s.shared.ledger.deadLettered := by
  rcases hkept.accounted r hr with hqueued | ⟨phase, hphase, hcarries⟩ | hledger
  · rw [(h.queued hwaiting).1] at hqueued
    cases hqueued
  · have hnone : phase.item = none := List.filterMap_eq_nil_iff.mp h.carried phase hphase
    rw [Worker.Carries, hnone] at hcarries
    cases hcarries
  · exact hledger

/-- From every state that a broker reaches, a run in which no envelope is published and no handler
is subscribed brings items on at most as often as there is work ahead, in every interleaving of the
workers and whatever the handlers do, and some run does all of it. Once nothing can be brought on,
nothing is being dispatched; if a worker still waits, nothing is queued and nothing waits for room,
and if no expired item was dropped, every accepted envelope was handed to a handler or
dead-lettered. -/
theorem broker_settles {queueMaxsize dlqMaxsize maxDeliveryAttempts dispatchWorkers : ℤ}
    {discardExpired : Bool} {broker : MessageBroker} {now : ℚ} {as : List BrokerAction}
    (hinit : MessageBroker.init queueMaxsize dlqMaxsize maxDeliveryAttempts dispatchWorkers
      discardExpired = .ok broker)
    (hrun : run BrokerSystem.step (.init broker now) as = some s) :
    (∀ bs t, (∀ a ∈ bs, a.brings = false) → run BrokerSystem.step s bs = some t →
        bs.countP BrokerAction.works + t.workload ≤ s.workload) ∧
      (∃ bs t, run BrokerSystem.step s bs = some t ∧ (∀ a ∈ bs, a.works = true) ∧ Settled t) ∧
      (Settled s → s.carried = [] ∧
        (.waiting ∈ s.workers → s.queued = [] ∧ s.putters = [] ∧
          (Along BrokerSystem.step TakesLive (.init broker now) as →
            ∀ r ∈ s.shared.ledger.accepted,
              r ∈ s.shared.ledger.handed ∨ r ∈ s.shared.ledger.deadLettered))) := by
  have hpausing : Pausing s := run_induction (fun _ _ _ h hstep => h.step hstep)
    (fun phase hphase => by cases hphase) hrun
  have hwork : ∀ s a t, Pausing s → a.brings = false → BrokerSystem.step s a = some t →
      t.workload + a.works.toNat ≤ s.workload := fun _ _ _ h hquiet hstep =>
    step_workload h hquiet hstep
  refine ⟨fun bs t hquiet => ?_, ?_, fun hsettled => ⟨hsettled.carried, fun hwaiting => ?_⟩⟩
  · exact countP_add_le (fun _ _ _ h hstep => Pausing.step h hstep) hwork hpausing hquiet
  · -- What brings an item on brings no new work.
    have hless : ∀ s a t, Pausing s → a.works = true → BrokerSystem.step s a = some t →
        t.workload < s.workload := by
      intro s a t h ha hstep
      have hquiet : a.brings = false := by
        cases a with
        | subscribe | publish | publishNowait => cases ha
        | _ => rfl
      have hone := hwork s a t h hquiet hstep
      rw [ha] at hone
      exact hone
    exact exists_settled (fun _ _ _ h hstep => Pausing.step h hstep) hless hpausing
  · obtain ⟨hqueued, hputters⟩ := hsettled.queued hwaiting
    refine ⟨hqueued, hputters, fun hlive r hr => ?_⟩
    have hkept : Kept s := run_induction_along (fun _ _ _ h hlive hstep => h.step hlive hstep)
      (Kept.init hinit now) hlive hrun
    exact hsettled.delivered hkept hwaiting hr

/-- A message is published to the only handler, and the worker asks for it. -/
def publishedOnce : List BrokerAction :=
  [.subscribe "agent-b" "handler", .start, .publish (message "m1"), .work 0 .poll]

/-- `broker_settles` on this run: with three attempts, the message takes at most eleven moves. -/
theorem broker_settles_publishedOnce :
    ∃ s, run BrokerSystem.step (.init oneWorker 0) publishedOnce = some s ∧ s.workload = 11 ∧
      ∀ bs t, (∀ a ∈ bs, a.brings = false) → run BrokerSystem.step s bs = some t →
        bs.countP BrokerAction.works + t.workload ≤ 11 := by
  obtain ⟨s, hs⟩ := Option.isSome_iff_exists.mp
    (show (run BrokerSystem.step (.init oneWorker 0) publishedOnce).isSome by decide +kernel)
  have hworkload : (run BrokerSystem.step (.init oneWorker 0) publishedOnce).map
      BrokerSystem.workload = some 11 := by decide +kernel
  rw [hs] at hworkload
  have hinit : MessageBroker.init 0 1000 3 1 true = .ok oneWorker := rfl
  have heleven : s.workload = 11 := Option.some.inj hworkload
  exact ⟨s, hs, heleven, heleven ▸ (broker_settles hinit hs).1⟩

end System

end MeshRouter.Broker
