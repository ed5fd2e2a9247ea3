import MeshRouter.Broker.Dispatch

/-!
# What a stopping broker drains

`stop` clears the running flag and then waits for the queue to drain, before it cancels the workers.
But a worker tests the flag before every `get`, so that each of them dispatches at most what it has
already taken and leaves. `leaves` follows one worker from wherever it stands out of the loop, in
steps that leave the queue as it is, and `all_leave` does so for all workers, one after the other.
So a queue that is not empty when `stop` is called can be left with no worker to drain it, and
`drain_on_stop` shows that nothing less than an empty queue rules this out.
-/

namespace MeshRouter.Broker

open Lib Messages

/-- The action publishes an envelope. -/
def BrokerAction.publishes : BrokerAction → Bool
  | .publish _ | .publishNowait _ => true
  | _ => false

/-! ## Workers leave -/

section Leave

variable {s t u : BrokerSystem} {worker : ℕ}

/-- Moves of one worker lead from `s` to `t`, and leave the queue and everything else of the system
as they are. -/
structure LeadsTo (worker : ℕ) (s t : BrokerSystem) : Prop where
  reached : ∃ moves : List WorkerMove,
    run BrokerSystem.step s (moves.map (BrokerAction.work worker)) = some t
  queued : t.queued = s.queued
  running : t.broker.running = s.broker.running
  stops : t.stops = s.stops
  length : t.workers.length = s.workers.length
  others : ∀ w ≠ worker, t.workers[w]? = s.workers[w]?

/-- Moves follow on moves. -/
theorem LeadsTo.trans (h : LeadsTo worker s t) (h' : LeadsTo worker t u) : LeadsTo worker s u := by
  obtain ⟨moves, hmoves⟩ := h.reached
  obtain ⟨moves', hmoves'⟩ := h'.reached
  refine ⟨⟨moves ++ moves', ?_⟩, h'.queued.trans h.queued, h'.running.trans h.running,
    h'.stops.trans h.stops, h'.length.trans h.length,
    fun w hw => (h'.others w hw).trans (h.others w hw)⟩
  rw [List.map_append]
  exact run_trans hmoves hmoves'

/-- A move that keeps the queue and the flag leads on. -/
theorem exists_leadsTo {phase phase' : Worker} {move : WorkerMove} {shared : Shared}
    (hphase : s.workers[worker]? = some phase)
    (hstep : workerStep s.now s.shared phase move = some (shared, phase'))
    (hitems : shared.broker.queue.items = s.shared.broker.queue.items)
    (hrunning : shared.broker.running = s.shared.broker.running) :
    ∃ t, LeadsTo worker s t ∧ t.workers[worker]? = some phase' := by
  have hlt : worker < s.workers.length := (List.getElem?_eq_some_iff.mp hphase).1
  -- Only the phase of this worker and what the workers share change.
  have hmove : s.step (.work worker move) =
      some { s with shared := shared, workers := s.workers.set worker phase' } := by
    simp only [BrokerSystem.step, hphase, hstep]
    rfl
  refine ⟨_, ⟨⟨[move], run_singleton hmove⟩, hitems, hrunning, rfl, List.length_set,
    fun w hw => List.getElem?_set_ne (Ne.symm hw)⟩, List.getElem?_set_self hlt⟩

/-- The worker can leave the loop, without a `get`. -/
def Leaves (worker : ℕ) (s : BrokerSystem) : Prop :=
  ∃ t, LeadsTo worker s t ∧ t.workers[worker]? = some .left

/-- A worker that leaves after a move leaves. -/
theorem leaves_of_move (move : WorkerMove) {phase phase' : Worker} {shared : Shared}
    (hrunning : s.broker.running = false) (hphase : s.workers[worker]? = some phase)
    (hstep : workerStep s.now s.shared phase move = some (shared, phase'))
    (hitems : shared.broker.queue.items = s.shared.broker.queue.items)
    (hflag : shared.broker.running = s.shared.broker.running)
    (hthen : ∀ t : BrokerSystem, t.broker.running = false →
      t.workers[worker]? = some phase' → Leaves worker t) : Leaves worker s := by
  obtain ⟨t, hlead, ht⟩ := exists_leadsTo hphase hstep hitems hflag
  obtain ⟨u, hlead', hu⟩ := hthen t (hlead.running.trans hrunning) ht
  exact ⟨u, hlead.trans hlead', hu⟩

/-- A worker at the test of the cleared flag leaves. -/
theorem leaves_polling (hrunning : s.broker.running = false)
    (hphase : s.workers[worker]? = some .polling) : Leaves worker s := by
  have hstep : workerStep s.now s.shared .polling .poll = some (s.shared, .left) := by
    change s.shared.broker.running = false at hrunning
    simp [workerStep, hrunning]
  exact exists_leadsTo hphase hstep rfl rfl

section Targets

variable {item : QueueItem} {target : String} {attempt : ℕ} {rest : List String}

/-- A worker that has dealt with a target, with `rest` to follow, leaves. -/
def LeavesAfter (worker : ℕ) (item : QueueItem) (rest : List String) : Prop :=
  ∀ (s : BrokerSystem) (shared : Shared), s.broker.running = false →
    s.workers[worker]? = some (shared.next item rest).2 → Leaves worker s

/-- A worker whose handler returns goes on to the targets that follow. -/
theorem LeavesAfter.handling (hafter : LeavesAfter worker item rest)
    (hrunning : s.broker.running = false)
    (hphase : s.workers[worker]? = some (.handling item target attempt rest)) :
    Leaves worker s :=
  leaves_of_move (.handle .returned) hrunning hphase rfl Shared.items_next
    Shared.running_next fun t => hafter t s.shared

/-- A worker that delivers to a target goes on to the targets that follow. -/
theorem LeavesAfter.delivering (hafter : LeavesAfter worker item rest)
    (hrunning : s.broker.running = false)
    (hphase : s.workers[worker]? = some (.delivering item target attempt rest)) :
    Leaves worker s := by
  -- A target without a handler is dead-lettered, and a handler that is called may return.
  cases hhandler : s.shared.broker.agentHandlers.get? target with
  | none =>
    have hstep : workerStep s.now s.shared (.delivering item target attempt rest) .deliver =
        some ((s.shared.deadLetter item.receipt
          { envelope := item.envelope, reason := "handler_disappeared", deadLetteredAt := s.now,
            attemptCount := attempt }).next item rest) := by
      simp only [workerStep, hhandler]
    exact leaves_of_move _ hrunning hphase hstep (Shared.items_next.trans rfl)
      (Shared.running_next.trans rfl) fun t => hafter t _
  | some handler =>
    have hstep : workerStep s.now s.shared (.delivering item target attempt rest) .deliver =
        some (s.shared.hand item.receipt, .handling item target attempt rest) := by
      simp only [workerStep, hhandler]
    exact leaves_of_move _ hrunning hphase hstep rfl rfl fun t => hafter.handling

/-- After any targets a worker leaves. -/
theorem leavesAfter (worker : ℕ) (item : QueueItem) (rest : List String) :
    LeavesAfter worker item rest := by
  -- Induction on the targets that follow.
  induction rest with
  | nil => exact fun s shared hrunning hphase => leaves_polling hrunning hphase
  | cons target rest ih => exact fun s shared hrunning hphase => ih.delivering hrunning hphase

/-- A worker at `_resolve_targets` leaves. -/
theorem leaves_resolving (hrunning : s.broker.running = false)
    (hphase : s.workers[worker]? = some (.resolving item)) : Leaves worker s := by
  obtain ⟨targets, hnodup, htargets⟩ :=
    (s.shared.broker.resolveTargets item.envelope).exists_list_nodup_eq
  have hresolve : targets.Nodup ∧
      targets.toFinset = s.shared.broker.resolveTargets item.envelope := ⟨hnodup, htargets⟩
  -- The targets are traversed in some order, and any will do.
  cases targets with
  | nil =>
    have hstep : workerStep s.now s.shared (.resolving item) (.resolve []) =
        some (s.shared.deadLetter item.receipt
          { envelope := item.envelope, reason := "no_subscriber",
            deadLetteredAt := s.now }).finish := by
      simp only [workerStep, if_pos hresolve]
    exact leaves_of_move _ hrunning hphase hstep rfl rfl fun t => leaves_polling
  | cons target rest =>
    have hstep : workerStep s.now s.shared (.resolving item) (.resolve (target :: rest)) =
        some (s.shared, .delivering item target 1 rest) := by
      simp only [workerStep, if_pos hresolve]
    exact leaves_of_move _ hrunning hphase hstep rfl rfl
      fun t => (leavesAfter worker item rest).delivering

/-- From wherever it stands a worker can leave the loop without a `get`, once the flag is
cleared. -/
theorem leaves {phase : Worker} (hrunning : s.broker.running = false)
    (hphase : s.workers[worker]? = some phase) : Leaves worker s := by
  cases phase with
  | polling => exact leaves_polling hrunning hphase
  | waiting =>
    -- The wait for an item times out.
    exact leaves_of_move .timeout hrunning hphase rfl rfl rfl fun t => leaves_polling
  | dispatching item =>
    by_cases hexpired : item.envelope.isExpired s.now = true
    · have hstep : workerStep s.now s.shared (.dispatching item) .dispatch =
          some (s.shared.deadLetter item.receipt
            { envelope := item.envelope, reason := "ttl_expired_at_dispatch",
              deadLetteredAt := s.now }).finish := by
        simp only [workerStep, if_pos hexpired]
      exact leaves_of_move _ hrunning hphase hstep rfl rfl fun t => leaves_polling
    · have hstep : workerStep s.now s.shared (.dispatching item) .dispatch =
          some (s.shared, .resolving item) := by
        simp only [workerStep, if_neg hexpired]
      exact leaves_of_move _ hrunning hphase hstep rfl rfl fun t => leaves_resolving
  | resolving item => exact leaves_resolving hrunning hphase
  | delivering item target attempt rest => exact (leavesAfter _ _ _).delivering hrunning hphase
  | handling item target attempt rest => exact (leavesAfter _ _ _).handling hrunning hphase
  | backoff item target attempt rest =>
    exact leaves_of_move .resume hrunning hphase rfl rfl rfl
      fun t => (leavesAfter worker item rest).delivering
  | left => exact ⟨s, ⟨⟨[], rfl⟩, rfl, rfl, rfl, rfl, fun _ _ => rfl⟩, hphase⟩

end Targets

end Leave

/-! ## All workers leave -/

section Drain

variable {s t : BrokerSystem}

/-- Once the flag is cleared, all workers can leave, one after the other, while the queue stays as
it is. -/
theorem all_leave (hrunning : s.broker.running = false) :
    ∃ as t, (∀ a ∈ as, a.publishes = false) ∧ run BrokerSystem.step s as = some t ∧
      t.queued = s.queued ∧ t.stops = s.stops ∧ ∀ phase ∈ t.workers, phase = .left := by
  -- Induction on the number of workers that have left.
  have hfirst : ∀ k ≤ s.workers.length, ∃ as t, (∀ a ∈ as, a.publishes = false) ∧
      run BrokerSystem.step s as = some t ∧ t.queued = s.queued ∧ t.stops = s.stops ∧
      t.broker.running = false ∧ t.workers.length = s.workers.length ∧
      ∀ w < k, t.workers[w]? = some .left := by
    intro k hk
    induction k with
    | zero => exact ⟨[], s, by simp, rfl, rfl, rfl, hrunning, rfl, by simp⟩
    | succ k ih =>
      obtain ⟨as, t, hquiet, hrun, hqueued, hstops, hflag, hlength, hleft⟩ := ih (by omega)
      have hlt : k < t.workers.length := by omega
      -- Worker `k` leaves by its own moves, and the workers below it stay where they are.
      obtain ⟨u, hlead, hu⟩ := leaves hflag (List.getElem?_eq_getElem hlt)
      obtain ⟨moves, hmoves⟩ := hlead.reached
      refine ⟨as ++ moves.map (BrokerAction.work k), u, ?_, run_trans hrun hmoves,
        hlead.queued.trans hqueued, hlead.stops.trans hstops, hlead.running.trans hflag,
        hlead.length.trans hlength, fun w hw => ?_⟩
      · intro a ha
        rcases List.mem_append.mp ha with ha | ha
        · exact hquiet a ha
        · obtain ⟨move, -, rfl⟩ := List.mem_map.mp ha
          rfl
      · rcases Nat.lt_succ_iff_lt_or_eq.mp hw with hw | rfl
        · rw [hlead.others w hw.ne]
          exact hleft w hw
        · exact hu
  obtain ⟨as, t, hquiet, hrun, hqueued, hstops, -, hlength, hleft⟩ := hfirst _ le_rfl
  refine ⟨as, t, hquiet, hrun, hqueued, hstops, fun phase hphase => ?_⟩
  obtain ⟨w, hw⟩ := List.mem_iff_getElem?.mp hphase
  have hlt : w < t.workers.length := (List.getElem?_eq_some_iff.mp hw).1
  exact Option.some.inj (hw.symm.trans (hleft w (by omega)))

/-- A worker puts nothing into the queue. -/
theorem workerStep_items_subset {now : ℚ} {shared shared' : Shared} {phase phase' : Worker}
    {move : WorkerMove} (h : workerStep now shared phase move = some (shared', phase')) :
    shared'.broker.queue.items ⊆ shared.broker.queue.items := by
  cases workerStep_cases h with
  | drop hitems | take hitems =>
    rw [hitems]
    exact List.subset_cons_self _ _
  | disappeared | exhausted | returned =>
    rw [Shared.items_next]
    exact List.Subset.refl _
  | _ => exact List.Subset.refl _

/-- Nothing is queued, and no publish waits for room. -/
def NothingQueued (s : BrokerSystem) : Prop := s.queued = [] ∧ s.putters = []

/-- Without a publish nothing comes into an empty queue. -/
theorem NothingQueued.step (h : NothingQueued s) {a : BrokerAction} (hquiet : a.publishes = false)
    (hstep : s.step a = some t) : NothingQueued t := by
  unfold BrokerSystem.step at hstep
  cases a with
  | publish | publishNowait => cases hquiet
  | put putter =>
    -- No publish waits, so none can put its item.
    rw [h.2] at hstep
    cases hstep
  | work worker move =>
    dsimp only at hstep
    split at hstep
    · cases hstep
    · obtain ⟨⟨shared, phase'⟩, hwork, rfl⟩ := Option.map_eq_some_iff.mp hstep
      have hsubset := workerStep_items_subset hwork
      have hqueued : s.shared.broker.queue.items = [] := h.1
      rw [hqueued] at hsubset
      exact ⟨List.subset_nil.mp hsubset, h.2⟩
  | subscribe | unsubscribe | subscribeTopic | unsubscribeTopic =>
    obtain rfl := Option.some.inj hstep
    exact h
  | start | stop =>
    dsimp only at hstep
    split_ifs at hstep
    · obtain rfl := Option.some.inj hstep
      exact h
    · obtain rfl := Option.some.inj hstep
      exact h
  | advance | joined | joinTimeout =>
    dsimp only at hstep
    split_ifs at hstep
    obtain rfl := Option.some.inj hstep
    exact h
  | cancel worker =>
    dsimp only at hstep
    split at hstep
    · cases hstep
    · split_ifs at hstep
      obtain rfl := Option.some.inj hstep
      exact h
  | gathered =>
    dsimp only at hstep
    split at hstep
    · split_ifs at hstep
      obtain rfl := Option.some.inj hstep
      exact h
    · cases hstep

/-- Without a publish a run leaves an empty queue empty. -/
theorem NothingQueued.run (h : NothingQueued s) {as : List BrokerAction}
    (hquiet : ∀ a ∈ as, a.publishes = false) (hrun : Lib.run BrokerSystem.step s as = some t) :
    NothingQueued t :=
  run_induction_along (fun _ _ _ h hquiet hstep => h.step hquiet hstep) h
    (along_of_actions hquiet s) hrun

/-- What `stop` does to a running broker. -/
def stopped (s : BrokerSystem) : BrokerSystem :=
  { s.withBroker { s.broker with running := false } with stops := s.stops ++ [.draining] }

/-- When something is queued or waits for room, all workers can leave with a message queued. -/
theorem exists_undrained (hqueued : ¬ NothingQueued s) :
    ∃ as t, (∀ a ∈ as, a.publishes = false) ∧ Lib.run BrokerSystem.step (stopped s) as = some t ∧
      t.stops = s.stops ++ [.draining] ∧ t.queued ≠ [] ∧ ∀ phase ∈ t.workers, phase = .left := by
  by_cases hempty : s.queued = []
  · -- A publish that waits puts its item first.
    obtain ⟨item, putters, hputters⟩ := List.exists_cons_of_ne_nil fun h => hqueued ⟨hempty, h⟩
    obtain ⟨queue, hput⟩ := PriorityMessageQueue.put_isSome_of_empty hempty item
    let rest : BrokerSystem := { stopped s with putters := putters }
    let u : BrokerSystem :=
      { rest with shared := (rest.shared.withQueue queue).accept item.receipt }
    have henqueue : rest.enqueue item = some u := Option.map_eq_some_iff.mpr ⟨queue, hput, rfl⟩
    have hstep : (stopped s).step (.put 0) = some u := by
      have hfirst : (stopped s).putters = item :: putters := hputters
      simpa [BrokerSystem.step, hfirst] using henqueue
    have hmem : item ∈ u.queued := (PriorityMessageQueue.mem_put hput).mpr (Or.inl rfl)
    obtain ⟨as, t, hquiet, hrun, hqueued', hstops, hleft⟩ := all_leave (s := u) rfl
    refine ⟨.put 0 :: as, t, ?_, run_cons.mpr ⟨u, hstep, hrun⟩, hstops, ?_, hleft⟩
    · exact List.forall_mem_cons.mpr ⟨rfl, hquiet⟩
    · rw [hqueued']
      exact List.ne_nil_of_mem hmem
  · obtain ⟨as, t, hquiet, hrun, hqueued', hstops, hleft⟩ := all_leave (s := stopped s) rfl
    exact ⟨as, t, hquiet, hrun, hstops, by rwa [hqueued'], hleft⟩

/-- While `stop` waits for the queue to drain, a queue that is not empty has a worker to drain it in
every continuation without a publish, exactly when nothing was queued or waiting for room when
`stop` was called. -/
theorem drain_on_stop (hrunning : s.broker.running = true) :
    (∀ as t, (∀ a ∈ as, a.publishes = false) →
      Lib.run BrokerSystem.step s (.stop :: as) = some t →
      t.stops[s.stops.length]? = some .draining → t.queued ≠ [] →
      ∃ phase ∈ t.workers, phase ≠ .left) ↔ NothingQueued s := by
  have hstop : s.step .stop = some (stopped s) := if_pos hrunning
  constructor
  · -- If something was queued, the run in which all workers leave contradicts the drain.
    intro hdrains
    by_contra hqueued
    obtain ⟨as, t, hquiet, hrun, hstops, hnonempty, hleft⟩ := exists_undrained hqueued
    have hdraining : t.stops[s.stops.length]? = some .draining := by
      rw [hstops]
      exact List.getElem?_concat_length
    obtain ⟨phase, hphase, hstays⟩ :=
      hdrains as t hquiet (run_cons.mpr ⟨_, hstop, hrun⟩) hdraining hnonempty
    exact hstays (hleft phase hphase)
  · -- If nothing was queued, the queue stays empty.
    intro hqueued as t hquiet hrun _ hnonempty
    obtain ⟨u, hu, hrun⟩ := run_cons.mp hrun
    obtain rfl := Option.some.inj (hstop.symm.trans hu)
    have hempty : NothingQueued (stopped s) := hqueued
    exact absurd (hempty.run hquiet hrun).1 hnonempty

end Drain

/-! ## Two messages and one worker -/

/-- A message for `agent-b`. -/
def message (messageId : String) : MessageEnvelope :=
  { sender := "agent-a", receiver := "agent-b", messageId := messageId, createdAt := 0 }

/-- Two messages are published, and the worker calls the handler with the first. -/
def twoMessages : List BrokerAction :=
  [.subscribe "agent-b" "handler", .start, .publish (message "m1"), .publish (message "m2"),
    .work 0 .poll, .work 0 .take, .work 0 .dispatch, .work 0 (.resolve ["agent-b"]),
    .work 0 .deliver]

/-- The handler returns, and the worker tests the flag. -/
def handlerReturns : List BrokerAction := [.work 0 (.handle .returned), .work 0 .poll]

/-- `drain_on_stop` on a broker that is stopped before anything is published. -/
theorem drain_on_stop_started :
    ∃ s, Lib.run BrokerSystem.step (.init oneWorker 0) [.start] = some s ∧
      ∀ as t, (∀ a ∈ as, a.publishes = false) →
        Lib.run BrokerSystem.step s (.stop :: as) = some t →
        t.stops[s.stops.length]? = some .draining → t.queued ≠ [] →
        ∃ phase ∈ t.workers, phase ≠ .left := by
  refine ⟨_, rfl, (drain_on_stop rfl).mpr ⟨rfl, rfl⟩⟩

/-- The worker dispatches the first message and leaves the second in the queue. -/
theorem stop_leaves_backlog :
    ∃ s t, Lib.run BrokerSystem.step (.init oneWorker 0) twoMessages = some s ∧
      s.broker.running = true ∧
      Lib.run BrokerSystem.step s (.stop :: handlerReturns) = some t ∧
      t.stops[s.stops.length]? = some .draining ∧
      t.queued.map (·.envelope) = [message "m2"] ∧ ∀ phase ∈ t.workers, phase = .left := by
  obtain ⟨t, ht⟩ := Option.isSome_iff_exists.mp
    (show (Lib.run BrokerSystem.step (.init oneWorker 0)
      (twoMessages ++ .stop :: handlerReturns)).isSome by decide +kernel)
  have hlast : (Lib.run BrokerSystem.step (.init oneWorker 0)
      (twoMessages ++ .stop :: handlerReturns)).map
        (fun t => (t.stops, t.queued.map (·.envelope), t.workers)) =
          some ([.draining], [message "m2"], [.left]) := by decide +kernel
  obtain ⟨s, hs, hst⟩ := run_append.mp ht
  have hmiddle : (Lib.run BrokerSystem.step (.init oneWorker 0) twoMessages).map
      (fun s => (s.broker.running, s.stops)) = some (true, []) := by decide +kernel
  rw [ht] at hlast
  rw [hs] at hmiddle
  obtain ⟨hstops, hlast⟩ := Prod.mk.inj (Option.some.inj hlast)
  obtain ⟨hqueued, hworkers⟩ := Prod.mk.inj hlast
  obtain ⟨hrunning, hnone⟩ := Prod.mk.inj (Option.some.inj hmiddle)
  refine ⟨s, t, hs, hrunning, hst, ?_, hqueued, ?_⟩
  · rw [hstops, hnone]
    rfl
  · rw [hworkers]
    exact fun phase hphase => List.mem_singleton.mp hphase

end MeshRouter.Broker
