import Mathlib.Algebra.BigOperators.Group.List.Basic
import MeshRouter.Backpressure.Sequential

/-!
# The task queue, with calls side by side

Runs of `enqueue`, `dequeue` and `drain` calls by any number of threads. A call in progress is given
by what it does next, and a turn of it is one atomic part: a call on `queue.Queue`, or a section
that holds the lock. No call in progress means a quiescent state.

A section that runs after other threads changed the queue reads the size as it is then, so the last
section to run leaves the books right. The exception is the section of `drain`: it reports the depth
zero and clears the flag without a look at the queue (`drain_races`). `concurrent_consistent` shows
that nothing else goes wrong: the books agree with the contents in the quiescent states of every run
in which no `drain` section finds tasks in the queue.
-/

namespace MeshRouter.Backpressure

open Lib

/-- What a call in progress does next. -/
inductive CallPhase where
  /-- `enqueue` puts its task. -/
  | putting (task : Task) (w : Waiting)
  /-- `enqueue` has put its task, and its section is next. -/
  | entered
  /-- `enqueue` found the queue full, and the section that counts this is next. -/
  | dropping
  /-- `dequeue` gets a task. -/
  | getting (w : Waiting)
  /-- `dequeue` has a task, and its section is next. -/
  | taken (task : Task)
  /-- `drain` has some tasks, and looks for the next. -/
  | draining (tasks : List Task)
  /-- `drain` found the queue empty, and its section is next. -/
  | drained (tasks : List Task)
deriving DecidableEq

/-- A call is made, a call in progress takes its turn, or others change the monitor. -/
inductive ConcurrentAction where
  | call (c : QueueCall)
  | turn (i : ℕ)
  | others (monitor : BackpressureMonitor)
deriving DecidableEq

/-- A queue and the calls in progress. -/
structure ConcurrentUse where
  queue : BackpressureQueue
  calls : List CallPhase := []
deriving DecidableEq

/-- What a call that is made does first. -/
def QueueCall.start : QueueCall → Option CallPhase
  | .enqueue task w => if task.callable then some (.putting task w) else none
  | .dequeue w => some (.getting w)
  | .drain => some (.draining [])

/-- A turn of a call: what it does next, unless it has ended, and the queue that it leaves. `none`
if it waits. -/
def BackpressureQueue.turn (cfg : QueueConfig) (bq : BackpressureQueue) :
    CallPhase → Option (Option CallPhase × BackpressureQueue)
  | .putting task w =>
    if w.negative then
      some (none, bq)
    else
      match bq.putTask cfg task with
      | some bq => some (some .entered, bq)
      | none => if w.forever then none else some (some .dropping, bq)
  | .entered => some (none, (bq.enqueueSection cfg).2)
  | .dropping => some (none, bq.dropSection)
  | .getting w =>
    if w.negative then
      some (none, bq)
    else
      match bq.getTask with
      | some (task, bq) => some (some (.taken task), bq)
      | none => if w.forever then none else some (none, bq)
  | .taken _ => some (none, (bq.dequeueSection cfg).2)
  | .draining tasks =>
    match bq.getTask with
    | some (task, bq) => some (some (.draining (tasks ++ [task])), bq)
    | none => some (some (.drained tasks), bq)
  | .drained tasks => some (none, (bq.drainSection cfg tasks.length).2)

namespace ConcurrentUse

/-- A new queue. -/
def init (cfg : QueueConfig) (monitor : BackpressureMonitor) : ConcurrentUse :=
  { queue := .init cfg monitor }

/-- The state after an action. Others do not touch the entry of the queue in the monitor. -/
def step (cfg : QueueConfig) (s : ConcurrentUse) : ConcurrentAction → Option ConcurrentUse
  | .call c => some { s with calls := s.calls ++ c.start.toList }
  | .turn i =>
    match s.calls[i]? with
    | none => none
    | some phase =>
      (s.queue.turn cfg phase).map fun (next, bq) =>
        { queue := bq, calls := s.calls.take i ++ next.toList ++ s.calls.drop (i + 1) }
  | .others monitor =>
    if monitor.queues.get? cfg.queueName = s.queue.monitor.queues.get? cfg.queueName then
      some { s with queue := { s.queue with monitor := monitor } }
    else
      none

/-- If the step is the section of a `drain`, the queue is empty. -/
def SettlesEmpty (s : ConcurrentUse) : ConcurrentAction → Prop
  | .turn i => ∀ tasks, s.calls[i]? = some (.drained tasks) → s.queue.q = []
  | _ => True

/-- Whether a section finds the queue empty can be computed. -/
instance decidableSettlesEmpty (s : ConcurrentUse) :
    (a : ConcurrentAction) → Decidable (s.SettlesEmpty a)
  | .call _ => isTrue trivial
  | .others _ => isTrue trivial
  | .turn i =>
    match h : s.calls[i]? with
    | some (.drained tasks) => decidable_of_iff (s.queue.q = []) (by simp [SettlesEmpty, h])
    | none | some (.putting _ _) | some .entered | some .dropping | some (.getting _)
    | some (.taken _) | some (.draining _) => isTrue (by simp [SettlesEmpty, h])

end ConcurrentUse

/-- The call has put a task and not yet counted it. -/
def CallPhase.entering : CallPhase → Bool
  | .entered => true
  | _ => false

/-- The call takes tasks and has not yet counted them. -/
def CallPhase.leaving : CallPhase → Bool
  | .taken _ => true
  | .draining _ => true
  | .drained _ => true
  | _ => false

/-- How many tasks the call has taken and not yet counted. -/
def CallPhase.uncounted : CallPhase → ℕ
  | .taken _ => 1
  | .draining tasks => tasks.length
  | .drained tasks => tasks.length
  | _ => 0

/-- The books agree with the contents, up to the sections that are still to run. -/
structure Accounted (cfg : QueueConfig) (s : ConcurrentUse) : Prop where
  registered : ∃ depth, s.queue.monitor.depth? cfg.queueName = some depth
  totals : s.queue.enqueuedTotal + s.calls.countP CallPhase.entering =
    s.queue.dequeuedTotal + (s.calls.map CallPhase.uncounted).sum + s.queue.size
  depth : s.queue.monitor.depth? cfg.queueName = some (s.queue.size : ℤ) ∨
    s.calls.any CallPhase.entering = true ∨ s.calls.any CallPhase.leaving = true
  high : cfg.highWatermark ≤ s.queue.fill cfg →
    s.queue.underPressure = true ∨ s.calls.any CallPhase.entering = true
  low : s.queue.underPressure = true →
    cfg.lowWatermark ≤ s.queue.fill cfg ∨ s.calls.any CallPhase.leaving = true

variable {cfg : QueueConfig} {s t : ConcurrentUse}

/-- In a quiescent state the books agree. -/
theorem Accounted.consistent (h : Accounted cfg s) (hquiescent : s.calls = []) :
    Consistent cfg s.queue := by
  obtain ⟨-, htotals, hdepth, hhigh, hlow⟩ := h
  rw [hquiescent] at htotals hdepth hhigh hlow
  simp only [List.countP_nil, List.map_nil, List.sum_nil, List.any_nil, Bool.false_eq_true,
    or_false] at htotals hdepth hhigh hlow
  exact ⟨by omega, hdepth, hhigh, hlow⟩

/-- A new queue. -/
theorem Accounted.init (cfg : QueueConfig) (monitor : BackpressureMonitor) :
    Accounted cfg (.init cfg monitor) := by
  have hconsistent := (Ordered.init cfg monitor).consistent
  have htotals : (BackpressureQueue.init cfg monitor).enqueuedTotal =
      (BackpressureQueue.init cfg monitor).dequeuedTotal +
        (BackpressureQueue.init cfg monitor).size := rfl
  exact ⟨⟨_, hconsistent.depth⟩, htotals, Or.inl hconsistent.depth,
    fun hhigh => Or.inl (hconsistent.high hhigh), fun hflag => Or.inl (hconsistent.low hflag)⟩

/-- The order of the calls in progress does not matter. -/
theorem Accounted.perm {bq : BackpressureQueue} {calls calls' : List CallPhase}
    (h : Accounted cfg { queue := bq, calls := calls }) (hperm : calls.Perm calls') :
    Accounted cfg { queue := bq, calls := calls' } := by
  obtain ⟨hregistered, htotals, hdepth, hhigh, hlow⟩ := h
  dsimp only at htotals hdepth hhigh hlow
  rw [hperm.countP_eq, (hperm.map _).sum_eq] at htotals
  rw [hperm.any_eq, hperm.any_eq] at hdepth
  rw [hperm.any_eq] at hhigh hlow
  exact ⟨hregistered, htotals, hdepth, hhigh, hlow⟩

section Turns

variable {bq bq' : BackpressureQueue} {rest : List CallPhase}

/-- The totals with what the first call has done apart. -/
theorem totals_cons_iff {enqueued dequeued size : ℕ} {phase : CallPhase} :
    enqueued + (phase :: rest).countP CallPhase.entering =
        dequeued + ((phase :: rest).map CallPhase.uncounted).sum + size ↔
      enqueued + phase.entering.toNat + rest.countP CallPhase.entering =
        dequeued + phase.uncounted + (rest.map CallPhase.uncounted).sum + size := by
  rw [List.countP_cons, List.map_cons, List.sum_cons]
  cases phase.entering with
  | false => simp only [Bool.false_eq_true, if_false, Bool.toNat_false]; omega
  | true => simp only [if_true, Bool.toNat_true]; omega

/-- A call ends that has nothing to count. -/
theorem Accounted.ended {phase : CallPhase}
    (h : Accounted cfg { queue := bq, calls := phase :: rest }) (hentering : phase.entering = false)
    (hleaving : phase.leaving = false) (huncounted : phase.uncounted = 0) :
    Accounted cfg { queue := bq, calls := rest } := by
  obtain ⟨hregistered, htotals, hdepth, hhigh, hlow⟩ := h
  have hsame := totals_cons_iff.mp htotals
  rw [hentering, huncounted, Bool.toNat_false, add_zero, add_zero] at hsame
  simp only [List.any_cons, hentering, hleaving, Bool.false_or] at hdepth hhigh hlow
  exact ⟨hregistered, hsame, hdepth, hhigh, hlow⟩

/-- A task is put. -/
theorem Accounted.put {task : Task} {w : Waiting}
    (h : Accounted cfg { queue := bq, calls := .putting task w :: rest }) :
    Accounted cfg { queue := { bq with q := bq.q ++ [task] }, calls := .entered :: rest } := by
  obtain ⟨hregistered, htotals, -, -, hlow⟩ := h.ended rfl rfl rfl
  have hsize : ({ bq with q := bq.q ++ [task] } : BackpressureQueue).size = bq.size + 1 :=
    List.length_append
  have hgrown : bq.fill cfg ≤ BackpressureQueue.fill cfg { bq with q := bq.q ++ [task] } :=
    BackpressureQueue.fill_le_fill (by rw [hsize]; exact Nat.le_succ _)
  refine ⟨hregistered, ?_, Or.inr (Or.inl rfl), fun _ => Or.inr rfl, fun hflag => ?_⟩
  · dsimp only at htotals ⊢
    rw [totals_cons_iff, hsize]
    dsimp only [CallPhase.entering, CallPhase.uncounted, Bool.toNat_true]
    omega
  · exact (hlow hflag).imp hgrown.trans' id

/-- The section of `enqueue` runs. -/
theorem Accounted.enqueueSection (h : Accounted cfg { queue := bq, calls := .entered :: rest }) :
    Accounted cfg { queue := (bq.enqueueSection cfg).2, calls := rest } := by
  obtain ⟨⟨old, hold⟩, htotals, -, hhigh, hlow⟩ := h
  obtain ⟨monitor, hdepth, heq⟩ := BackpressureQueue.enqueueSection_eq _ hold
  rw [heq]
  refine ⟨⟨_, hdepth⟩, ?_, Or.inl hdepth, fun hfill => ?_, fun hflag => ?_⟩
  · exact totals_cons_iff.mp htotals
  · exact Or.inl ((Bool.or_eq_true _ _).mpr (Or.inr (decide_eq_true hfill)))
  · rcases (Bool.or_eq_true _ _).mp hflag with hup | hnew
    · exact hlow hup
    · exact Or.inl (cfg.lowWatermark_lt.le.trans (of_decide_eq_true hnew))

/-- A task is taken, by a call that is then still to count it. -/
theorem Accounted.get {task : Task} {left : List Task} {phase next : CallPhase}
    (h : Accounted cfg { queue := bq, calls := phase :: rest }) (hq : bq.q = task :: left)
    (hentering : phase.entering = false) (hentering' : next.entering = false)
    (hleaving : next.leaving = true) (huncounted : next.uncounted = phase.uncounted + 1) :
    Accounted cfg { queue := { bq with q := left }, calls := next :: rest } := by
  obtain ⟨hregistered, htotals, -, hhigh, -⟩ := h
  have hsize : bq.size = ({ bq with q := left } : BackpressureQueue).size + 1 :=
    congrArg List.length hq
  have hshrunk : BackpressureQueue.fill cfg { bq with q := left } ≤ bq.fill cfg :=
    BackpressureQueue.fill_le_fill (by rw [hsize]; exact Nat.le_succ _)
  have hbefore := totals_cons_iff.mp htotals
  dsimp only at hbefore
  rw [hentering, hsize, Bool.toNat_false, add_zero] at hbefore
  rw [List.any_cons, hentering, Bool.false_or] at hhigh
  have hany : (next :: rest).any CallPhase.leaving = true := by
    rw [List.any_cons, hleaving, Bool.true_or]
  refine ⟨hregistered, ?_, Or.inr (Or.inr hany), fun hfill => ?_, fun _ => Or.inr hany⟩
  · refine totals_cons_iff.mpr ?_
    dsimp only
    rw [hentering', huncounted, Bool.toNat_false]
    omega
  · rw [List.any_cons, hentering', Bool.false_or]
    exact hhigh (hfill.trans hshrunk)

/-- The section of `dequeue` runs. -/
theorem Accounted.dequeueSection {task : Task}
    (h : Accounted cfg { queue := bq, calls := .taken task :: rest }) :
    Accounted cfg { queue := (bq.dequeueSection cfg).2, calls := rest } := by
  obtain ⟨⟨old, hold⟩, htotals, -, hhigh, hlow⟩ := h
  obtain ⟨monitor, hdepth, heq⟩ := BackpressureQueue.dequeueSection_eq _ hold
  rw [heq]
  refine ⟨⟨_, hdepth⟩, ?_, Or.inl hdepth, fun hfill => ?_, fun hflag => ?_⟩
  · exact totals_cons_iff.mp htotals
  -- At the high watermark the flag is not cleared.
  · rcases hhigh hfill with hup | hentering
    · exact Or.inl ((Bool.and_eq_true _ _).mpr
        ⟨hup, decide_eq_true (cfg.lowWatermark_lt.le.trans hfill)⟩)
    · exact Or.inr hentering
  · exact Or.inl (of_decide_eq_true ((Bool.and_eq_true _ _).mp hflag).2)

/-- The section of `drain` runs while the queue is empty. -/
theorem Accounted.drainSection {tasks : List Task}
    (h : Accounted cfg { queue := bq, calls := .drained tasks :: rest }) (hempty : bq.q = []) :
    Accounted cfg { queue := (bq.drainSection cfg tasks.length).2, calls := rest } := by
  obtain ⟨⟨old, hold⟩, htotals, -, -, -⟩ := h
  obtain ⟨monitor, hdepth, heq⟩ := BackpressureQueue.drainSection_eq _ hold tasks.length
  have hsize : bq.size = 0 := congrArg List.length hempty
  have hreport : monitor.depth? cfg.queueName = some (bq.size : ℤ) := by
    rw [hsize]
    exact hdepth
  rw [heq]
  refine ⟨⟨_, hdepth⟩, ?_, Or.inl hreport, fun hfill => ?_, fun hflag => ?_⟩
  · exact totals_cons_iff.mp htotals
  · have hzero : bq.fill cfg = 0 := by
      unfold BackpressureQueue.fill
      rw [hsize, Nat.cast_zero, zero_div]
    exact absurd (hzero ▸ hfill) (not_le.mpr cfg.highWatermark_pos)
  · cases hflag

/-- A turn of a call keeps the account, if the section of a `drain` finds the queue empty. -/
theorem Accounted.turn {phase : CallPhase} {next : Option CallPhase}
    (h : Accounted cfg { queue := bq, calls := phase :: rest })
    (hempty : ∀ tasks, phase = .drained tasks → bq.q = [])
    (hturn : bq.turn cfg phase = some (next, bq')) :
    Accounted cfg { queue := bq', calls := next.toList ++ rest } := by
  cases phase with
  | putting task w =>
    unfold BackpressureQueue.turn at hturn
    dsimp only at hturn
    by_cases hnegative : w.negative = true
    · rw [if_pos hnegative] at hturn
      obtain ⟨rfl, rfl⟩ := Prod.mk.inj (Option.some.inj hturn)
      exact h.ended rfl rfl rfl
    rw [if_neg hnegative] at hturn
    rcases bq.putTask_cases cfg task with ⟨-, hput⟩ | ⟨-, hput⟩
    · rw [hput] at hturn
      obtain ⟨rfl, rfl⟩ := Prod.mk.inj (Option.some.inj hturn)
      exact h.put
    · rw [hput] at hturn
      dsimp only at hturn
      split_ifs at hturn
      obtain ⟨rfl, rfl⟩ := Prod.mk.inj (Option.some.inj hturn)
      obtain ⟨hregistered, htotals, hdepth, hhigh, hlow⟩ := h
      exact ⟨hregistered, htotals, hdepth, hhigh, hlow⟩
  | entered =>
    obtain ⟨rfl, rfl⟩ := Prod.mk.inj (Option.some.inj hturn)
    exact h.enqueueSection
  | dropping =>
    obtain ⟨rfl, rfl⟩ := Prod.mk.inj (Option.some.inj hturn)
    obtain ⟨hregistered, htotals, hdepth, hhigh, hlow⟩ := h.ended rfl rfl rfl
    exact ⟨hregistered, htotals, hdepth, hhigh, hlow⟩
  | getting w =>
    unfold BackpressureQueue.turn at hturn
    dsimp only at hturn
    by_cases hnegative : w.negative = true
    · rw [if_pos hnegative] at hturn
      obtain ⟨rfl, rfl⟩ := Prod.mk.inj (Option.some.inj hturn)
      exact h.ended rfl rfl rfl
    rw [if_neg hnegative] at hturn
    rcases bq.getTask_cases with ⟨-, hget⟩ | ⟨task, left, hq, hget⟩
    · rw [hget] at hturn
      dsimp only at hturn
      split_ifs at hturn
      obtain ⟨rfl, rfl⟩ := Prod.mk.inj (Option.some.inj hturn)
      exact h.ended rfl rfl rfl
    · rw [hget] at hturn
      obtain ⟨rfl, rfl⟩ := Prod.mk.inj (Option.some.inj hturn)
      exact h.get hq rfl rfl rfl rfl
  | taken task =>
    obtain ⟨rfl, rfl⟩ := Prod.mk.inj (Option.some.inj hturn)
    exact h.dequeueSection
  | draining tasks =>
    unfold BackpressureQueue.turn at hturn
    dsimp only at hturn
    rcases bq.getTask_cases with ⟨-, hget⟩ | ⟨task, left, hq, hget⟩
    · rw [hget] at hturn
      obtain ⟨rfl, rfl⟩ := Prod.mk.inj (Option.some.inj hturn)
      obtain ⟨hregistered, htotals, hdepth, hhigh, hlow⟩ := h
      exact ⟨hregistered, htotals, hdepth, hhigh, hlow⟩
    · rw [hget] at hturn
      obtain ⟨rfl, rfl⟩ := Prod.mk.inj (Option.some.inj hturn)
      exact h.get hq rfl rfl rfl List.length_append
  | drained tasks =>
    obtain ⟨rfl, rfl⟩ := Prod.mk.inj (Option.some.inj hturn)
    exact h.drainSection (hempty tasks rfl)

end Turns

/-- A call is made. -/
theorem Accounted.start (h : Accounted cfg s) (c : QueueCall) :
    Accounted cfg { s with calls := s.calls ++ c.start.toList } := by
  have hstart : ∀ phase : CallPhase, phase.entering = false → phase.uncounted = 0 →
      Accounted cfg { s with calls := s.calls ++ [phase] } := by
    intro phase hentering huncounted
    obtain ⟨hregistered, htotals, hdepth, hhigh, hlow⟩ := h
    suffices hfirst : Accounted cfg { s with calls := phase :: s.calls } from
      hfirst.perm (List.perm_append_singleton phase s.calls).symm
    refine ⟨hregistered, ?_, ?_, ?_, fun hflag => ?_⟩
    · dsimp only
      rw [List.countP_cons_of_neg (by simp [hentering]), List.map_cons, List.sum_cons, huncounted,
        zero_add]
      exact htotals
    · refine hdepth.imp id (Or.imp (fun hany => ?_) fun hany => ?_)
      · simp [hany]
      · simp [hany]
    · simp only [List.any_cons, hentering, Bool.false_or]
      exact hhigh
    · refine (hlow hflag).imp id fun hany => ?_
      simp [hany]
  cases c with
  | enqueue task w =>
    unfold QueueCall.start
    dsimp only
    split_ifs
    · exact hstart _ rfl rfl
    · rw [Option.toList_none, List.append_nil]
      exact h
  | dequeue w => exact hstart _ rfl rfl
  | drain => exact hstart _ rfl rfl

/-- A list splits at the element with an index. -/
theorem eq_take_append_drop {calls : List CallPhase} {i : ℕ} {phase : CallPhase}
    (h : calls[i]? = some phase) : calls = calls.take i ++ phase :: calls.drop (i + 1) := by
  obtain ⟨hlt, rfl⟩ := List.getElem?_eq_some_iff.mp h
  rw [← List.drop_eq_getElem_cons hlt, List.take_append_drop]

/-- A step keeps the account, if it is not the section of a `drain` that finds tasks in the queue.
-/
theorem Accounted.step (h : Accounted cfg s) {a : ConcurrentAction} (hempty : s.SettlesEmpty a)
    (hst : s.step cfg a = some t) : Accounted cfg t := by
  cases a with
  | call c =>
    obtain rfl := Option.some.inj hst
    exact h.start c
  | turn i =>
    unfold ConcurrentUse.step at hst
    dsimp only at hst
    rcases hphase : s.calls[i]? with _ | phase
    · rw [hphase] at hst
      cases hst
    · rw [hphase] at hst
      obtain ⟨⟨next, bq⟩, hturn, rfl⟩ := Option.map_eq_some_iff.mp hst
      -- The call takes its turn as if it were the first.
      have hfirst : Accounted cfg
          { queue := s.queue, calls := phase :: (s.calls.take i ++ s.calls.drop (i + 1)) } := by
        have hperm := (List.Perm.of_eq (eq_take_append_drop hphase)).trans List.perm_middle
        exact h.perm hperm
      have hdrained : ∀ tasks, phase = .drained tasks → s.queue.q = [] := by
        rintro tasks rfl
        exact hempty tasks hphase
      refine (hfirst.turn hdrained hturn).perm ?_
      rw [← List.append_assoc]
      exact List.perm_append_comm.append_right _
  | others monitor =>
    unfold ConcurrentUse.step at hst
    dsimp only at hst
    split_ifs at hst with hsame
    obtain rfl := Option.some.inj hst
    have hdepth : monitor.depth? cfg.queueName = s.queue.monitor.depth? cfg.queueName := by
      unfold BackpressureMonitor.depth?
      rw [hsame]
    obtain ⟨hregistered, htotals, hreport, hhigh, hlow⟩ := h
    exact ⟨hdepth ▸ hregistered, htotals, hdepth ▸ hreport, hhigh, hlow⟩

/-- The section of a `drain` that finds tasks in the queue leaves a depth that is not the size. -/
theorem BackpressureQueue.not_consistent_drainSection {bq : BackpressureQueue} (hq : bq.q ≠ [])
    (taken : ℕ) : ¬ Consistent cfg (bq.drainSection cfg taken).2 := by
  intro hconsistent
  have hpos : 0 < bq.size := List.length_pos_iff.mpr hq
  cases hold : bq.monitor.depth? cfg.queueName with
  | some old =>
    obtain ⟨monitor, hzero, heq⟩ := BackpressureQueue.drainSection_eq _ hold taken
    rw [heq] at hconsistent
    have hsize : (0 : ℤ) = bq.size := Option.some.inj (hzero.symm.trans hconsistent.depth)
    omega
  -- The queue is not registered, and the update of its depth raises.
  | none =>
    rw [BackpressureQueue.drainSection_error _ hold taken] at hconsistent
    cases hold.symm.trans hconsistent.depth

/-- In the quiescent states of every run in which no `drain` section finds tasks in the queue, the
books agree with the contents. A `drain` section that does leaves books that do not agree. -/
theorem concurrent_consistent (cfg : QueueConfig) :
    (∀ (monitor : BackpressureMonitor) (as : List ConcurrentAction) (s : ConcurrentUse),
      Along (ConcurrentUse.step cfg) ConcurrentUse.SettlesEmpty (.init cfg monitor) as →
      run (ConcurrentUse.step cfg) (.init cfg monitor) as = some s →
      s.calls = [] → Consistent cfg s.queue) ∧
    ∀ (s t : ConcurrentUse) (a : ConcurrentAction), ¬ s.SettlesEmpty a →
      s.step cfg a = some t → ¬ Consistent cfg t.queue := by
  refine ⟨fun monitor as s hempty h hquiescent => ?_, fun s t a hnot hst => ?_⟩
  · have haccounted : Accounted cfg s :=
      run_induction_along (I := Accounted cfg) (fun _ _ _ hI hok hst => hI.step hok hst)
        (.init cfg monitor) hempty h
    exact haccounted.consistent hquiescent
  · cases a with
    | call c => exact absurd trivial hnot
    | others monitor => exact absurd trivial hnot
    | turn i =>
      unfold ConcurrentUse.SettlesEmpty at hnot
      dsimp only at hnot
      push Not at hnot
      obtain ⟨tasks, hphase, hq⟩ := hnot
      unfold ConcurrentUse.step at hst
      dsimp only at hst
      rw [hphase] at hst
      obtain rfl := Option.some.inj hst
      exact BackpressureQueue.not_consistent_drainSection hq tasks.length

/-- One thread drains the empty queue, and another adds a task before the section of the drain. -/
def drainRace : List ConcurrentAction :=
  [.call .drain, .turn 0, .call (.enqueue { object := "t1" } {}), .turn 1, .turn 1, .turn 0]

/-- After the race of a drain with an enqueue, no call is in progress and the queue holds a task,
and the monitor has the depth zero. -/
theorem drain_races :
    ¬ ∀ (cfg : QueueConfig) (monitor : BackpressureMonitor) (as : List ConcurrentAction)
      (s : ConcurrentUse), run (ConcurrentUse.step cfg) (.init cfg monitor) as = some s →
      s.calls = [] → Consistent cfg s.queue := by
  intro hall
  obtain ⟨s, hs, heq⟩ := Option.map_eq_some_iff.mp
    (show (run (ConcurrentUse.step twoPlaces) (.init twoPlaces {}) drainRace).map
      (fun s => (s.calls, s.queue.size, s.queue.monitor.depth? "backpressure_queue")) =
        some ([], 1, some 0) by decide +kernel)
  obtain ⟨hcalls, heq⟩ := Prod.mk.inj heq
  obtain ⟨hsize, hdepth⟩ := Prod.mk.inj heq
  have hreport := (hall twoPlaces {} drainRace s hs hcalls).depth
  rw [hsize] at hreport
  cases hdepth.symm.trans hreport

/-- Two threads enqueue and dequeue in turns, and a drain ends before the next enqueue. -/
def interleaved : List ConcurrentAction :=
  [.call (.enqueue { object := "t1" } {}), .turn 0, .call (.enqueue { object := "t2" } {}), .turn 1,
    .call (.dequeue {}), .turn 2, .turn 2, .turn 1, .turn 0, .call .drain, .turn 0, .turn 0,
    .turn 0]

/-- `concurrent_consistent` on calls that interleave. -/
theorem concurrent_consistent_interleaved :
    ∃ s, run (ConcurrentUse.step twoPlaces) (.init twoPlaces {}) interleaved = some s ∧
      Consistent twoPlaces s.queue := by
  obtain ⟨s, hs, hcalls⟩ := Option.map_eq_some_iff.mp
    (show (run (ConcurrentUse.step twoPlaces) (.init twoPlaces {}) interleaved).map
      ConcurrentUse.calls = some [] by decide +kernel)
  exact ⟨s, hs,
    (concurrent_consistent twoPlaces).1 {} interleaved s (by decide +kernel) hs hcalls⟩

end MeshRouter.Backpressure
