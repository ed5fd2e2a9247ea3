import MeshRouter.Backpressure.TaskQueue
import MeshRouter.Lib.Runs

/-!
# The task queue, one call at a time

Runs of `enqueue`, `dequeue` and `drain` calls of which each ends before the next begins. Between
them, anything may happen to the monitor that leaves the entry of the queue alone. The log has every
call with what it returned or raised, the latest last.

`sequential_consistent` says that after every call the books agree with the contents (`Consistent`),
that the tasks leave in the order in which they entered, and that the drops are the enqueues that
the full queue rejected.
-/

namespace MeshRouter.Backpressure

open Lib

/-- The books of a queue agree with its contents. -/
structure Consistent (cfg : QueueConfig) (bq : BackpressureQueue) : Prop where
  totals : (bq.enqueuedTotal : ℤ) - bq.dequeuedTotal = bq.size
  depth : bq.monitor.depth? cfg.queueName = some (bq.size : ℤ)
  high : cfg.highWatermark ≤ bq.fill cfg → bq.underPressure = true
  low : bq.underPressure = true → cfg.lowWatermark ≤ bq.fill cfg

/-- A call of a method of the queue. -/
inductive QueueCall where
  | enqueue (task : Task) (w : Waiting)
  | dequeue (w : Waiting)
  | drain
deriving DecidableEq

/-- What a method returns. -/
inductive QueueResult where
  | done
  | task (task : Task)
  | tasks (tasks : List Task)
deriving DecidableEq

/-- A call, or a change of the monitor by others. -/
inductive QueueAction where
  | call (c : QueueCall)
  | others (monitor : BackpressureMonitor)
deriving DecidableEq

/-- A queue, and the calls on it with what they returned or raised. -/
structure SequentialUse where
  queue : BackpressureQueue
  log : List (QueueCall × Except QueueError QueueResult) := []
deriving DecidableEq

/-- What a call returns or raises, and the queue that it leaves, unless it waits for ever. -/
def BackpressureQueue.call (cfg : QueueConfig) (bq : BackpressureQueue) :
    QueueCall → Option (Except QueueError QueueResult × BackpressureQueue)
  | .enqueue task w => (bq.enqueue cfg task w).map fun (r, bq) => (r.map fun _ => .done, bq)
  | .dequeue w => (bq.dequeue cfg w).map fun (r, bq) => (r.map .task, bq)
  | .drain => some ((bq.drain cfg).1.map .tasks, (bq.drain cfg).2)

/-- The task that entered by a call. -/
def enteredBy : QueueCall × Except QueueError QueueResult → List Task
  | (.enqueue task _, .ok _) => [task]
  | _ => []

/-- The tasks that left by a call. -/
def leftBy : QueueCall × Except QueueError QueueResult → List Task
  | (_, .ok (.task task)) => [task]
  | (_, .ok (.tasks tasks)) => tasks
  | _ => []

/-- The call is an enqueue that the full queue rejected. -/
def isRejection : QueueCall × Except QueueError QueueResult → Bool
  | (.enqueue _ _, .error (.queueFull _ _)) => true
  | _ => false

namespace SequentialUse

/-- A new queue. -/
def init (cfg : QueueConfig) (monitor : BackpressureMonitor) : SequentialUse :=
  { queue := .init cfg monitor }

/-- The state after an action. Others do not touch the entry of the queue in the monitor. -/
def step (cfg : QueueConfig) (s : SequentialUse) : QueueAction → Option SequentialUse
  | .call c => (s.queue.call cfg c).map fun (r, bq) => { queue := bq, log := s.log ++ [(c, r)] }
  | .others monitor =>
    if monitor.queues.get? cfg.queueName = s.queue.monitor.queues.get? cfg.queueName then
      some { s with queue := { s.queue with monitor := monitor } }
    else
      none

/-- The tasks that entered, in order. -/
def entered (s : SequentialUse) : List Task := s.log.flatMap enteredBy

/-- The tasks that left, in order. -/
def left (s : SequentialUse) : List Task := s.log.flatMap leftBy

/-- How many enqueues the full queue rejected. -/
def rejected (s : SequentialUse) : ℕ := s.log.countP isRejection

end SequentialUse

/-- The books and the log of a queue agree with its contents. -/
structure Ordered (cfg : QueueConfig) (s : SequentialUse) : Prop where
  consistent : Consistent cfg s.queue
  size_le : s.queue.size ≤ cfg.maxSize
  entered : s.entered = s.left ++ s.queue.q
  dropped : s.queue.droppedTotal = s.rejected

variable {cfg : QueueConfig} {s t : SequentialUse}

/-- A task more fills the queue more. -/
theorem BackpressureQueue.fill_le_fill {bq bq' : BackpressureQueue} (h : bq.size ≤ bq'.size) :
    bq.fill cfg ≤ bq'.fill cfg := by
  unfold BackpressureQueue.fill
  have hsize : (bq.size : ℚ) ≤ bq'.size := by exact_mod_cast h
  exact div_le_div_of_nonneg_right hsize (Nat.cast_nonneg _)

/-- A new queue. -/
theorem Ordered.init (cfg : QueueConfig) (monitor : BackpressureMonitor) :
    Ordered cfg (.init cfg monitor) := by
  refine ⟨⟨rfl, ?_, fun hhigh => ?_, fun hflag => ?_⟩, Nat.zero_le _, rfl, rfl⟩
  · exact BackpressureMonitor.depth?_registerQueue monitor _ (Int.natCast_nonneg _) zero_le_one
  · have hfill : (BackpressureQueue.init cfg monitor).fill cfg = 0 := by
      unfold BackpressureQueue.fill
      exact zero_div _
    have hpos := cfg.highWatermark_pos
    exact absurd (hfill ▸ hhigh) (not_le.mpr hpos)
  · cases hflag

/-- A call keeps the order that accounts for the tasks it added and took. -/
theorem Ordered.logged (h : Ordered cfg s) {e : QueueCall × Except QueueError QueueResult}
    {bq : BackpressureQueue} (hconsistent : Consistent cfg bq) (hsize : bq.size ≤ cfg.maxSize)
    (hcontents : s.queue.q ++ enteredBy e = leftBy e ++ bq.q)
    (hdropped : bq.droppedTotal = s.queue.droppedTotal + if isRejection e then 1 else 0) :
    Ordered cfg { queue := bq, log := s.log ++ [e] } := by
  refine ⟨hconsistent, hsize, ?_, ?_⟩
  · have hentered := h.entered
    unfold SequentialUse.entered SequentialUse.left at hentered ⊢
    rw [List.flatMap_append, List.flatMap_append, hentered, List.flatMap_singleton,
      List.flatMap_singleton, List.append_assoc, hcontents, List.append_assoc]
  · have hrejected := h.dropped
    unfold SequentialUse.rejected at hrejected ⊢
    rw [List.countP_append, List.countP_singleton, ← hrejected]
    exact hdropped

namespace BackpressureQueue

variable {bq : BackpressureQueue}

/-- An `enqueue` adds its task and keeps the books, or leaves the contents. -/
theorem enqueue_cases (h : Consistent cfg bq) (task : Task) (w : Waiting) :
    bq.enqueue cfg task w = none ∨
    (∃ e, (∀ name maxSize, e ≠ .queueFull name maxSize) ∧
      bq.enqueue cfg task w = some (.error e, bq)) ∨
    bq.enqueue cfg task w = some (.error (.queueFull cfg.queueName cfg.maxSize), bq.dropSection) ∨
    ∃ bq', bq.enqueue cfg task w = some (.ok (), bq') ∧ bq.size < cfg.maxSize ∧ Consistent cfg bq' ∧
      bq'.q = bq.q ++ [task] ∧ bq'.droppedTotal = bq.droppedTotal := by
  unfold enqueue
  by_cases hcallable : task.callable = true
  case neg =>
    rw [if_pos hcallable]
    exact Or.inr (Or.inl ⟨.notCallable, by simp, rfl⟩)
  rw [if_neg (not_not.mpr hcallable)]
  by_cases hnegative : w.negative = true
  case pos =>
    rw [if_pos hnegative]
    exact Or.inr (Or.inl ⟨.negativeTimeout, by simp, rfl⟩)
  rw [if_neg hnegative]
  rcases bq.putTask_cases cfg task with ⟨hroom, hput⟩ | ⟨-, hput⟩
  · refine Or.inr (Or.inr (Or.inr ?_))
    rw [hput]
    obtain ⟨monitor, hdepth, hsection⟩ :=
      enqueueSection_eq { bq with q := bq.q ++ [task] } h.depth
    have hsize : ({ bq with q := bq.q ++ [task] } : BackpressureQueue).size = bq.size + 1 :=
      List.length_append
    have hgrown : bq.fill cfg ≤ fill cfg { bq with q := bq.q ++ [task] } :=
      fill_le_fill (by rw [hsize]; exact Nat.le_succ _)
    refine ⟨_, congrArg some hsection, hroom, ⟨?_, hdepth, fun hhigh => ?_, fun hflag => ?_⟩,
      rfl, rfl⟩
    · have htotals := h.totals
      change ((bq.enqueuedTotal + 1 : ℕ) : ℤ) - bq.dequeuedTotal =
        ({ bq with q := bq.q ++ [task] } : BackpressureQueue).size
      rw [hsize]
      push_cast
      omega
    · exact (Bool.or_eq_true _ _).mpr (Or.inr (decide_eq_true hhigh))
    -- The flag was up, or goes up at the high watermark, which is above the low one.
    · rcases (Bool.or_eq_true _ _).mp hflag with hold | hnew
      · exact (h.low hold).trans hgrown
      · exact cfg.lowWatermark_lt.le.trans (of_decide_eq_true hnew)
  · rw [hput]
    dsimp only
    by_cases hforever : w.forever = true
    · rw [if_pos hforever]
      exact Or.inl rfl
    · rw [if_neg hforever]
      exact Or.inr (Or.inr (Or.inl rfl))

/-- A `dequeue` takes the first task and keeps the books, or changes nothing. -/
theorem dequeue_cases (h : Consistent cfg bq) (w : Waiting) :
    bq.dequeue cfg w = none ∨
    (∃ e, bq.dequeue cfg w = some (.error e, bq)) ∨
    ∃ task bq', bq.dequeue cfg w = some (.ok task, bq') ∧ Consistent cfg bq' ∧
      bq.q = task :: bq'.q ∧ bq'.droppedTotal = bq.droppedTotal := by
  unfold dequeue
  by_cases hnegative : w.negative = true
  case pos =>
    rw [if_pos hnegative]
    exact Or.inr (Or.inl ⟨.negativeTimeout, rfl⟩)
  rw [if_neg hnegative]
  rcases bq.getTask_cases with ⟨-, hget⟩ | ⟨task, rest, hq, hget⟩
  · rw [hget]
    dsimp only
    by_cases hforever : w.forever = true
    · rw [if_pos hforever]
      exact Or.inl rfl
    · rw [if_neg hforever]
      exact Or.inr (Or.inl ⟨.queueEmpty cfg.queueName, rfl⟩)
  · refine Or.inr (Or.inr ?_)
    rw [hget]
    dsimp only
    obtain ⟨monitor, hdepth, hsection⟩ :=
      dequeueSection_eq { bq with q := rest } h.depth
    have hsize : bq.size = ({ bq with q := rest } : BackpressureQueue).size + 1 :=
      congrArg List.length hq
    have hshrunk : fill cfg { bq with q := rest } ≤ bq.fill cfg :=
      fill_le_fill (by rw [hsize]; exact Nat.le_succ _)
    rw [hsection]
    refine ⟨task, _, rfl, ⟨?_, hdepth, fun hhigh => ?_, fun hflag => ?_⟩, hq, rfl⟩
    · have htotals := h.totals
      rw [hsize] at htotals
      change (bq.enqueuedTotal : ℤ) - ((bq.dequeuedTotal + 1 : ℕ) : ℤ) =
        ({ bq with q := rest } : BackpressureQueue).size
      push_cast at htotals ⊢
      omega
    -- The flag was up, and stays up at the high watermark, which is above the low one.
    · exact (Bool.and_eq_true _ _).mpr ⟨h.high (hhigh.trans hshrunk),
        decide_eq_true (cfg.lowWatermark_lt.le.trans hhigh)⟩
    · exact of_decide_eq_true ((Bool.and_eq_true _ _).mp hflag).2

/-- A `drain` that nothing interrupts takes every task and keeps the books. -/
theorem drain_cases (h : Consistent cfg bq) :
    ∃ bq', bq.drain cfg = (.ok bq.q, bq') ∧ Consistent cfg bq' ∧ bq'.q = [] ∧
      bq'.droppedTotal = bq.droppedTotal := by
  unfold drain
  rw [takeAll_eq (Nat.lt_succ_self _)]
  dsimp only
  obtain ⟨monitor, hdepth, hsection⟩ :=
    drainSection_eq { bq with q := [] } h.depth bq.q.length
  rw [hsection]
  refine ⟨_, rfl, ⟨?_, hdepth, fun hhigh => ?_, fun hflag => ?_⟩, rfl, rfl⟩
  · have htotals := h.totals
    unfold size at htotals ⊢
    dsimp only
    push_cast
    rw [List.length_nil]
    omega
  · have hfill : fill cfg { bq with q := [] } = 0 := by
      unfold fill
      exact zero_div _
    exact absurd (hfill ▸ hhigh) (not_le.mpr cfg.highWatermark_pos)
  · cases hflag

end BackpressureQueue

/-- A call keeps the order. -/
theorem Ordered.call (h : Ordered cfg s) {c : QueueCall} {r : Except QueueError QueueResult}
    {bq : BackpressureQueue} (hcall : s.queue.call cfg c = some (r, bq)) :
    Ordered cfg { queue := bq, log := s.log ++ [(c, r)] } := by
  unfold BackpressureQueue.call at hcall
  cases c with
  | enqueue task w =>
    obtain ⟨⟨result, bq'⟩, hresult, heq⟩ := Option.map_eq_some_iff.mp hcall
    obtain ⟨rfl, rfl⟩ := Prod.mk.inj heq
    rcases BackpressureQueue.enqueue_cases h.consistent task w with
      hnone | ⟨e, he, herror⟩ | hfull | ⟨bq'', hok, hroom, hconsistent, hq, hdropped⟩
    · rw [hnone] at hresult
      cases hresult
    · rw [herror] at hresult
      obtain ⟨rfl, rfl⟩ := Prod.mk.inj (Option.some.inj hresult)
      refine h.logged h.consistent h.size_le (List.append_nil _) ?_
      cases e with
      | queueFull name maxSize => exact absurd rfl (he name maxSize)
      | notCallable | negativeTimeout | queueEmpty | monitor => rfl
    · rw [hfull] at hresult
      obtain ⟨rfl, rfl⟩ := Prod.mk.inj (Option.some.inj hresult)
      have hsame : Consistent cfg s.queue.dropSection :=
        ⟨h.consistent.totals, h.consistent.depth, h.consistent.high, h.consistent.low⟩
      exact h.logged hsame h.size_le (List.append_nil _) rfl
    · rw [hok] at hresult
      obtain ⟨rfl, rfl⟩ := Prod.mk.inj (Option.some.inj hresult)
      have hsize : bq''.size ≤ cfg.maxSize := by
        unfold BackpressureQueue.size
        rw [hq, List.length_append]
        exact hroom
      exact h.logged hconsistent hsize hq.symm hdropped
  | dequeue w =>
    obtain ⟨⟨result, bq'⟩, hresult, heq⟩ := Option.map_eq_some_iff.mp hcall
    obtain ⟨rfl, rfl⟩ := Prod.mk.inj heq
    rcases BackpressureQueue.dequeue_cases h.consistent w with
      hnone | ⟨e, herror⟩ | ⟨task, bq'', hok, hconsistent, hq, hdropped⟩
    · rw [hnone] at hresult
      cases hresult
    · rw [herror] at hresult
      obtain ⟨rfl, rfl⟩ := Prod.mk.inj (Option.some.inj hresult)
      exact h.logged h.consistent h.size_le (List.append_nil _) rfl
    · rw [hok] at hresult
      obtain ⟨rfl, rfl⟩ := Prod.mk.inj (Option.some.inj hresult)
      have hsize : bq''.size ≤ cfg.maxSize := by
        have hle := h.size_le
        unfold BackpressureQueue.size at hle ⊢
        rw [hq, List.length_cons] at hle
        exact Nat.le_of_succ_le hle
      exact h.logged hconsistent hsize ((List.append_nil _).trans hq) hdropped
  | drain =>
    obtain ⟨bq', hdrain, hconsistent, hq, hdropped⟩ :=
      BackpressureQueue.drain_cases h.consistent
    rw [hdrain] at hcall
    obtain ⟨rfl, rfl⟩ := Prod.mk.inj (Option.some.inj hcall)
    have hsize : bq'.size ≤ cfg.maxSize := by
      unfold BackpressureQueue.size
      rw [hq]
      exact Nat.zero_le _
    refine h.logged hconsistent hsize ?_ hdropped
    rw [hq]
    rfl

/-- A step keeps the order. -/
theorem Ordered.step (h : Ordered cfg s) {a : QueueAction} (hst : s.step cfg a = some t) :
    Ordered cfg t := by
  cases a with
  | call c =>
    obtain ⟨⟨r, bq⟩, hcall, rfl⟩ := Option.map_eq_some_iff.mp hst
    exact h.call hcall
  | others monitor =>
    unfold SequentialUse.step at hst
    dsimp only at hst
    split_ifs at hst with hsame
    obtain rfl := Option.some.inj hst
    have hdepth : monitor.depth? cfg.queueName = some (s.queue.size : ℤ) := by
      unfold BackpressureMonitor.depth?
      rw [hsame]
      exact h.consistent.depth
    exact ⟨⟨h.consistent.totals, hdepth, h.consistent.high, h.consistent.low⟩, h.size_le, h.entered,
      h.dropped⟩

/-- After every call of a sequential run: the books agree with the contents, the queue is not over
full, the tasks left in the order in which they entered, and the drops are the enqueues that the
full queue rejected. -/
theorem sequential_consistent {cfg : QueueConfig} {monitor : BackpressureMonitor}
    {as : List QueueAction} {s : SequentialUse}
    (h : run (SequentialUse.step cfg) (.init cfg monitor) as = some s) :
    Consistent cfg s.queue ∧ s.queue.size ≤ cfg.maxSize ∧ s.entered = s.left ++ s.queue.q ∧
      s.queue.droppedTotal = s.rejected := by
  have hordered : Ordered cfg s :=
    run_induction (I := Ordered cfg) (fun _ _ _ hI hst => hI.step hst) (.init cfg monitor) h
  exact ⟨hordered.consistent, hordered.size_le, hordered.entered, hordered.dropped⟩

/-- A full queue has tasks. -/
theorem full_pos : (0 : ℚ) < 1.0 := by decide +kernel

/-- The bounds of a watermark at a half. -/
theorem half_nonneg : (0 : ℚ) ≤ 0.5 := by decide +kernel

theorem half_lt_full : (0.5 : ℚ) < 1.0 := by decide +kernel

theorem full_le : (1.0 : ℚ) ≤ 1 := by decide +kernel

/-- Two places, with the flag up at two tasks and down below one. -/
def twoPlaces : QueueConfig :=
  { maxSize := 2, highWatermark := 1.0, lowWatermark := 0.5, maxSize_pos := Nat.two_pos,
    highWatermark_pos := full_pos, highWatermark_le := full_le,
    lowWatermark_nonneg := half_nonneg, lowWatermark_lt := half_lt_full }

/-- The queue is filled, rejects a task, gives out one and is drained. -/
def filledAndDrained : List QueueAction :=
  [.call (.enqueue { object := "t1" } {}), .call (.enqueue { object := "t2" } {}),
    .call (.enqueue { object := "t3" } { block := false }), .call (.dequeue {}), .call .drain,
    .call (.dequeue { timeout := some 1 })]

/-- `sequential_consistent` on a queue that is filled and drained. -/
theorem sequential_consistent_filledAndDrained :
    ∃ s, run (SequentialUse.step twoPlaces) (.init twoPlaces {}) filledAndDrained = some s ∧
      s.left.map Task.object = ["t1", "t2"] ∧ Consistent twoPlaces s.queue ∧
      s.queue.droppedTotal = 1 := by
  obtain ⟨s, hs, heq⟩ := Option.map_eq_some_iff.mp
    (show (run (SequentialUse.step twoPlaces) (.init twoPlaces {}) filledAndDrained).map
      (fun s => (s.left.map Task.object, s.rejected)) = some (["t1", "t2"], 1) by decide +kernel)
  obtain ⟨hleft, hrejected⟩ := Prod.mk.inj heq
  obtain ⟨hconsistent, -, -, hdropped⟩ := sequential_consistent hs
  exact ⟨s, hs, hleft, hconsistent, hdropped.trans hrejected⟩

end MeshRouter.Backpressure
