import MeshRouter.Backpressure.Sequential

/-!
# Draining the queue at once or task by task

`drain` beside calls of `dequeue_nowait` until the queue is empty. Both take every task in order and
report the depth zero. But `drain` clears the flag always, and `dequeue` only below the low
watermark: with a low watermark of zero it never does. `drainAgrees_iff` compares the two from every
state, and `drain_agrees` from the states that calls reach.
-/

namespace MeshRouter.Backpressure

open Lib

namespace BackpressureQueue

variable (cfg : QueueConfig)

/-- `dequeue_nowait`. -/
def dequeueNowait (bq : BackpressureQueue) :
    Option (Except QueueError Task × BackpressureQueue) :=
  bq.dequeue cfg { block := false }

/-- Calls of `dequeue_nowait` until one raises `QueueEmptyError`, for so many turns: the tasks, or
what else a call raised. -/
def dequeueAll : ℕ → BackpressureQueue → Option (Except QueueError (List Task) × BackpressureQueue)
  | 0, _ => none
  | turns + 1, bq =>
    match bq.dequeueNowait cfg with
    | some (.ok task, bq) => (dequeueAll turns bq).map fun (r, bq) => (r.map (task :: ·), bq)
    | some (.error (.queueEmpty _), bq) => some (.ok [], bq)
    | some (.error e, bq) => some (.error e, bq)
    | none => none

/-- Two queues have the same contents and counters, the same flag and the same depth in the monitor.
-/
structure SameBooks (bq bq' : BackpressureQueue) : Prop where
  q : bq.q = bq'.q
  enqueuedTotal : bq.enqueuedTotal = bq'.enqueuedTotal
  dequeuedTotal : bq.dequeuedTotal = bq'.dequeuedTotal
  droppedTotal : bq.droppedTotal = bq'.droppedTotal
  underPressure : bq.underPressure = bq'.underPressure
  depth : bq.monitor.depth? cfg.queueName = bq'.monitor.depth? cfg.queueName

/-- `drain` returns the tasks that the calls of `dequeue_nowait` return, and leaves the same books.
-/
def DrainAgrees (bq : BackpressureQueue) : Prop :=
  ∃ tasks bq₁ bq₂, bq.drain cfg = (.ok tasks, bq₁) ∧
    bq.dequeueAll cfg (bq.size + 1) = some (.ok tasks, bq₂) ∧ SameBooks cfg bq₁ bq₂

variable {cfg} {bq : BackpressureQueue}

/-- From the empty queue `dequeue_nowait` raises `QueueEmptyError`. -/
theorem dequeueNowait_of_empty (hq : bq.q = []) :
    bq.dequeueNowait cfg = some (.error (.queueEmpty cfg.queueName), bq) := by
  unfold dequeueNowait dequeue getTask
  rw [hq]
  rfl

/-- From a registered queue with tasks `dequeue_nowait` returns the first one. -/
theorem dequeueNowait_of_registered {old : ℤ} {task : Task} {rest : List Task}
    (h : bq.monitor.depth? cfg.queueName = some old) (hq : bq.q = task :: rest) :
    ∃ monitor : BackpressureMonitor, monitor.depth? cfg.queueName = some (rest.length : ℤ) ∧
      bq.dequeueNowait cfg = some (.ok task, { bq with
        q := rest
        dequeuedTotal := bq.dequeuedTotal + 1
        underPressure := bq.underPressure &&
          decide (cfg.lowWatermark ≤ (rest.length : ℚ) / cfg.maxSize)
        monitor := monitor }) := by
  obtain ⟨monitor, hdepth, hsection⟩ := dequeueSection_eq { bq with q := rest } h
  refine ⟨monitor, hdepth, ?_⟩
  unfold dequeueNowait dequeue getTask
  rw [hq]
  have hwaits : ({ block := false } : Waiting).negative = false := rfl
  dsimp only
  rw [hwaits, if_neg Bool.false_ne_true, hsection]
  rfl

/-- The flag after a `dequeue` and the calls that follow it. -/
theorem flag_cleared (cfg : QueueConfig) (rest : List Task) :
    (decide (cfg.lowWatermark ≤ (rest.length : ℚ) / cfg.maxSize) &&
      (decide (rest = []) || decide (cfg.lowWatermark = 0))) = decide (cfg.lowWatermark = 0) := by
  have hfill : (0 : ℚ) ≤ (rest.length : ℚ) / cfg.maxSize :=
    div_nonneg (Nat.cast_nonneg _) (Nat.cast_nonneg _)
  have hlow := cfg.lowWatermark_nonneg
  by_cases hzero : cfg.lowWatermark = 0
  · simp [hzero, hfill]
  · rcases rest with _ | ⟨task, rest⟩
    · have habove : ¬ cfg.lowWatermark ≤ 0 := fun hle => hzero (le_antisymm hle hlow)
      simp [hzero, habove]
    · simp [hzero]

/-- Given enough turns, the calls of `dequeue_nowait` take every task of a registered queue. The
flag stays up only if nothing was taken or the low watermark is zero. -/
theorem dequeueAll_eq {turns : ℕ} {old : ℤ} (hturns : bq.size < turns)
    (h : bq.monitor.depth? cfg.queueName = some old) :
    ∃ monitor : BackpressureMonitor,
      monitor.depth? cfg.queueName = some (if bq.q = [] then old else 0) ∧
      bq.dequeueAll cfg turns = some (.ok bq.q, { bq with
        q := []
        dequeuedTotal := bq.dequeuedTotal + bq.size
        underPressure := bq.underPressure && (decide (bq.q = []) || decide (cfg.lowWatermark = 0))
        monitor := monitor }) := by
  induction turns generalizing bq old with
  | zero => cases hturns
  | succ turns ih =>
    unfold dequeueAll
    rcases hq : bq.q with _ | ⟨task, rest⟩
    · rw [dequeueNowait_of_empty hq]
      refine ⟨bq.monitor, h, ?_⟩
      simp [size, hq]
      rw [← hq]
    · obtain ⟨monitor, hdepth, heq⟩ := dequeueNowait_of_registered h hq
      have hsize : size { bq with
          q := rest
          dequeuedTotal := bq.dequeuedTotal + 1
          underPressure := bq.underPressure &&
            decide (cfg.lowWatermark ≤ (rest.length : ℚ) / cfg.maxSize)
          monitor := monitor } < turns := by
        unfold size at hturns ⊢
        rw [hq, List.length_cons] at hturns
        exact Nat.lt_of_succ_lt_succ hturns
      obtain ⟨monitor', hdepth', hrest⟩ := ih hsize hdepth
      rw [heq]
      dsimp only
      rw [hrest]
      refine ⟨monitor', ?_, ?_⟩
      · dsimp only at hdepth'
        rw [hdepth', if_neg (List.cons_ne_nil task rest)]
        split_ifs with hrest
        · rw [hrest, List.length_nil, Nat.cast_zero]
        · rfl
      · have hcount : bq.dequeuedTotal + 1 + rest.length = bq.dequeuedTotal + bq.size := by
          unfold size
          rw [hq, List.length_cons]
          omega
        dsimp only [size, Except.map, Option.map_some]
        rw [Bool.and_assoc, flag_cleared, hcount]
        simp [size]

/-- `drain` takes every task of a registered queue, and the flag is down after it. -/
theorem drain_of_registered {old : ℤ} (h : bq.monitor.depth? cfg.queueName = some old) :
    ∃ monitor : BackpressureMonitor, monitor.depth? cfg.queueName = some 0 ∧
      bq.drain cfg = (.ok bq.q, { bq with
        q := []
        dequeuedTotal := bq.dequeuedTotal + bq.size
        underPressure := false
        monitor := monitor }) := by
  obtain ⟨monitor, hdepth, hsection⟩ := drainSection_eq { bq with q := [] } h bq.q.length
  refine ⟨monitor, hdepth, ?_⟩
  unfold drain
  rw [takeAll_eq (Nat.lt_succ_self _)]
  dsimp only
  rw [hsection]
  rfl

/-- `drain` of a queue that is not registered raises. -/
theorem drain_of_unregistered (h : bq.monitor.depth? cfg.queueName = none) :
    (bq.drain cfg).1 = .error (.monitor (.notRegistered cfg.queueName)) := by
  unfold drain
  rw [takeAll_eq (Nat.lt_succ_self _)]
  dsimp only
  rw [drainSection_error { bq with q := [] } h]

/-- From any state, `drain` agrees with the calls of `dequeue_nowait` exactly when the queue is
registered, with the depth zero if it is empty, and the flag, if it is up, is one that the calls
clear: there are tasks, and the low watermark is above zero. -/
theorem drainAgrees_iff (cfg : QueueConfig) (bq : BackpressureQueue) :
    bq.DrainAgrees cfg ↔
      (∃ depth, bq.monitor.depth? cfg.queueName = some depth ∧ (bq.q = [] → depth = 0)) ∧
        (bq.underPressure = true → bq.q ≠ [] ∧ 0 < cfg.lowWatermark) := by
  unfold DrainAgrees
  cases hregistered : bq.monitor.depth? cfg.queueName with
  | none =>
    constructor
    · rintro ⟨tasks, bq₁, bq₂, hdrain, -⟩
      have hraises := drain_of_unregistered hregistered
      rw [hdrain] at hraises
      cases hraises
    · rintro ⟨⟨depth, hdepth, -⟩, -⟩
      cases hdepth
  | some old =>
    obtain ⟨monitor₁, hdepth₁, hdrain⟩ := drain_of_registered hregistered
    obtain ⟨monitor₂, hdepth₂, hcalls⟩ := dequeueAll_eq (Nat.lt_succ_self _) hregistered
    rw [hdrain, hcalls]
    constructor
    · rintro ⟨tasks, bq₁, bq₂, heq₁, heq₂, hsame⟩
      obtain ⟨-, rfl⟩ := Prod.mk.inj heq₁
      obtain ⟨-, rfl⟩ := Prod.mk.inj (Option.some.inj heq₂)
      have hdepth := hsame.depth
      have hflag := hsame.underPressure
      dsimp only at hdepth hflag
      rw [hdepth₁, hdepth₂] at hdepth
      refine ⟨⟨old, rfl, fun hempty => ?_⟩, fun hup => ⟨fun hempty => ?_, ?_⟩⟩
      · rw [if_pos hempty] at hdepth
        exact (Option.some.inj hdepth).symm
      · simp [hup, hempty] at hflag
      · have hzero : cfg.lowWatermark ≠ 0 := fun hzero => by simp [hup, hzero] at hflag
        exact lt_of_le_of_ne cfg.lowWatermark_nonneg (Ne.symm hzero)
    · rintro ⟨⟨depth, hdepth, hempty⟩, hup⟩
      obtain rfl := Option.some.inj hdepth
      refine ⟨_, _, _, rfl, rfl, rfl, rfl, rfl, rfl, ?_, ?_⟩
      · cases hflag : bq.underPressure with
        | false => rfl
        | true =>
          obtain ⟨htasks, hpos⟩ := hup hflag
          simp [htasks, hpos.ne']
      · dsimp only
        rw [hdepth₁, hdepth₂]
        split_ifs with hnone
        · rw [hempty hnone]
        · rfl

end BackpressureQueue

/-- In the states that calls reach, an empty queue has the depth zero, and the flag is up over an
empty queue only if the low watermark is zero. -/
theorem drain_agrees_of_consistent {cfg : QueueConfig} {bq : BackpressureQueue}
    (h : Consistent cfg bq) :
    bq.DrainAgrees cfg ↔ (bq.underPressure = true → 0 < cfg.lowWatermark) := by
  have hempty : bq.q = [] → bq.size = 0 := congrArg List.length
  rw [BackpressureQueue.drainAgrees_iff]
  constructor
  · exact fun hagrees hup => (hagrees.2 hup).2
  · intro hlow
    refine ⟨⟨_, h.depth, fun hq => ?_⟩, fun hup => ⟨fun hq => ?_, hlow hup⟩⟩
    · rw [hempty hq, Nat.cast_zero]
    · have hfill : bq.fill cfg = 0 := by
        unfold BackpressureQueue.fill
        rw [hempty hq, Nat.cast_zero, zero_div]
      exact absurd (h.low hup) (not_le.mpr (hfill ▸ hlow hup))

/-- From every state `drain` agrees with the calls of `dequeue_nowait` under the condition of
`drainAgrees_iff`, and in the states that calls reach this comes to: the flag is down, or the low
watermark is above zero. -/
theorem drain_agrees (cfg : QueueConfig) :
    (∀ bq : BackpressureQueue, bq.DrainAgrees cfg ↔
      (∃ depth, bq.monitor.depth? cfg.queueName = some depth ∧ (bq.q = [] → depth = 0)) ∧
        (bq.underPressure = true → bq.q ≠ [] ∧ 0 < cfg.lowWatermark)) ∧
    ∀ (monitor : BackpressureMonitor) (as : List QueueAction) (s : SequentialUse),
      run (SequentialUse.step cfg) (.init cfg monitor) as = some s →
      (s.queue.DrainAgrees cfg ↔ (s.queue.underPressure = true → 0 < cfg.lowWatermark)) := by
  refine ⟨BackpressureQueue.drainAgrees_iff cfg, fun monitor as s h => ?_⟩
  have hordered : Ordered cfg s :=
    run_induction (I := Ordered cfg) (fun _ _ _ hI hst => hI.step hst) (.init cfg monitor) h
  exact drain_agrees_of_consistent hordered.consistent

/-- The queue of two places is filled, and its flag is up. -/
def filled : List QueueAction :=
  [.call (.enqueue { object := "t1" } {}), .call (.enqueue { object := "t2" } {})]

/-- `drain_agrees` on a filled queue whose low watermark is at a half. -/
theorem drain_agrees_filled :
    ∃ s, run (SequentialUse.step twoPlaces) (.init twoPlaces {}) filled = some s ∧
      s.queue.underPressure = true ∧ s.queue.DrainAgrees twoPlaces := by
  obtain ⟨s, hs, hup⟩ := Option.map_eq_some_iff.mp
    (show (run (SequentialUse.step twoPlaces) (.init twoPlaces {}) filled).map
      (fun s => s.queue.underPressure) = some true by decide +kernel)
  exact ⟨s, hs, hup, ((drain_agrees twoPlaces).2 {} filled s hs).mpr fun _ => by decide +kernel⟩

/-- The bound of a low watermark of zero. -/
theorem zero_nonneg : (0 : ℚ) ≤ 0 := le_rfl

/-- Two places, with the flag up at two tasks and never down below a fill. -/
def noLowWatermark : QueueConfig :=
  { maxSize := 2, highWatermark := 1.0, lowWatermark := 0, maxSize_pos := Nat.two_pos,
    highWatermark_pos := full_pos, highWatermark_le := full_le,
    lowWatermark_nonneg := zero_nonneg, lowWatermark_lt := full_pos }

/-- With a low watermark of zero, the flag of the filled queue is down after a `drain` and up after
the calls of `dequeue_nowait`. -/
theorem filled_keeps_flag :
    ¬ ∀ (cfg : QueueConfig) (monitor : BackpressureMonitor) (as : List QueueAction)
      (s : SequentialUse), run (SequentialUse.step cfg) (.init cfg monitor) as = some s →
      s.queue.DrainAgrees cfg := by
  intro hall
  obtain ⟨s, hs, heq⟩ := Option.map_eq_some_iff.mp
    (show (run (SequentialUse.step noLowWatermark) (.init noLowWatermark {}) filled).map
      (fun s => ((s.queue.drain noLowWatermark).2.underPressure,
        (s.queue.dequeueAll noLowWatermark (s.queue.size + 1)).map (·.2.underPressure))) =
        some (false, some true) by decide +kernel)
  obtain ⟨hdrain, hcalls⟩ := Prod.mk.inj heq
  obtain ⟨tasks, bq₁, bq₂, heq₁, heq₂, hsame⟩ := hall noLowWatermark {} filled s hs
  rw [heq₁] at hdrain
  rw [heq₂] at hcalls
  have hflag := hsame.underPressure
  rw [show bq₁.underPressure = false from hdrain,
    show bq₂.underPressure = true from Option.some.inj hcalls] at hflag
  cases hflag

end MeshRouter.Backpressure
