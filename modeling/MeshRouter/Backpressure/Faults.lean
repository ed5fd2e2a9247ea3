import MeshRouter.Backpressure.Concurrent

/-!
# The task queue on a monitor that changes under it

The calls of `Backpressure/Concurrent.lean` with the exceptions that end them, while others register
and deregister queues at the monitor, this one among them. A call moves its tasks in and out of the
`queue.Queue` before its section reports the new depth, and the report raises if the queue is not
registered then: the call ends with an exception, and what it moved stays moved.

Every call in progress is kept with whether one of its turns changed the contents.
`raised_untouched_iff` says that the calls that raise have moved nothing exactly in the runs in
which no section with tasks to report finds the queue unregistered.
-/

namespace MeshRouter.Backpressure

open Lib

/-- What a turn of a call comes to. -/
inductive TurnOutcome where
  | continues (next : CallPhase)
  | returns
  | raises (error : QueueError)
deriving DecidableEq

/-- How a section ends its call. -/
def TurnOutcome.ofSection : Except QueueError Unit → TurnOutcome
  | .ok () => .returns
  | .error e => .raises e

/-- What the call does next, if it goes on. -/
def TurnOutcome.next : TurnOutcome → Option CallPhase
  | .continues next => some next
  | .returns => none
  | .raises _ => none

/-- A turn of a call, with what it comes to. `none` if it waits. -/
def BackpressureQueue.advance (cfg : QueueConfig) (bq : BackpressureQueue) :
    CallPhase → Option (TurnOutcome × BackpressureQueue)
  | .putting task w =>
    if w.negative then
      some (.raises .negativeTimeout, bq)
    else
      match bq.putTask cfg task with
      | some bq => some (.continues .entered, bq)
      | none => if w.forever then none else some (.continues .dropping, bq)
  | .entered => some ((bq.enqueueSection cfg).map .ofSection id)
  | .dropping => some (.raises (.queueFull cfg.queueName cfg.maxSize), bq.dropSection)
  | .getting w =>
    if w.negative then
      some (.raises .negativeTimeout, bq)
    else
      match bq.getTask with
      | some (task, bq) => some (.continues (.taken task), bq)
      | none => if w.forever then none else some (.raises (.queueEmpty cfg.queueName), bq)
  | .taken _ => some ((bq.dequeueSection cfg).map .ofSection id)
  | .draining tasks =>
    match bq.getTask with
    | some (task, bq) => some (.continues (.draining (tasks ++ [task])), bq)
    | none => some (.continues (.drained tasks), bq)
  | .drained tasks => some ((bq.drainSection cfg tasks.length).map .ofSection id)

/-- A call in progress, and whether one of its turns changed the contents of the queue. -/
structure CallInProgress where
  phase : CallPhase
  touched : Bool := false
deriving DecidableEq

/-- A call is made, a call in progress takes its turn, or another component calls the monitor. -/
inductive FaultyAction where
  | call (c : QueueCall)
  | turn (i : ℕ)
  | monitor (c : MonitorCall)
deriving DecidableEq

/-- A queue, the calls in progress, and the exceptions that ended a call, with whether the call had
changed the contents of the queue. -/
structure FaultyUse where
  queue : BackpressureQueue
  calls : List CallInProgress := []
  raised : List (QueueError × Bool) := []
deriving DecidableEq

namespace FaultyUse

/-- A new queue. -/
def init (cfg : QueueConfig) (monitor : BackpressureMonitor) : FaultyUse :=
  { queue := .init cfg monitor }

/-- The state after a turn of the `i`-th call. -/
def turned (s : FaultyUse) (i : ℕ) (call : CallInProgress) (outcome : TurnOutcome)
    (bq : BackpressureQueue) : FaultyUse :=
  let touched := call.touched || decide (bq.q ≠ s.queue.q)
  match outcome with
  | .continues next => { s with queue := bq, calls := s.calls.set i ⟨next, touched⟩ }
  | .returns => { s with queue := bq, calls := s.calls.eraseIdx i }
  | .raises e =>
    { s with queue := bq, calls := s.calls.eraseIdx i, raised := s.raised ++ [(e, touched)] }

/-- The state after an action. -/
def step (cfg : QueueConfig) (s : FaultyUse) : FaultyAction → Option FaultyUse
  | .call c =>
    match c.start with
    | some phase => some { s with calls := s.calls ++ [{ phase := phase }] }
    | none => some { s with raised := s.raised ++ [(.notCallable, false)] }
  | .turn i =>
    match s.calls[i]? with
    | none => none
    | some call =>
      (s.queue.advance cfg call.phase).map fun (outcome, bq) => s.turned i call outcome bq
  | .monitor c => some { s with queue := { s.queue with monitor := s.queue.monitor.apply c } }

/-- No call that raised had put a task in or taken one out. -/
def RaisedUntouched (s : FaultyUse) : Prop := ∀ r ∈ s.raised, r.2 = false

end FaultyUse

/-- The call has put a task or taken one. -/
def CallPhase.moved : CallPhase → Bool
  | .entered => true
  | .taken _ => true
  | .draining tasks => !tasks.isEmpty
  | .drained tasks => !tasks.isEmpty
  | _ => false

/-- The call's next turn is its section, and reports what the call has put or taken. -/
def CallPhase.reports : CallPhase → Bool
  | .entered => true
  | .taken _ => true
  | .drained tasks => !tasks.isEmpty
  | _ => false

/-- If the step is a section that has tasks to report, the monitor knows the queue. -/
def FaultyUse.ReportsRegistered (cfg : QueueConfig) (s : FaultyUse) : FaultyAction → Prop
  | .turn i => ∀ call, s.calls[i]? = some call → call.phase.reports = true →
    (s.queue.monitor.depth? cfg.queueName).isSome = true
  | _ => True

/-- Whether a section finds the queue registered can be computed. -/
instance decidableReportsRegistered (cfg : QueueConfig) (s : FaultyUse) :
    (a : FaultyAction) → Decidable (s.ReportsRegistered cfg a)
  | .call _ => isTrue trivial
  | .monitor _ => isTrue trivial
  | .turn i =>
    decidable_of_iff (∀ call ∈ s.calls[i]?, call.phase.reports = true →
      (s.queue.monitor.depth? cfg.queueName).isSome = true) Iff.rfl

namespace BackpressureQueue

variable {cfg : QueueConfig} {bq bq' : BackpressureQueue}

/-- The update of the depth leaves the contents. -/
theorem q_updateDepth (cfg : QueueConfig) (bq : BackpressureQueue) (depth : ℤ) :
    (bq.updateDepth cfg depth).2.q = bq.q := by
  unfold updateDepth
  rcases bq.monitor.updateDepth cfg.queueName depth with ⟨_ | ⟨⟩, monitor⟩
  · rfl
  · rfl

/-- The section of `enqueue` leaves the contents. -/
theorem q_enqueueSection (cfg : QueueConfig) (bq : BackpressureQueue) :
    (bq.enqueueSection cfg).2.q = bq.q := by
  unfold enqueueSection
  dsimp only
  split_ifs
  · exact q_updateDepth cfg _ _
  · exact q_updateDepth cfg _ _

/-- The section of `dequeue` leaves the contents. -/
theorem q_dequeueSection (cfg : QueueConfig) (bq : BackpressureQueue) :
    (bq.dequeueSection cfg).2.q = bq.q := by
  unfold dequeueSection
  dsimp only
  split_ifs
  · exact q_updateDepth cfg _ _
  · exact q_updateDepth cfg _ _

/-- The section of `drain` leaves the contents. -/
theorem q_drainSection (cfg : QueueConfig) (bq : BackpressureQueue) (taken : ℕ) :
    (bq.drainSection cfg taken).2.q = bq.q := by
  cases hold : bq.monitor.depth? cfg.queueName with
  | none => rw [drainSection_error bq hold taken]
  | some old =>
    obtain ⟨monitor, -, heq⟩ := drainSection_eq bq hold taken
    rw [heq]

/-- A turn of a call is a turn with what it comes to forgotten. -/
theorem turn_eq_advance (cfg : QueueConfig) (bq : BackpressureQueue) (phase : CallPhase) :
    bq.turn cfg phase = (bq.advance cfg phase).map (Prod.map TurnOutcome.next id) := by
  -- A section ends its call.
  have hsection : ∀ r : Except QueueError Unit × BackpressureQueue,
      ((r.map TurnOutcome.ofSection id).map TurnOutcome.next id) = (none, r.2) := by
    rintro ⟨_ | ⟨⟩, bq'⟩
    · rfl
    · rfl
  cases phase with
  | putting task w =>
    unfold turn advance
    dsimp only
    split_ifs
    · rfl
    · cases bq.putTask cfg task <;> rfl
    · cases bq.putTask cfg task <;> rfl
  | getting w =>
    unfold turn advance
    dsimp only
    split_ifs
    · rfl
    · cases bq.getTask <;> rfl
    · cases bq.getTask <;> rfl
  | draining tasks =>
    unfold turn advance
    dsimp only
    cases bq.getTask <;> rfl
  | dropping => rfl
  | entered | taken task | drained tasks => exact congrArg some (hsection _).symm

/-- A section that raises without a registered queue, and only then, ends its call so. -/
structure SectionEnds (cfg : QueueConfig) (bq : BackpressureQueue) (outcome : TurnOutcome) :
    Prop where
  ends : ∀ next, outcome ≠ .continues next
  returns : outcome = .returns → (bq.monitor.depth? cfg.queueName).isSome = true
  raises : ∀ e, outcome = .raises e → bq.monitor.depth? cfg.queueName = none

/-- What a section comes to, from its results with and without a registered queue. -/
theorem sectionEnds {result : Except QueueError Unit}
    (herror : bq.monitor.depth? cfg.queueName = none →
      result = .error (.monitor (.notRegistered cfg.queueName)))
    (hok : ∀ old, bq.monitor.depth? cfg.queueName = some old → result = .ok ()) :
    SectionEnds cfg bq (.ofSection result) := by
  cases hold : bq.monitor.depth? cfg.queueName with
  | none =>
    rw [herror hold]
    exact ⟨fun next h => (by cases h), fun h => (by cases h), fun _ _ => hold⟩
  | some old =>
    rw [hok old hold]
    exact ⟨fun next h => (by cases h), fun _ => by rw [hold]; rfl, fun e h => (by cases h)⟩

/-- The section of `enqueue`. -/
theorem enqueueSection_ends (cfg : QueueConfig) (bq : BackpressureQueue) :
    SectionEnds cfg bq (.ofSection (bq.enqueueSection cfg).1) := by
  refine sectionEnds (enqueueSection_error bq) fun old hold => ?_
  obtain ⟨monitor, -, heq⟩ := enqueueSection_eq bq hold
  rw [heq]

/-- The section of `dequeue`. -/
theorem dequeueSection_ends (cfg : QueueConfig) (bq : BackpressureQueue) :
    SectionEnds cfg bq (.ofSection (bq.dequeueSection cfg).1) := by
  refine sectionEnds (dequeueSection_error bq) fun old hold => ?_
  obtain ⟨monitor, -, heq⟩ := dequeueSection_eq bq hold
  rw [heq]

/-- The section of `drain`. -/
theorem drainSection_ends (cfg : QueueConfig) (bq : BackpressureQueue) (taken : ℕ) :
    SectionEnds cfg bq (.ofSection (bq.drainSection cfg taken).1) := by
  refine sectionEnds (fun hnone => ?_) fun old hold => ?_
  · rw [drainSection_error bq hnone taken]
  · obtain ⟨monitor, -, heq⟩ := drainSection_eq bq hold taken
    rw [heq]

/-- What a turn of a call comes to. A call that goes on had nothing to report, and has moved a task
if it had or if the contents changed; a call that returns has reported, if it had to; and a call
that raises has left the contents in this turn, and had moved tasks only if it is its report that
raised. -/
structure TurnSpec (cfg : QueueConfig) (bq : BackpressureQueue) (phase : CallPhase)
    (outcome : TurnOutcome) (bq' : BackpressureQueue) : Prop where
  continues : ∀ next, outcome = .continues next →
    phase.reports = false ∧ next.moved = (phase.moved || decide (bq'.q ≠ bq.q))
  returns : outcome = .returns → phase.reports = true →
    (bq.monitor.depth? cfg.queueName).isSome = true
  raises : ∀ e, outcome = .raises e → bq'.q = bq.q ∧ phase.moved = phase.reports ∧
    (phase.reports = true → bq.monitor.depth? cfg.queueName = none)

/-- A section does what a turn does. -/
theorem SectionEnds.turnSpec {phase : CallPhase} {outcome : TurnOutcome}
    (h : SectionEnds cfg bq outcome) (hq : bq'.q = bq.q) (hmoved : phase.moved = phase.reports) :
    TurnSpec cfg bq phase outcome bq' :=
  ⟨fun next hnext => absurd hnext (h.ends next), fun hreturns _ => h.returns hreturns,
    fun e he => ⟨hq, hmoved, fun _ => h.raises e he⟩⟩

/-- A call that raises before it has moved anything. -/
theorem turnSpec_of_raises {phase : CallPhase} {e : QueueError} (hq : bq'.q = bq.q)
    (hmoved : phase.moved = false) (hreports : phase.reports = false) :
    TurnSpec cfg bq phase (.raises e) bq' :=
  ⟨fun next h => (by cases h), fun h => (by cases h),
    fun e' _ => ⟨hq, hmoved.trans hreports.symm, fun h => absurd h (by simp [hreports])⟩⟩

/-- A call that goes on. -/
theorem turnSpec_of_continues {phase next : CallPhase} (hreports : phase.reports = false)
    (hmoved : next.moved = (phase.moved || decide (bq'.q ≠ bq.q))) :
    TurnSpec cfg bq phase (.continues next) bq' := by
  refine ⟨fun next' hnext => ?_, fun h => (by cases h), fun e h => (by cases h)⟩
  obtain rfl := TurnOutcome.continues.inj hnext
  exact ⟨hreports, hmoved⟩

/-- Every turn of a call does what a turn does. -/
theorem advance_spec {phase : CallPhase} {outcome : TurnOutcome}
    (h : bq.advance cfg phase = some (outcome, bq')) : TurnSpec cfg bq phase outcome bq' := by
  cases phase with
  | putting task w =>
    unfold advance at h
    dsimp only at h
    by_cases hnegative : w.negative = true
    · rw [if_pos hnegative] at h
      obtain ⟨rfl, rfl⟩ := Prod.mk.inj (Option.some.inj h)
      exact turnSpec_of_raises rfl rfl rfl
    rw [if_neg hnegative] at h
    rcases bq.putTask_cases cfg task with ⟨-, hput⟩ | ⟨-, hput⟩
    · rw [hput] at h
      obtain ⟨rfl, rfl⟩ := Prod.mk.inj (Option.some.inj h)
      exact turnSpec_of_continues rfl (by simp [CallPhase.moved])
    · rw [hput] at h
      dsimp only at h
      split_ifs at h
      obtain ⟨rfl, rfl⟩ := Prod.mk.inj (Option.some.inj h)
      exact turnSpec_of_continues rfl (by simp [CallPhase.moved])
  | getting w =>
    unfold advance at h
    dsimp only at h
    by_cases hnegative : w.negative = true
    · rw [if_pos hnegative] at h
      obtain ⟨rfl, rfl⟩ := Prod.mk.inj (Option.some.inj h)
      exact turnSpec_of_raises rfl rfl rfl
    rw [if_neg hnegative] at h
    rcases bq.getTask_cases with ⟨-, hget⟩ | ⟨task, rest, hq, hget⟩
    · rw [hget] at h
      dsimp only at h
      split_ifs at h
      obtain ⟨rfl, rfl⟩ := Prod.mk.inj (Option.some.inj h)
      exact turnSpec_of_raises rfl rfl rfl
    · rw [hget] at h
      obtain ⟨rfl, rfl⟩ := Prod.mk.inj (Option.some.inj h)
      exact turnSpec_of_continues rfl (by simp [CallPhase.moved, hq])
  | draining tasks =>
    unfold advance at h
    dsimp only at h
    rcases bq.getTask_cases with ⟨-, hget⟩ | ⟨task, rest, hq, hget⟩
    · rw [hget] at h
      obtain ⟨rfl, rfl⟩ := Prod.mk.inj (Option.some.inj h)
      exact turnSpec_of_continues rfl (by simp [CallPhase.moved])
    · rw [hget] at h
      obtain ⟨rfl, rfl⟩ := Prod.mk.inj (Option.some.inj h)
      exact turnSpec_of_continues rfl (by simp [CallPhase.moved, hq])
  | dropping =>
    obtain ⟨rfl, rfl⟩ := Prod.mk.inj (Option.some.inj h)
    exact turnSpec_of_raises rfl rfl rfl
  | entered =>
    obtain ⟨rfl, rfl⟩ := Prod.mk.inj (Option.some.inj h)
    exact (enqueueSection_ends cfg bq).turnSpec (q_enqueueSection cfg bq) rfl
  | taken task =>
    obtain ⟨rfl, rfl⟩ := Prod.mk.inj (Option.some.inj h)
    exact (dequeueSection_ends cfg bq).turnSpec (q_dequeueSection cfg bq) rfl
  | drained tasks =>
    obtain ⟨rfl, rfl⟩ := Prod.mk.inj (Option.some.inj h)
    exact (drainSection_ends cfg bq _).turnSpec (q_drainSection cfg bq _) rfl

end BackpressureQueue

namespace FaultyUse

variable {cfg : QueueConfig} {s t : FaultyUse}

/-- The mark of every call in progress tells whether it has moved a task. -/
def Marked (s : FaultyUse) : Prop := ∀ call ∈ s.calls, call.touched = call.phase.moved

/-- One more exception. -/
theorem raisedUntouched_append {s : FaultyUse} {r : QueueError × Bool} :
    RaisedUntouched { s with raised := s.raised ++ [r] } ↔ s.RaisedUntouched ∧ r.2 = false := by
  unfold RaisedUntouched
  simp [or_imp, forall_and]

/-- A turn keeps the marks. -/
theorem Marked.turned (h : s.Marked) {i : ℕ} {call : CallInProgress}
    (hcall : s.calls[i]? = some call) {outcome : TurnOutcome} {bq : BackpressureQueue}
    (hspec : BackpressureQueue.TurnSpec cfg s.queue call.phase outcome bq) :
    (s.turned i call outcome bq).Marked := by
  unfold FaultyUse.turned
  cases outcome with
  | continues next =>
    intro other hother
    rcases List.mem_or_eq_of_mem_set hother with hold | rfl
    · exact h other hold
    · dsimp only
      rw [(hspec.continues next rfl).2, h call (List.mem_of_getElem? hcall)]
  | returns => exact fun other hother => h other (List.mem_of_mem_eraseIdx hother)
  | raises e => exact fun other hother => h other (List.mem_of_mem_eraseIdx hother)

/-- A turn raises with tasks moved exactly if it is a section that has tasks to report and the queue
is not registered. -/
theorem raisedUntouched_turned (h : s.Marked) {i : ℕ} {call : CallInProgress}
    (hcall : s.calls[i]? = some call) {outcome : TurnOutcome} {bq : BackpressureQueue}
    (hspec : BackpressureQueue.TurnSpec cfg s.queue call.phase outcome bq) :
    (s.turned i call outcome bq).RaisedUntouched ↔
      s.RaisedUntouched ∧ s.ReportsRegistered cfg (.turn i) := by
  have hreports : s.ReportsRegistered cfg (.turn i) ↔
      (call.phase.reports = true → (s.queue.monitor.depth? cfg.queueName).isSome = true) := by
    constructor
    · exact fun hall => hall call hcall
    · intro hone other hother
      obtain rfl := Option.some.inj (hcall.symm.trans hother)
      exact hone
  rw [hreports]
  unfold FaultyUse.turned
  cases outcome with
  | continues next =>
    refine (and_iff_left fun hreport => ?_).symm
    rw [(hspec.continues next rfl).1] at hreport
    cases hreport
  | returns => exact (and_iff_left (hspec.returns rfl)).symm
  | raises e =>
    obtain ⟨hq, hmoved, hunregistered⟩ := hspec.raises e rfl
    have htouched : (call.touched || decide (bq.q ≠ s.queue.q)) = call.phase.reports := by
      rw [h call (List.mem_of_getElem? hcall), hmoved, hq]
      simp
    refine raisedUntouched_append.trans (and_congr_right fun _ => ?_)
    dsimp only
    rw [htouched]
    cases hphase : call.phase.reports with
    | false => simp
    | true => simp [hunregistered hphase]

/-- A call that is made has moved nothing. -/
theorem moved_start {c : QueueCall} {phase : CallPhase} (h : c.start = some phase) :
    phase.moved = false := by
  cases c with
  | enqueue task w =>
    unfold QueueCall.start at h
    dsimp only at h
    split_ifs at h
    obtain rfl := Option.some.inj h
    rfl
  | dequeue w =>
    obtain rfl := Option.some.inj h
    rfl
  | drain =>
    obtain rfl := Option.some.inj h
    rfl

/-- A step keeps the marks, and if no call that raised had moved a task, then this stays so exactly
if no section that has tasks to report finds the queue unregistered. -/
theorem Marked.step (h : s.Marked) {a : FaultyAction} (hst : s.step cfg a = some t) :
    t.Marked ∧ (t.RaisedUntouched ↔ s.RaisedUntouched ∧ s.ReportsRegistered cfg a) := by
  cases a with
  | call c =>
    unfold FaultyUse.step at hst
    dsimp only at hst
    rcases hstart : c.start with _ | phase
    · rw [hstart] at hst
      obtain rfl := Option.some.inj hst
      refine ⟨h, raisedUntouched_append.trans ?_⟩
      simp [ReportsRegistered]
    · rw [hstart] at hst
      obtain rfl := Option.some.inj hst
      refine ⟨fun call hcall => ?_, (and_iff_left trivial).symm⟩
      rcases List.mem_append.mp hcall with hold | hnew
      · exact h call hold
      · rw [List.mem_singleton.mp hnew]
        exact (moved_start hstart).symm
  | turn i =>
    unfold FaultyUse.step at hst
    dsimp only at hst
    rcases hcall : s.calls[i]? with _ | call
    · rw [hcall] at hst
      cases hst
    · rw [hcall] at hst
      obtain ⟨⟨outcome, bq⟩, hadvance, rfl⟩ := Option.map_eq_some_iff.mp hst
      have hspec := BackpressureQueue.advance_spec hadvance
      exact ⟨h.turned hcall hspec, raisedUntouched_turned h hcall hspec⟩
  | monitor c =>
    obtain rfl := Option.some.inj hst
    exact ⟨h, (and_iff_left trivial).symm⟩

end FaultyUse

/-- In every run of calls on a queue and on its monitor: the calls that raise have put no task and
taken none exactly if the monitor knows the queue whenever a section has tasks to report. -/
theorem raised_untouched_iff {cfg : QueueConfig} {monitor : BackpressureMonitor}
    {as : List FaultyAction} {s : FaultyUse}
    (h : run (FaultyUse.step cfg) (.init cfg monitor) as = some s) :
    s.RaisedUntouched ↔
      Along (FaultyUse.step cfg) (FaultyUse.ReportsRegistered cfg) (.init cfg monitor) as := by
  have hmarked : (FaultyUse.init cfg monitor).Marked := fun call hcall => (by cases hcall)
  rw [run_iff_along (I := FaultyUse.Marked) (L := FaultyUse.RaisedUntouched)
    (fun _ _ _ hI hst => hI.step hst) hmarked h]
  exact and_iff_right fun r hr => (by cases hr)

/-- The queue is deregistered while a call is between its two parts, and registered again before the
next section. -/
def reregistered : List FaultyAction :=
  [.call (.enqueue { object := "t1" } {}), .turn 0, .turn 0,
    .monitor (.deregisterQueue "backpressure_queue"), .call (.dequeue {}), .turn 0,
    .call .drain, .turn 1, .monitor (.registerQueue "backpressure_queue" 2 1), .turn 0,
    .monitor (.deregisterQueue "backpressure_queue"), .turn 0]

/-- `raised_untouched_iff` on a run in which a drain without tasks raises. -/
theorem raised_untouched_reregistered :
    ∃ s, run (FaultyUse.step twoPlaces) (.init twoPlaces {}) reregistered = some s ∧
      s.raised.map Prod.fst = [.monitor (.notRegistered "backpressure_queue")] ∧
      s.RaisedUntouched := by
  obtain ⟨s, hs, hraised⟩ := Option.map_eq_some_iff.mp
    (show (run (FaultyUse.step twoPlaces) (.init twoPlaces {}) reregistered).map
      (fun s => s.raised.map Prod.fst) =
        some [.monitor (.notRegistered "backpressure_queue")] by decide +kernel)
  exact ⟨s, hs, hraised, (raised_untouched_iff hs).mpr (by decide +kernel)⟩

/-- A task is put, the queue is deregistered, and a call takes the task. -/
def deregistered : List FaultyAction :=
  [.call (.enqueue { object := "t1" } {}), .turn 0, .turn 0,
    .monitor (.deregisterQueue "backpressure_queue"), .call (.dequeue {}), .turn 0, .turn 0]

/-- The call raises `KeyError`, and the task is out of the queue. -/
theorem deregistered_loses_task :
    ¬ ∀ (cfg : QueueConfig) (monitor : BackpressureMonitor) (as : List FaultyAction)
      (s : FaultyUse), run (FaultyUse.step cfg) (.init cfg monitor) as = some s →
      s.RaisedUntouched := by
  intro hall
  obtain ⟨s, hs, heq⟩ := Option.map_eq_some_iff.mp
    (show (run (FaultyUse.step twoPlaces) (.init twoPlaces {}) deregistered).map
      (fun s => (s.queue.q, s.raised)) =
        some ([], [(.monitor (.notRegistered "backpressure_queue"), true)]) by decide +kernel)
  obtain ⟨-, hraised⟩ := Prod.mk.inj heq
  have huntouched := hall twoPlaces {} deregistered s hs
  unfold FaultyUse.RaisedUntouched at huntouched
  rw [hraised] at huntouched
  cases huntouched _ (List.mem_singleton_self _)

end MeshRouter.Backpressure
