import Mathlib.Algebra.BigOperators.Group.List.Defs
import Mathlib.Algebra.Order.Field.Rat
import MeshRouter.Lib.Dict
import MeshRouter.Lib.Fallible

/-!
# The backpressure monitor

`BackpressureMonitor` of `backpressure/monitor.py`: the registration and deregistration of a queue,
the updates of its depth, and the pressure that the depths amount to. Weights and pressures are
exact rationals. The pressure is `none` where its computation would divide by zero.
-/

namespace MeshRouter.Backpressure

open Lib

/-- Snapshot of a single monitored queue's utilization. -/
structure QueueMetrics where
  name : String
  currentDepth : ℤ := 0
  maxDepth : ℤ := 0
  weight : ℚ := 1
deriving DecidableEq

/-- `utilization`: the fraction full, which is zero for an unbounded queue. -/
def QueueMetrics.utilization (q : QueueMetrics) : Option ℚ :=
  if q.maxDepth ≤ 0 then some 0 else (div? (q.currentDepth : ℚ) q.maxDepth).map (min 1)

/-- What a call on the monitor can raise. -/
inductive MonitorError where
  /-- `ValueError`: "weight must be non-negative, got …." -/
  | negativeWeight (weight : ℚ)
  /-- `ValueError`: "max_depth must be non-negative, got …." -/
  | negativeMaxDepth (maxDepth : ℤ)
  /-- `ValueError`: "depth must be non-negative, got …." -/
  | negativeDepth (depth : ℤ)
  /-- `KeyError`: "Queue … is not registered." -/
  | notRegistered (name : String)
deriving DecidableEq

/-- A call that changes the monitor. -/
inductive MonitorCall where
  | registerQueue (name : String) (maxDepth : ℤ) (weight : ℚ)
  | deregisterQueue (name : String)
  | updateDepth (name : String) (depth : ℤ)
  | updateDepths (depths : Dict String ℤ)
deriving DecidableEq

/-- Track queue depths across multiple named queues. -/
structure BackpressureMonitor where
  queues : Dict String QueueMetrics := .empty
deriving DecidableEq

namespace BackpressureMonitor

/-- `register_queue`. -/
def registerQueue (m : BackpressureMonitor) (name : String) (maxDepth : ℤ) (weight : ℚ) :
    Except MonitorError Unit × BackpressureMonitor :=
  if weight < 0 then
    (.error (.negativeWeight weight), m)
  else if maxDepth < 0 then
    (.error (.negativeMaxDepth maxDepth), m)
  else
    let metrics : QueueMetrics := { name := name, maxDepth := maxDepth, weight := weight }
    (.ok (), { m with queues := m.queues.set name metrics })

/-- `deregister_queue`. -/
def deregisterQueue (m : BackpressureMonitor) (name : String) : BackpressureMonitor :=
  { m with queues := m.queues.erase name }

/-- `update_depth`. -/
def updateDepth (m : BackpressureMonitor) (name : String) (depth : ℤ) :
    Except MonitorError Unit × BackpressureMonitor :=
  if depth < 0 then
    (.error (.negativeDepth depth), m)
  else
    match m.queues.get? name with
    | none => (.error (.notRegistered name), m)
    | some metrics =>
      (.ok (), { m with queues := m.queues.set name { metrics with currentDepth := depth } })

/-- `update_depths`: names that are not registered are skipped. -/
def updateDepths (m : BackpressureMonitor) (depths : Dict String ℤ) : BackpressureMonitor :=
  depths.entries.foldl
    (fun m (name, depth) =>
      match m.queues.get? name with
      | none => m
      | some metrics =>
        { m with queues := m.queues.set name { metrics with currentDepth := max 0 depth } })
    m

/-- The monitor after a call, whatever it raised. -/
def apply (m : BackpressureMonitor) : MonitorCall → BackpressureMonitor
  | .registerQueue name maxDepth weight => (m.registerQueue name maxDepth weight).2
  | .deregisterQueue name => m.deregisterQueue name
  | .updateDepth name depth => (m.updateDepth name depth).2
  | .updateDepths depths => m.updateDepths depths

/-- `pressure_score`. -/
def pressureScore (m : BackpressureMonitor) : Option ℚ :=
  let queues := m.queues.values
  if queues = [] then
    some 0
  else
    let totalWeight := (queues.map QueueMetrics.weight).sum
    if totalWeight = 0 then
      some 0
    else do
      let terms ← queues.mapM fun q => q.utilization.map (· * q.weight)
      div? terms.sum totalWeight

/-- The depth that the monitor has for a queue, if the queue is registered. -/
def depth? (m : BackpressureMonitor) (name : String) : Option ℤ :=
  (m.queues.get? name).map QueueMetrics.currentDepth

/-- A new queue is registered with depth zero. -/
theorem depth?_registerQueue (m : BackpressureMonitor) (name : String) {maxDepth : ℤ} {weight : ℚ}
    (hmaxDepth : 0 ≤ maxDepth) (hweight : 0 ≤ weight) :
    (m.registerQueue name maxDepth weight).2.depth? name = some 0 := by
  unfold registerQueue depth?
  rw [if_neg (not_lt.mpr hweight), if_neg (not_lt.mpr hmaxDepth)]
  dsimp only
  rw [Dict.get?_set, if_pos rfl]
  rfl

/-- The depth of a registered queue is updated. -/
theorem updateDepth_of_registered {m : BackpressureMonitor} {name : String} {old : ℤ}
    (h : m.depth? name = some old) {depth : ℤ} (hdepth : 0 ≤ depth) :
    (m.updateDepth name depth).1 = .ok () ∧
      (m.updateDepth name depth).2.depth? name = some depth := by
  obtain ⟨metrics, hmetrics, -⟩ := Option.map_eq_some_iff.mp h
  unfold updateDepth depth?
  rw [if_neg (not_lt.mpr hdepth), hmetrics]
  dsimp only
  rw [Dict.get?_set, if_pos rfl]
  exact ⟨rfl, rfl⟩

/-- The update of the depth of a queue that is not registered raises. -/
theorem updateDepth_of_unregistered {m : BackpressureMonitor} {name : String}
    (h : m.depth? name = none) {depth : ℤ} (hdepth : 0 ≤ depth) :
    m.updateDepth name depth = (.error (.notRegistered name), m) := by
  unfold updateDepth
  rw [if_neg (not_lt.mpr hdepth), Option.map_eq_none_iff.mp h]

end BackpressureMonitor

end MeshRouter.Backpressure
