import Mathlib.Algebra.Order.BigOperators.Group.List
import Mathlib.Data.Finset.Sort
import Mathlib.Data.String.Basic
import MeshRouter.Lib.Dict

/-!
# The deadlock detector

`DeadlockDetector` of `deadlock/detector.py`: the wait-for graph with the operations that change
it, and the search for its cycles. `detect` takes a snapshot of the graph with sorted neighbours,
runs a depth-first search with an explicit stack from every agent, and removes the cycles that it
has seen before in canonical form.

The search terminates because each entry of the stack is replaced by entries with longer paths and
paths are bounded: `stackWeight` goes down at each turn of the loop.
-/

namespace MeshRouter.Deadlock

open Lib

/-- A directed wait-for relationship between two agents. -/
structure WaitEdge where
  /-- The agent that is blocked waiting. -/
  waiter : String
  /-- The agent that holds the resource the waiter needs. -/
  holder : String
  /-- Optional label for the resource being contested. -/
  resourceId : String := ""
deriving DecidableEq

/-- `WaitEdge.__str__`. -/
def WaitEdge.str (e : WaitEdge) : String :=
  let res := if e.resourceId = "" then "" else " [" ++ e.resourceId ++ "]"
  e.waiter ++ " -waits-for-> " ++ e.holder ++ res

/-- The `ValueError`s of the detector. -/
inductive DetectorError where
  /-- "max_cycle_length must be >= 2, got …." -/
  | maxCycleLength (got : ℤ)
  /-- "Self-loop detected: agent '…' cannot wait for itself." -/
  | selfLoop (agent : String)
deriving DecidableEq

/-- The graph of a detector: an adjacency list from each waiter to its holders, and the registered
edges. -/
structure DeadlockDetector where
  /-- Cycles of more agents are not reported. -/
  maxCycleLength : ℕ
  two_le_maxCycleLength : 2 ≤ maxCycleLength
  graph : Dict String (Finset String) := .empty
  edges : List WaitEdge := []
deriving DecidableEq

/-- The result of a detection run. -/
structure DeadlockResult where
  /-- Each cycle is the sequence of its agents, with the first repeated at the end. -/
  cycles : List (List String)
  nodeCount : ℕ
  edgeCount : ℕ
deriving DecidableEq

namespace DeadlockResult

/-- `has_deadlock`: at least one cycle was found. -/
def hasDeadlock (r : DeadlockResult) : Bool := decide (0 < r.cycles.length)

/-- `cycle_count`. -/
def cycleCount (r : DeadlockResult) : ℕ := r.cycles.length

end DeadlockResult

/-! ## The search -/

/-- The snapshot of a graph, with a list of neighbours for each agent. -/
abbrev Snapshot := Dict String (List String)

/-- `graph.get(current, [])`. -/
def Snapshot.neighbors (graph : Snapshot) (current : String) : List String :=
  (graph.get? current).getD []

/-- The most neighbours that an agent of the snapshot can have: there are no more edges. -/
def Snapshot.width (graph : Snapshot) : ℕ := (graph.values.map List.length).sum

/-- An entry of the search stack: the path so far, which ends in `current`, and its agents as a
set. -/
structure StackEntry where
  current : String
  path : List String
  visited : Finset String
  mem_visited : ∀ a, a ∈ visited ↔ a ∈ path

/-- The entry at which the search from `start` begins. -/
def StackEntry.root (start : String) : StackEntry := ⟨start, [start], {start}, by simp⟩

/-- The entry with the path extended by a neighbour. -/
def StackEntry.extend (e : StackEntry) (neighbor : String) : StackEntry where
  current := neighbor
  path := e.path ++ [neighbor]
  visited := insert neighbor e.visited
  mem_visited a := by simp [e.mem_visited, or_comm]

/-- The loop over the neighbours of an entry: the stack with the extensions pushed, and the cycles
found. The top of the stack is at the head of the list. -/
def visitNeighbors (start : String) (e : StackEntry) :
    List String → List StackEntry → List StackEntry × List (List String)
  | [], stack => (stack, [])
  | neighbor :: neighbors, stack =>
    if neighbor = start ∧ 2 ≤ e.path.length then
      -- A way back to the start: the path is a cycle, and nothing is pushed.
      let r := visitNeighbors start e neighbors stack
      (r.1, (e.path ++ [start]) :: r.2)
    -- Only agents above the start, so that each cycle is found from its least agent.
    else if neighbor ∉ e.visited ∧ start < neighbor then
      visitNeighbors start e neighbors (e.extend neighbor :: stack)
    else
      visitNeighbors start e neighbors stack

/-- A bound on the number of turns that the search loop has left: an entry whose path can still grow
by `k` stands for `(width + 1) ^ k` turns. -/
def stackWeight (width maxLength : ℕ) (stack : List StackEntry) : ℕ :=
  (stack.map fun e => (width + 1) ^ (maxLength + 1 - e.path.length)).sum

/-- Each neighbour pushes at most one entry, with a path longer by one. -/
theorem stackWeight_visitNeighbors (width maxLength : ℕ) (start : String) (e : StackEntry)
    (neighbors : List String) (stack : List StackEntry) :
    stackWeight width maxLength (visitNeighbors start e neighbors stack).1 ≤
      neighbors.length * (width + 1) ^ (maxLength - e.path.length) +
        stackWeight width maxLength stack := by
  induction neighbors generalizing stack with
  | nil => simp [visitNeighbors]
  | cons neighbor neighbors ih =>
    rw [List.length_cons, Nat.succ_mul]
    unfold visitNeighbors
    split_ifs
    · have := ih stack
      dsimp only
      omega
    · -- The entry that is pushed is the one that this neighbour is counted for.
      have hpush := ih (e.extend neighbor :: stack)
      have hext : stackWeight width maxLength (e.extend neighbor :: stack) =
          (width + 1) ^ (maxLength - e.path.length) + stackWeight width maxLength stack := by
        simp [stackWeight, StackEntry.extend]
      omega
    · have := ih stack
      omega

/-- No agent has more neighbours than the snapshot has edges. -/
theorem Snapshot.length_neighbors_le (graph : Snapshot) (current : String) :
    (graph.neighbors current).length ≤ graph.width := by
  unfold Snapshot.neighbors Snapshot.width
  cases h : graph.get? current with
  | none => exact Nat.zero_le _
  | some ns =>
    exact List.le_sum_of_mem
      (List.mem_map.mpr ⟨ns, Dict.mem_values_iff.mpr ⟨current, h⟩, rfl⟩)

/-- A turn of the search loop that visits the neighbours of an entry makes the stack lighter. -/
theorem stackWeight_visit_lt {graph : Snapshot} {maxLength : ℕ} {start : String} {e : StackEntry}
    {stack : List StackEntry} (h : e.path.length ≤ maxLength) :
    stackWeight graph.width maxLength
        (visitNeighbors start e (graph.neighbors e.current) stack).1 <
      stackWeight graph.width maxLength (e :: stack) := by
  have hvisit := stackWeight_visitNeighbors graph.width maxLength start e
    (graph.neighbors e.current) stack
  have hwidth := Nat.mul_le_mul_right ((graph.width + 1) ^ (maxLength - e.path.length))
    (graph.length_neighbors_le e.current)
  have hpos : 0 < (graph.width + 1) ^ (maxLength - e.path.length) := Nat.pow_pos (Nat.succ_pos _)
  have hhead : stackWeight graph.width maxLength (e :: stack) =
      (graph.width + 1) ^ (maxLength - e.path.length) * (graph.width + 1) +
        stackWeight graph.width maxLength stack := by
    rw [← Nat.pow_succ, Nat.succ_eq_add_one, ← Nat.sub_add_comm h]
    rfl
  -- At most `width` entries of the next smaller weight take the place of `width + 1` of them.
  rw [hhead, Nat.mul_comm, Nat.succ_mul]
  omega

/-- `_find_all_cycles` from one start: the loop that pops an entry, drops it if its path is too
long, and otherwise visits its neighbours. -/
def findCyclesFrom (graph : Snapshot) (maxLength : ℕ) (start : String) :
    List StackEntry → List (List String)
  | [] => []
  | e :: stack =>
    if _h : maxLength < e.path.length then
      findCyclesFrom graph maxLength start stack
    else
      let r := visitNeighbors start e (graph.neighbors e.current) stack
      r.2 ++ findCyclesFrom graph maxLength start r.1
termination_by stack => stackWeight graph.width maxLength stack
decreasing_by
  · unfold stackWeight
    rw [List.map_cons, List.sum_cons]
    exact Nat.lt_add_of_pos_left (Nat.pow_pos (Nat.succ_pos _))
  · exact stackWeight_visit_lt (not_lt.mp ‹_›)

/-- `_find_all_cycles`: the search from each agent in turn. -/
def findAllCycles (graph : Snapshot) (maxLength : ℕ) : List (List String) :=
  graph.keys.flatMap fun start => findCyclesFrom graph maxLength start [.root start]

/-! ## Canonical form -/

/-- `_canonical_cycle`: the cycle rotated to start at its least agent. -/
def canonicalCycle (cycle : List String) : List String :=
  let path := cycle.dropLast
  match path.min? with
  | none => cycle
  | some least =>
    let minIdx := path.idxOf least
    let rotated := path.drop minIdx ++ path.take minIdx
    rotated ++ rotated.head?.toList

/-- The loop of `_deduplicate_cycles`, with the canonical forms seen so far. -/
def deduplicateFrom (seen : Finset (List String)) : List (List String) → List (List String)
  | [] => []
  | cycle :: cycles =>
    let canonical := canonicalCycle cycle
    if canonical ∈ seen then deduplicateFrom seen cycles
    else canonical :: deduplicateFrom (insert canonical seen) cycles

/-- `_deduplicate_cycles`. -/
def deduplicateCycles (cycles : List (List String)) : List (List String) :=
  deduplicateFrom ∅ cycles

/-! ## The operations -/

namespace DeadlockDetector

/-- `__init__`. -/
def init (maxCycleLength : ℤ) : Except DetectorError DeadlockDetector :=
  if h : maxCycleLength < 2 then
    .error (.maxCycleLength maxCycleLength)
  else
    .ok { maxCycleLength := maxCycleLength.toNat, two_le_maxCycleLength := by omega }

/-- The agent is a key of the graph: it is added without holders if it is new. -/
def ensureAgent (graph : Dict String (Finset String)) (agent : String) :
    Dict String (Finset String) :=
  if agent ∈ graph.keys then graph else graph.set agent ∅

/-- `add_wait`. -/
def addWait (d : DeadlockDetector) (waiter holder resourceId : String) :
    Except DetectorError DeadlockDetector :=
  if waiter = holder then
    .error (.selfLoop waiter)
  else
    let graph := ensureAgent (ensureAgent d.graph waiter) holder
    .ok { d with
      graph := graph.set waiter (insert holder ((graph.get? waiter).getD ∅))
      edges := d.edges ++ [⟨waiter, holder, resourceId⟩] }

/-- `remove_wait`: whether the edge existed, and the graph without it. -/
def removeWait (d : DeadlockDetector) (waiter holder : String) : Bool × DeadlockDetector :=
  match d.graph.get? waiter with
  | none => (false, d)
  | some holders =>
    if holder ∈ holders then
      (true, { d with
        graph := d.graph.set waiter (holders.erase holder)
        edges := d.edges.filter fun e => ¬ (e.waiter = waiter ∧ e.holder = holder) })
    else
      (false, d)

/-- `clear_agent`: remove all edges of an agent. -/
def clearAgent (d : DeadlockDetector) (agentId : String) : DeadlockDetector :=
  { d with
    graph := (d.graph.erase agentId).mapValues fun holders => holders.erase agentId
    edges := d.edges.filter fun e => e.waiter ≠ agentId ∧ e.holder ≠ agentId }

/-- `clear`. -/
def clear (d : DeadlockDetector) : DeadlockDetector := { d with graph := .empty, edges := [] }

/-- `agents`: the agents in the graph, sorted. -/
def agents (d : DeadlockDetector) : List String := d.graph.keys.mergeSort

/-- The snapshot that `detect` analyses. -/
def snapshot (d : DeadlockDetector) : Snapshot := d.graph.mapValues fun holders => holders.sort

/-- `detect`. -/
def detect (d : DeadlockDetector) : DeadlockResult where
  cycles := deduplicateCycles (findAllCycles d.snapshot d.maxCycleLength)
  nodeCount := d.snapshot.size
  edgeCount := (d.snapshot.values.map List.length).sum

end DeadlockDetector

end MeshRouter.Deadlock
