import MeshRouter.Deadlock.Cycles

/-!
# The search loop, turn by turn

`findCyclesFrom` is the loop of `_find_all_cycles` as one recursion. Here it is taken apart into its
turns (`searchTurn`), so that the stack at the beginning of each can be spoken of (`stackAfter`).

A turn takes one entry off the stack and may push many. It ends all the same: the weight of the
stack goes down at each turn, whatever the length that the paths may have, and the weight that the
loop begins with bounds the number of its turns (`stackAfter_eq_nil`). Every entry is a simple path
from the start (`IsSearchPath`), because a path is extended along an edge by an agent that is not on
it.
-/

namespace MeshRouter.Deadlock

open Lib

variable {graph : Snapshot} {maxLength : ℕ} {start : String}

/-- A turn of the search loop: the stack after it, and the cycles that it yields. The loop has ended
when the stack is empty. -/
def searchTurn (graph : Snapshot) (maxLength : ℕ) (start : String) :
    List StackEntry → List StackEntry × List (List String)
  | [] => ([], [])
  | e :: stack =>
    if maxLength < e.path.length then (stack, [])
    else visitNeighbors start e (graph.neighbors e.current) stack

/-- The stack after `n` turns. -/
def stackAfter (graph : Snapshot) (maxLength : ℕ) (start : String) (n : ℕ) : List StackEntry :=
  (fun stack => (searchTurn graph maxLength start stack).1)^[n] [.root start]

/-- One turn more. -/
theorem stackAfter_succ (graph : Snapshot) (maxLength : ℕ) (start : String) (n : ℕ) :
    stackAfter graph maxLength start (n + 1) =
      (searchTurn graph maxLength start (stackAfter graph maxLength start n)).1 :=
  Function.iterate_succ_apply' _ _ _

/-! ## Termination -/

/-- A turn makes a stack that is not empty lighter. -/
theorem stackWeight_searchTurn_lt (graph : Snapshot) (maxLength : ℕ) (start : String)
    {stack : List StackEntry} (h : stack ≠ []) :
    stackWeight graph.width maxLength (searchTurn graph maxLength start stack).1 <
      stackWeight graph.width maxLength stack := by
  obtain ⟨e, stack, rfl⟩ := List.exists_cons_of_ne_nil h
  rw [searchTurn]
  split_ifs with hlong
  · have hpos : 0 < (graph.width + 1) ^ (maxLength + 1 - e.path.length) :=
      Nat.pow_pos (Nat.succ_pos _)
    unfold stackWeight
    rw [List.map_cons, List.sum_cons]
    exact Nat.lt_add_of_pos_left hpos
  · exact stackWeight_visit_lt (not_lt.mp hlong)

/-- After as many turns as the loop began with weight, or after fewer, the stack is empty. -/
theorem stackWeight_stackAfter_le (graph : Snapshot) (maxLength : ℕ) (start : String) (n : ℕ) :
    stackAfter graph maxLength start n = [] ∨
      stackWeight graph.width maxLength (stackAfter graph maxLength start n) + n ≤
        (graph.width + 1) ^ maxLength := by
  induction n with
  | zero =>
    refine Or.inr (le_of_eq ?_)
    simp [stackAfter, stackWeight, StackEntry.root]
  | succ n ih =>
    rw [stackAfter_succ]
    rcases ih with hnil | hle
    · rw [hnil]
      exact Or.inl rfl
    · by_cases hnil : stackAfter graph maxLength start n = []
      · rw [hnil]
        exact Or.inl rfl
      · have hlt := stackWeight_searchTurn_lt graph maxLength start hnil
        exact Or.inr (by omega)

/-- The loop ends. -/
theorem stackAfter_eq_nil (graph : Snapshot) (maxLength : ℕ) (start : String) :
    stackAfter graph maxLength start ((graph.width + 1) ^ maxLength) = [] := by
  rcases stackWeight_stackAfter_le graph maxLength start ((graph.width + 1) ^ maxLength) with
    hnil | hle
  · exact hnil
  · -- No weight is left, and every entry has some.
    by_contra hne
    have hlt := stackWeight_searchTurn_lt graph maxLength start hne
    omega

/-! ## The paths on the stack -/

/-- The entry stands at the end of a simple path from the start along edges of the graph, with the
agents of the path as its visited set, and all of them but the start above it. -/
structure IsSearchPath (graph : Snapshot) (start : String) (e : StackEntry) : Prop where
  head : e.path.head? = some start
  last : e.path.getLast? = some e.current
  nodup : e.path.Nodup
  chain : List.IsChain graph.Edge e.path
  visited : e.visited = e.path.toFinset
  above : ∀ a ∈ e.path, a ≠ start → start < a

/-- The search begins with the path of the start alone. -/
theorem isSearchPath_root (graph : Snapshot) (start : String) :
    IsSearchPath graph start (.root start) where
  head := rfl
  last := rfl
  nodup := List.nodup_singleton start
  chain := List.isChain_singleton start
  visited := rfl
  above _ ha hne := absurd (List.mem_singleton.mp ha) hne

/-- A path is extended along an edge by an agent above the start that is not on it. -/
theorem IsSearchPath.extend {e : StackEntry} (h : IsSearchPath graph start e) {n : String}
    (hedge : graph.Edge e.current n) (hfresh : n ∉ e.path) (habove : start < n) :
    IsSearchPath graph start (e.extend n) where
  head := by
    unfold StackEntry.extend
    rw [List.head?_append, h.head, Option.some_or]
  last := List.getLast?_concat
  nodup := by
    refine List.Nodup.append h.nodup (List.nodup_singleton n) ?_
    rw [List.disjoint_singleton]
    exact hfresh
  chain := by
    refine List.isChain_append.mpr ⟨h.chain, List.isChain_singleton n, fun a ha b hb => ?_⟩
    rw [h.last] at ha
    obtain rfl := Option.some.inj ha
    obtain rfl := Option.some.inj hb
    exact hedge
  visited := by
    refine Finset.ext fun a => ?_
    rw [List.mem_toFinset]
    exact (e.extend n).mem_visited a
  above a ha hne := by
    rcases List.mem_append.mp ha with ha | ha
    · exact h.above a ha hne
    · exact List.mem_singleton.mp ha ▸ habove

/-- A turn leaves search paths on the stack. -/
theorem isSearchPath_searchTurn {stack : List StackEntry}
    (h : ∀ e ∈ stack, IsSearchPath graph start e) :
    ∀ e ∈ (searchTurn graph maxLength start stack).1, IsSearchPath graph start e := by
  cases stack with
  | nil => exact h
  | cons top stack =>
    have hrest : ∀ e ∈ stack, IsSearchPath graph start e := fun e he =>
      h e (List.mem_cons_of_mem top he)
    rw [searchTurn]
    split_ifs with hlong
    · exact hrest
    · intro e he
      rcases mem_visitNeighbors_stack.mp he with ⟨n, hn, hfresh, habove, rfl⟩ | hmem
      · exact (h top List.mem_cons_self).extend hn hfresh habove
      · exact hrest e hmem

/-- Before every turn the stack has search paths only. -/
theorem isSearchPath_stackAfter (graph : Snapshot) (maxLength : ℕ) (start : String) (n : ℕ) :
    ∀ e ∈ stackAfter graph maxLength start n, IsSearchPath graph start e := by
  induction n with
  | zero =>
    intro e he
    obtain rfl := List.mem_singleton.mp he
    exact isSearchPath_root graph start
  | succ n ih =>
    rw [stackAfter_succ]
    exact isSearchPath_searchTurn ih

/-! ## The cycles of the turns -/

/-- The loop yields what its first turn yields, and then what the rest of it does. -/
theorem findCyclesFrom_eq_turn (graph : Snapshot) (maxLength : ℕ) (start : String)
    (stack : List StackEntry) :
    findCyclesFrom graph maxLength start stack =
      (searchTurn graph maxLength start stack).2 ++
        findCyclesFrom graph maxLength start (searchTurn graph maxLength start stack).1 := by
  cases stack with
  | nil =>
    unfold searchTurn
    rw [List.nil_append]
  | cons e stack =>
    rw [findCyclesFrom, searchTurn]
    split_ifs with hlong
    · rw [List.nil_append]
    · rfl

/-- The loop yields what its turns yield, one after the other. -/
theorem findCyclesFrom_eq_turns (graph : Snapshot) (maxLength : ℕ) (start : String) (n : ℕ) :
    findCyclesFrom graph maxLength start [.root start] =
      ((List.range n).flatMap fun k =>
        (searchTurn graph maxLength start (stackAfter graph maxLength start k)).2) ++
        findCyclesFrom graph maxLength start (stackAfter graph maxLength start n) := by
  induction n with
  | zero => rfl
  | succ n ih =>
    rw [ih, findCyclesFrom_eq_turn graph maxLength start (stackAfter graph maxLength start n),
      List.range_succ, List.flatMap_append, List.flatMap_singleton, List.append_assoc,
      stackAfter_succ]

/-- For every adjacency map, in which neighbours need not be keys, every start and every bound on
the length of cycles: the loop ends, at the latest after `(width + 1) ^ maxLength` turns, and its
result is what these yield. Before each turn every path on the stack is a simple path from the start
along edges, with its agents as the visited set, and all but the start are above it. -/
theorem search_terminates (graph : Snapshot) (maxLength : ℕ) (start : String) :
    stackAfter graph maxLength start ((graph.width + 1) ^ maxLength) = [] ∧
      (findCyclesFrom graph maxLength start [.root start] =
        (List.range ((graph.width + 1) ^ maxLength)).flatMap fun k =>
          (searchTurn graph maxLength start (stackAfter graph maxLength start k)).2) ∧
      ∀ n, ∀ e ∈ stackAfter graph maxLength start n, IsSearchPath graph start e := by
  have hend := stackAfter_eq_nil graph maxLength start
  refine ⟨hend, ?_, isSearchPath_stackAfter graph maxLength start⟩
  have hturns := findCyclesFrom_eq_turns graph maxLength start ((graph.width + 1) ^ maxLength)
  rw [hend, findCyclesFrom, List.append_nil] at hturns
  exact hturns

end MeshRouter.Deadlock
