import MeshRouter.Deadlock.WaitGraph
import MeshRouter.Lib.SimpleCycles

/-!
# The detector reports the simple cycles

What the search loop returns is what its stack comes to (`mem_findCyclesFrom`), so by `closes_iff`
the search from `start` finds the simple cycles whose least agent is `start`, each written from
`start` and back to it. Such a cycle is its own canonical form, so the removal of duplicates keeps
each, once (`mem_deduplicateFrom`, `nodup_deduplicateFrom`).

`detect_exact` is the result for every graph that operations build. The search asks for two agents
before it closes a path, and a well-formed graph has no shorter cycle.
-/

namespace MeshRouter.Deadlock

open Lib

variable {graph : Snapshot} {maxLength : ℕ} {start : String}

/-- The neighbours of an agent in the snapshot. -/
def Snapshot.Edge (graph : Snapshot) (a b : String) : Prop := b ∈ graph.neighbors a

/-- The loop over the neighbours pushes the fresh ones above the start. -/
theorem mem_visitNeighbors_stack {e e' : StackEntry} {neighbors : List String}
    {stack : List StackEntry} :
    e' ∈ (visitNeighbors start e neighbors stack).1 ↔
      (∃ n ∈ neighbors, n ∉ e.path ∧ start < n ∧ e' = e.extend n) ∨ e' ∈ stack := by
  induction neighbors generalizing stack with
  | nil => simp [visitNeighbors]
  | cons neighbor neighbors ih =>
    unfold visitNeighbors
    rw [List.exists_mem_cons_iff]
    split_ifs with hclose hpush
    · -- The start itself is not above the start, so closing the path pushes nothing.
      obtain ⟨rfl, -⟩ := hclose
      dsimp only
      rw [ih]
      simp
    · rw [e.mem_visited] at hpush
      rw [ih, List.mem_cons]
      simp only [hpush, not_false_eq_true, true_and]
      rw [or_assoc, or_left_comm]
    · rw [e.mem_visited] at hpush
      have hnot : ¬ (neighbor ∉ e.path ∧ start < neighbor ∧ e' = e.extend neighbor) :=
        fun h => hpush ⟨h.1, h.2.1⟩
      rw [ih]
      simp only [hnot, false_or]

/-- The loop over the neighbours closes the path where one of them is the start. -/
theorem mem_visitNeighbors_cycles {e : StackEntry} {neighbors : List String}
    {stack : List StackEntry} {c : List String} :
    c ∈ (visitNeighbors start e neighbors stack).2 ↔
      2 ≤ e.path.length ∧ start ∈ neighbors ∧ c = e.path ++ [start] := by
  induction neighbors generalizing stack with
  | nil => simp [visitNeighbors]
  | cons neighbor neighbors ih =>
    unfold visitNeighbors
    rw [List.mem_cons]
    split_ifs with hclose hpush
    · dsimp only
      rw [List.mem_cons, ih]
      simp only [hclose.1, hclose.2, true_and, true_or]
      tauto
    · rw [ih]
      have hne : start ≠ neighbor := hpush.2.ne
      simp [hne]
    · rw [ih]
      constructor
      · rintro ⟨htwo, hmem, hc⟩
        exact ⟨htwo, Or.inr hmem, hc⟩
      · -- A neighbour that is the start would have closed a path of two agents.
        rintro ⟨htwo, rfl | hmem, hc⟩
        · exact absurd ⟨rfl, htwo⟩ hclose
        · exact ⟨htwo, hmem, hc⟩

/-- The search loop finds what the entries of its stack come to. -/
theorem mem_findCyclesFrom {stack : List StackEntry} {c : List String} :
    c ∈ findCyclesFrom graph maxLength start stack ↔
      ∃ e ∈ stack, Closes graph.Edge maxLength start e.current e.path c := by
  fun_induction findCyclesFrom graph maxLength start stack with
  | case1 => simp
  -- Popped and dropped: a path that is too long comes to nothing.
  | case2 e stack hlong ih =>
    rw [ih, List.exists_mem_cons_iff]
    simp [not_closes hlong]
  -- Popped and visited: what it comes to is split by its next agent.
  | case3 e stack hlong r ih =>
    rw [List.mem_append, ih, List.exists_mem_cons_iff, closes_iff_step (not_lt.mp hlong)]
    simp only [r, mem_visitNeighbors_cycles, mem_visitNeighbors_stack]
    constructor
    · rintro (⟨htwo, hedge, rfl⟩ | ⟨e', ⟨n, hn, hfresh, hlt, rfl⟩ | hmem, hcl⟩)
      · exact Or.inl (Or.inl ⟨htwo, hedge, rfl⟩)
      · exact Or.inl (Or.inr ⟨n, hn, hfresh, hlt, hcl⟩)
      · exact Or.inr ⟨e', hmem, hcl⟩
    · rintro ((⟨htwo, hedge, rfl⟩ | ⟨n, hn, hfresh, hlt, hcl⟩) | ⟨e', hmem, hcl⟩)
      · exact Or.inl ⟨htwo, hedge, rfl⟩
      · exact Or.inr ⟨e.extend n, Or.inl ⟨n, hn, hfresh, hlt, rfl⟩, hcl⟩
      · exact Or.inr ⟨e', Or.inr hmem, hcl⟩

/-- A report of a cycle: its agents from the least one, within the bound, and back to it. -/
def IsReport (r : String → String → Prop) (maxLength : ℕ) (c : List String) : Prop :=
  ∃ a q, c = a :: q ++ [a] ∧ Cycle.Chain r ((a :: q : List String) : Cycle String) ∧ q ≠ [] ∧
    q.length + 1 ≤ maxLength ∧ q.Nodup ∧ LeastFirst a q

/-- The search from every agent finds the reports of the simple cycles. -/
theorem mem_findAllCycles {c : List String} :
    c ∈ findAllCycles graph maxLength ↔ IsReport graph.Edge maxLength c := by
  unfold findAllCycles IsReport
  simp only [List.mem_flatMap, mem_findCyclesFrom, List.mem_singleton, exists_eq_left]
  constructor
  · rintro ⟨a, -, hc⟩
    exact ⟨a, closes_start_iff.mp hc⟩
  · rintro ⟨a, hc⟩
    refine ⟨a, ?_, closes_start_iff.mpr hc⟩
    -- An agent with a neighbour is a key of the graph.
    obtain ⟨q, -, hchain, hne, -⟩ := hc
    obtain ⟨b, q, rfl⟩ := List.exists_cons_of_ne_nil hne
    rw [Cycle.chain_coe_cons, List.cons_append, List.isChain_cons_cons] at hchain
    by_contra hkey
    have hedge : b ∈ graph.neighbors a := hchain.1
    unfold Snapshot.neighbors at hedge
    rw [Dict.get?_eq_none_iff.mpr hkey] at hedge
    cases hedge

/-! ## Canonical form and duplicates -/

/-- A closed cycle that begins with its least agent is its own canonical form. -/
theorem canonicalCycle_leastFirst {a : String} {q : List String} (h : LeastFirst a q) :
    canonicalCycle (a :: q ++ [a]) = a :: q ++ [a] := by
  -- The least agent is at the front, so the rotation to it changes nothing.
  have hmin : (a :: q).min? = some a := by
    rw [List.min?_eq_some_iff]
    refine ⟨List.mem_cons_self, fun b hb => ?_⟩
    rcases List.mem_cons.mp hb with rfl | hb
    · exact le_rfl
    · exact (h b hb).le
  have hpath : (a :: q ++ [a]).dropLast = a :: q := List.dropLast_concat
  unfold canonicalCycle
  rw [hpath]
  dsimp only
  rw [hmin]
  simp

/-- A report is its own canonical form. -/
theorem canonicalCycle_report {r : String → String → Prop} {c : List String}
    (h : IsReport r maxLength c) : canonicalCycle c = c := by
  obtain ⟨a, q, rfl, -, -, -, -, hleast⟩ := h
  exact canonicalCycle_leastFirst hleast

/-- What is kept: the canonical forms that were not seen before. -/
theorem mem_deduplicateFrom {seen : Finset (List String)} {cycles : List (List String)}
    {c : List String} :
    c ∈ deduplicateFrom seen cycles ↔ c ∉ seen ∧ ∃ c' ∈ cycles, canonicalCycle c' = c := by
  induction cycles generalizing seen with
  | nil => simp [deduplicateFrom]
  | cons cycle cycles ih =>
    unfold deduplicateFrom
    dsimp only
    rw [List.exists_mem_cons_iff]
    split_ifs with hseen
    · rw [ih]
      constructor
      · rintro ⟨hc, h⟩
        exact ⟨hc, Or.inr h⟩
      · rintro ⟨hc, rfl | h⟩
        · exact absurd hseen hc
        · exact ⟨hc, h⟩
    · rw [List.mem_cons, ih, Finset.mem_insert, not_or]
      constructor
      · rintro (rfl | ⟨⟨-, hc⟩, h⟩)
        · exact ⟨hseen, Or.inl rfl⟩
        · exact ⟨hc, Or.inr h⟩
      · rintro ⟨hc, h⟩
        -- What is kept later was not seen before this cycle, nor is it this one.
        by_cases heq : c = canonicalCycle cycle
        · exact Or.inl heq
        · exact Or.inr ⟨⟨heq, hc⟩, h.resolve_left (Ne.symm heq)⟩

/-- Nothing is kept twice. -/
theorem nodup_deduplicateFrom (seen : Finset (List String)) (cycles : List (List String)) :
    (deduplicateFrom seen cycles).Nodup := by
  induction cycles generalizing seen with
  | nil => exact List.nodup_nil
  | cons cycle cycles ih =>
    unfold deduplicateFrom
    dsimp only
    split_ifs with hseen
    · exact ih seen
    · refine List.nodup_cons.mpr ⟨fun hmem => ?_, ih _⟩
      exact (mem_deduplicateFrom.mp hmem).1 (Finset.mem_insert_self _ _)

namespace DeadlockDetector

variable {d : DeadlockDetector}

/-- The snapshot has the edges of the graph. -/
theorem edge_snapshot (d : DeadlockDetector) : d.snapshot.Edge = d.Waits := by
  funext a b
  unfold Snapshot.Edge Snapshot.neighbors snapshot Waits
  rw [Dict.get?_mapValues]
  cases d.graph.get? a with
  | none => simp
  | some holders => simp

/-- `detect` reports the simple cycles within the bound. -/
theorem mem_detect {c : List String} :
    c ∈ d.detect.cycles ↔ IsReport d.Waits d.maxCycleLength c := by
  unfold detect deduplicateCycles
  dsimp only
  rw [mem_deduplicateFrom, ← edge_snapshot]
  simp only [mem_findAllCycles]
  constructor
  · rintro ⟨-, c', hc', rfl⟩
    rwa [canonicalCycle_report hc']
  · intro h
    exact ⟨by simp, c, h, canonicalCycle_report h⟩

/-- Each simple cycle of a graph without self-loops has one report, up to rotation. -/
theorem existsUnique_report (hirrefl : ∀ a, ¬ d.Waits a a) {z : Cycle String}
    (hne : z ≠ Cycle.nil) (hnodup : z.Nodup) (hchain : z.Chain d.Waits)
    (hlen : z.length ≤ d.maxCycleLength) :
    ∃! c, c ∈ d.detect.cycles ∧ (c.dropLast : Cycle String) = z := by
  induction z using Quotient.inductionOn' with | h p => ?_
  have hp : p ≠ [] := fun h => hne ((Cycle.coe_eq_nil p).mpr h)
  obtain ⟨a, q, hleast, hrot⟩ := exists_leastFirst hp hnodup
  have hz : (Quotient.mk'' p : Cycle String) = ((a :: q : List String) : Cycle String) :=
    Cycle.coe_eq_coe.mpr hrot
  rw [hz] at hnodup hchain hlen ⊢
  -- A cycle of one agent would be an agent that waits for itself.
  have hq : q ≠ [] := by
    rintro rfl
    exact hirrefl a ((Cycle.chain_singleton _ _).mp hchain)
  refine ⟨a :: q ++ [a], ⟨mem_detect.mpr ?_, ?_⟩, ?_⟩
  · exact ⟨a, q, rfl, hchain, hq, hlen, (List.nodup_cons.mp hnodup).2, hleast⟩
  · rw [List.dropLast_concat]
  · -- Another report of the cycle begins with its least agent too.
    rintro c ⟨hc, hrot'⟩
    obtain ⟨b, p', rfl, -, -, -, -, hleast'⟩ := mem_detect.mp hc
    rw [List.dropLast_concat, Cycle.coe_eq_coe] at hrot'
    obtain ⟨rfl, rfl⟩ := List.cons.inj (leastFirst_unique hleast' hleast hrot')
    rfl

/-- The bound of a detector is the one it was made with. -/
theorem maxCycleLength_run {bound : ℤ} (hinit : init bound = .ok d) (ops : List WaitOp) :
    ((ops.foldl apply d).maxCycleLength : ℤ) = bound := by
  have hd : (d.maxCycleLength : ℤ) = bound := by
    unfold init at hinit
    split_ifs at hinit
    obtain rfl := Except.ok.inj hinit
    exact Int.toNat_of_nonneg (by omega)
  -- No operation touches the bound.
  have happly : ∀ (d : DeadlockDetector) (op : WaitOp),
      (d.apply op).maxCycleLength = d.maxCycleLength := by
    intro d op
    cases op with
    | addWait waiter holder resourceId =>
      rcases apply_addWait d waiter holder resourceId with ⟨-, he⟩ | ⟨-, graph, -, he⟩
      · rw [he]
      · rw [he]
    | removeWait waiter holder =>
      rcases apply_removeWait d waiter holder with ⟨-, he⟩ | ⟨holders, -, -, he⟩
      · rw [he]
      · rw [he]
    | clearAgent agentId => rfl
    | clear => rfl
  rw [← hd]
  congr 1
  clear hinit hd
  induction ops generalizing d with
  | nil => rfl
  | cons op ops ih => rw [List.foldl_cons, ih, happly]

/-- For every graph that operations build, `detect` reports no cycle twice; each report is a simple
cycle of the graph within the bound, written from its least agent and back to it; and each simple
cycle of the graph within the bound has exactly one report, up to rotation. -/
theorem detect_exact {bound : ℤ} {d : DeadlockDetector} (hinit : init bound = .ok d)
    (ops : List WaitOp) :
    let graph := ops.foldl apply d
    graph.detect.cycles.Nodup ∧
    (∀ c ∈ graph.detect.cycles, ∃ a q, c = a :: q ++ [a] ∧ (∀ b ∈ q, a < b) ∧ (a :: q).Nodup ∧
      2 ≤ (a :: q).length ∧ ((a :: q).length : ℤ) ≤ bound ∧
      Cycle.Chain graph.Waits ((a :: q : List String) : Cycle String)) ∧
    (∀ z : Cycle String, z ≠ Cycle.nil → z.Nodup → z.Chain graph.Waits → (z.length : ℤ) ≤ bound →
      ∃! c, c ∈ graph.detect.cycles ∧ (c.dropLast : Cycle String) = z) := by
  have hbound := maxCycleLength_run hinit ops
  have hwf := (init_wellFormed hinit).run ops
  refine ⟨nodup_deduplicateFrom _ _, fun c hc => ?_, fun z hne hnodup hchain hlen => ?_⟩
  · obtain ⟨a, q, rfl, hchain, hq, hlen, hnodup, hleast⟩ := mem_detect.mp hc
    have hpos := List.length_pos_iff.mpr hq
    refine ⟨a, q, rfl, hleast, List.nodup_cons.mpr ⟨fun ha => (hleast a ha).false, hnodup⟩,
      ?_, ?_, hchain⟩
    · rw [List.length_cons]
      omega
    · rw [List.length_cons]
      omega
  · exact existsUnique_report hwf.irrefl hne hnodup hchain (by omega)

/-- `detect_exact` on two agents that wait for each other. -/
theorem detect_exact_pair :
    ∃ d, init 2 = .ok d ∧
      ∃! c, c ∈ ([WaitOp.addWait "a" "b" "", .addWait "b" "a" ""].foldl apply d).detect.cycles ∧
        (c.dropLast : Cycle String) = ((["a", "b"] : List String) : Cycle String) := by
  refine ⟨⟨2, le_rfl, .empty, []⟩, rfl, ?_⟩
  refine (detect_exact (show init 2 = .ok ⟨2, le_rfl, .empty, []⟩ from rfl) _).2.2 _ ?_ ?_ ?_ ?_
  · simp
  · decide
  · rw [Cycle.chain_coe_cons]
    decide
  · decide

end DeadlockDetector

end MeshRouter.Deadlock
