import MeshRouter.Deadlock.Cycles
import MeshRouter.Lib.History

/-!
# How the reports follow the operations

A detector is asked again and again while waits come and go. A report is a closed list of agents of
which each waits for the next (`isReport_iff`), and who waits for whom is decided for each pair by
the latest operation about it (`waits_iff_since`). So the reports after any history can be read off
the history, pair by pair, and a report stays until one of its waits is removed.

`deadlock_addWait_iff` asks what a new wait does. The cycles that it makes all go through it
(`exists_path_of_pair`), so that it makes a deadlock exactly if there is a way back already, from
the holder to the waiter.
-/

namespace MeshRouter.Deadlock

open Lib

/-- A relation holds along a list if it holds of each two that follow each other. -/
theorem isChain_iff_forall_pair {α : Type} {r : α → α → Prop} {l : List α} :
    l.IsChain r ↔ ∀ a b, [a, b] <:+: l → r a b := by
  constructor
  · intro h a b hab
    obtain ⟨before, after, rfl⟩ := hab
    exact List.isChain_pair.mp h.left_of_append.right_of_append
  · intro h
    exact (List.isChain_isInfix l).imp h

/-- The form of a report: distinct agents within the bound, from the least one and back to it. -/
def ReportForm (maxLength : ℕ) (c : List String) : Prop :=
  ∃ a q, c = a :: q ++ [a] ∧ q ≠ [] ∧ q.length + 1 ≤ maxLength ∧ q.Nodup ∧ LeastFirst a q

variable {maxLength : ℕ} {c : List String} {r : String → String → Prop}

/-- A report is of this form, and each of its agents waits for the next. -/
theorem isReport_iff :
    IsReport r maxLength c ↔ ReportForm maxLength c ∧ ∀ a b, [a, b] <:+: c → r a b := by
  unfold IsReport ReportForm
  constructor
  · rintro ⟨a, q, rfl, hchain, hq, hlen, hnodup, hleast⟩
    rw [Cycle.chain_coe_cons] at hchain
    exact ⟨⟨a, q, rfl, hq, hlen, hnodup, hleast⟩, isChain_iff_forall_pair.mp hchain⟩
  · rintro ⟨⟨a, q, rfl, hq, hlen, hnodup, hleast⟩, hwaits⟩
    refine ⟨a, q, rfl, ?_, hq, hlen, hnodup, hleast⟩
    rw [Cycle.chain_coe_cons]
    exact isChain_iff_forall_pair.mpr hwaits

/-! ## Who waits for whom after a history -/

/-- The operation makes `a` wait for `b`. -/
def WaitOp.Adds (a b : String) : WaitOp → Prop
  | .addWait waiter holder _ => waiter ≠ holder ∧ a = waiter ∧ b = holder
  | _ => False

/-- The operation ends the wait of `a` for `b`. -/
def WaitOp.Ends (a b : String) : WaitOp → Prop
  | .addWait _ _ _ => False
  | .removeWait waiter holder => a = waiter ∧ b = holder
  | .clearAgent agentId => a = agentId ∨ b = agentId
  | .clear => True

/-- What an operation does to one pair of agents. -/
theorem WaitOp.effect_iff (waits : String → String → Prop) (op : WaitOp) (a b : String) :
    op.effect waits a b ↔ op.Adds a b ∨ waits a b ∧ ¬ op.Ends a b := by
  cases op with
  | addWait waiter holder resourceId =>
    unfold WaitOp.effect WaitOp.Adds WaitOp.Ends
    rw [not_false_eq_true, and_true, or_comm]
  | removeWait waiter holder =>
    unfold WaitOp.effect WaitOp.Adds WaitOp.Ends
    rw [false_or]
  | clearAgent agentId =>
    unfold WaitOp.effect WaitOp.Adds WaitOp.Ends
    rw [false_or, not_or]
  | clear =>
    unfold WaitOp.effect WaitOp.Adds WaitOp.Ends
    rw [false_or, not_true_eq_false, and_false]

namespace DeadlockDetector

variable {bound : ℤ} {d : DeadlockDetector}

/-- An agent waits for another exactly if an operation has made it, and none has ended it since. -/
theorem waits_iff_since (hinit : init bound = .ok d) (ops : List WaitOp) (a b : String) :
    (ops.foldl apply d).Waits a b ↔ Since (WaitOp.Adds a b) (WaitOp.Ends a b) ops := by
  have hnone : ¬ d.Waits a b := by
    unfold init at hinit
    split_ifs at hinit
    obtain rfl := Except.ok.inj hinit
    simp [Waits]
  induction ops using List.reverseRecOn with
  | nil => exact iff_of_false hnone not_since_nil
  | append_singleton ops op ih =>
    rw [List.foldl_concat, waits_apply, op.effect_iff, since_concat]
    exact or_congr_right (and_congr_left fun _ => ih)

/-- `detect` reports the lists of this form of which each agent waits for the next. -/
theorem mem_detect_iff :
    c ∈ d.detect.cycles ↔ ReportForm d.maxCycleLength c ∧ ∀ a b, [a, b] <:+: c → d.Waits a b :=
  mem_detect.trans isReport_iff

/-- A deadlock is detected if there is a report. -/
theorem hasDeadlock_iff : d.detect.hasDeadlock = true ↔ ∃ c, c ∈ d.detect.cycles := by
  unfold DeadlockResult.hasDeadlock
  rw [decide_eq_true_eq, List.length_pos_iff_exists_mem]

end DeadlockDetector

/-! ## A new wait -/

/-- A closed list that goes from `w` to `h` can be turned into a list from `h` to `w`. -/
theorem exists_path_of_pair {a w h : String} {q : List String}
    (hwh : [w, h] <:+: a :: q ++ [a]) :
    ∃ p, (a :: q) ~r p ∧ p.head? = some h ∧ p.getLast? = some w := by
  obtain ⟨before, after, heq⟩ := hwh
  rw [List.append_assoc] at heq
  rcases List.eq_nil_or_concat' after with rfl | ⟨after, x, rfl⟩
  · -- The list ends in the pair, so that it begins with `h`.
    rw [List.append_nil, show [w, h] = [w] ++ [h] from rfl, ← List.append_assoc] at heq
    obtain ⟨heq, hh⟩ := List.append_inj' heq rfl
    obtain rfl : h = a := (List.cons.inj hh).1
    refine ⟨h :: q, List.IsRotated.refl _, rfl, ?_⟩
    rw [← heq, List.getLast?_concat]
  · rw [← List.append_assoc, ← List.append_assoc] at heq
    obtain ⟨heq, -⟩ := List.append_inj' heq rfl
    refine ⟨h :: after ++ (before ++ [w]), ?_, rfl, ?_⟩
    · rw [← heq, show before ++ [w, h] ++ after = (before ++ [w]) ++ (h :: after) by simp]
      exact List.isRotated_append
    · rw [← List.append_assoc, List.getLast?_concat]

/-- There is a way from `h` to `w` over distinct agents, no more than the bound, each of which waits
for the next. -/
def WayBack (waits : String → String → Prop) (bound : ℤ) (w h : String) : Prop :=
  ∃ p : List String, p.head? = some h ∧ p.getLast? = some w ∧ p.Nodup ∧ p.IsChain waits ∧
    (p.length : ℤ) ≤ bound

namespace DeadlockDetector

variable {bound : ℤ} {d : DeadlockDetector} {w h res : String}

/-- The graph with a new wait. -/
theorem waits_addWait (hne : w ≠ h) (a b : String) :
    (d.apply (.addWait w h res)).Waits a b ↔ d.Waits a b ∨ a = w ∧ b = h := by
  have heffect : WaitOp.effect d.Waits (.addWait w h res) a b ↔
      d.Waits a b ∨ w ≠ h ∧ a = w ∧ b = h := Iff.rfl
  rw [waits_apply, heffect, and_iff_right hne]

theorem maxCycleLength_addWait (d : DeadlockDetector) (w h res : String) :
    (d.apply (.addWait w h res)).maxCycleLength = d.maxCycleLength := by
  rcases apply_addWait d w h res with ⟨-, he⟩ | ⟨-, graph, -, he⟩
  · rw [he]
  · rw [he]

/-- A closed chain over distinct agents that goes through the new wait leaves a way back when it is
cut there. -/
theorem wayBack_of_pair {a : String} {q : List String} (hne : w ≠ h) (hnodup : (a :: q).Nodup)
    (hchain : ((a :: q : List String) : Cycle String).Chain (d.apply (.addWait w h res)).Waits)
    (hlen : ((a :: q).length : ℤ) ≤ bound) (hwh : [w, h] <:+: a :: q ++ [a]) :
    WayBack d.Waits bound w h := by
  obtain ⟨p, hrot, hhead, hlast⟩ := exists_path_of_pair hwh
  have hp : p.Nodup := hrot.nodup_iff.mp hnodup
  rw [Cycle.coe_eq_coe.mpr hrot] at hchain
  refine ⟨p, hhead, hlast, hp, ?_, by rwa [← hrot.perm.length_eq]⟩
  obtain ⟨rest, rfl⟩ : ∃ rest, p = h :: rest := List.head?_eq_some_iff.mp hhead
  rw [Cycle.chain_coe_cons, ← List.cons_append] at hchain
  refine List.IsChain.imp_of_mem_tail_imp ?_ hchain.left_of_append
  -- The holder is at the front, so no step of the way leads to it.
  intro a b _ hb hab
  rcases (waits_addWait hne a b).mp hab with hab | ⟨-, rfl⟩
  · exact hab
  · exact absurd hb (List.nodup_cons.mp hp).1

/-- A way back is closed by the new wait. -/
theorem hasDeadlock_of_wayBack (hirrefl : ∀ a, ¬ d.Waits a a) (hne : w ≠ h)
    (hbound : bound = d.maxCycleLength) (hway : WayBack d.Waits bound w h) :
    (d.apply (.addWait w h res)).detect.hasDeadlock = true := by
  obtain ⟨p, hhead, hlast, hnodup, hchain, hlen⟩ := hway
  obtain ⟨rest, rfl⟩ : ∃ rest, p = h :: rest := List.head?_eq_some_iff.mp hhead
  have hirrefl' : ∀ a, ¬ (d.apply (.addWait w h res)).Waits a a := by
    intro a ha
    rcases (waits_addWait hne a a).mp ha with ha | ⟨rfl, rfl⟩
    · exact hirrefl a ha
    · exact hne rfl
  have hcycle : ((h :: rest : List String) : Cycle String).Chain
      (d.apply (.addWait w h res)).Waits := by
    rw [Cycle.chain_coe_cons, ← List.cons_append, List.isChain_append]
    refine ⟨hchain.imp fun a b hab => (waits_addWait hne a b).mpr (Or.inl hab),
      List.isChain_singleton h, ?_⟩
    rintro x hx y hy
    obtain rfl : x = w := Option.some.inj (hx.symm.trans hlast)
    obtain rfl : h = y := Option.some.inj hy
    exact (waits_addWait hne x h).mpr (Or.inr ⟨rfl, rfl⟩)
  have hmax := maxCycleLength_addWait d w h res
  obtain ⟨c, ⟨hc, -⟩, -⟩ := existsUnique_report hirrefl' (by simp)
    (Cycle.nodup_coe_iff.mpr hnodup) hcycle (by
    rw [hmax, Cycle.length_coe]
    omega)
  exact hasDeadlock_iff.mpr ⟨c, hc⟩

/-- A new wait makes a deadlock exactly if there is a way back. -/
theorem hasDeadlock_addWait_iff (hirrefl : ∀ a, ¬ d.Waits a a) (hne : w ≠ h)
    (hbound : bound = d.maxCycleLength) :
    (d.apply (.addWait w h res)).detect.hasDeadlock = true ↔
      d.detect.hasDeadlock = true ∨ WayBack d.Waits bound w h := by
  have hmax := maxCycleLength_addWait d w h res
  constructor
  · intro hdeadlock
    obtain ⟨c, hc⟩ := hasDeadlock_iff.mp hdeadlock
    by_cases hwh : [w, h] <:+: c
    · right
      obtain ⟨a, q, rfl, hchain, -, hlen, hnodup, hleast⟩ := mem_detect.mp hc
      refine wayBack_of_pair hne ?_ hchain ?_ hwh
      · exact List.nodup_cons.mpr ⟨fun ha => (hleast a ha).false, hnodup⟩
      · rw [List.length_cons]
        omega
    · -- The report does not use the new wait, so that it was there before.
      left
      obtain ⟨hform, hwaits⟩ := mem_detect_iff.mp hc
      rw [hmax] at hform
      refine hasDeadlock_iff.mpr ⟨c, mem_detect_iff.mpr ⟨hform, fun a b hab => ?_⟩⟩
      rcases (waits_addWait hne a b).mp (hwaits a b hab) with hold | ⟨rfl, rfl⟩
      · exact hold
      · exact absurd hab hwh
  · rintro (hold | hway)
    · obtain ⟨c, hc⟩ := hasDeadlock_iff.mp hold
      obtain ⟨hform, hwaits⟩ := mem_detect_iff.mp hc
      rw [← hmax] at hform
      refine hasDeadlock_iff.mpr ⟨c, mem_detect_iff.mpr ⟨hform, fun a b hab => ?_⟩⟩
      exact (waits_addWait hne a b).mpr (Or.inl (hwaits a b hab))
    · exact hasDeadlock_of_wayBack hirrefl hne hbound hway

/-- For every history of a detector, a closed list of distinct agents within the bound, from the
least one and back to it, is reported exactly if for each two agents that follow each other in it a
wait was added and neither removed nor cleared since; and a further wait makes a deadlock exactly if
there was one already or there is a way back of at most `max_cycle_length` agents, from the holder
to the waiter. -/
theorem reports_exact (hinit : init bound = .ok d) (ops : List WaitOp) :
    let graph := ops.foldl apply d
    (∀ c, c ∈ graph.detect.cycles ↔ ReportForm bound.toNat c ∧
      ∀ a b, [a, b] <:+: c → Since (WaitOp.Adds a b) (WaitOp.Ends a b) ops) ∧
    ∀ waiter holder resourceId, waiter ≠ holder →
      ((graph.apply (.addWait waiter holder resourceId)).detect.hasDeadlock = true ↔
        graph.detect.hasDeadlock = true ∨ WayBack graph.Waits bound waiter holder) := by
  intro graph
  have hbound : (graph.maxCycleLength : ℤ) = bound := maxCycleLength_run hinit ops
  constructor
  · intro c
    rw [mem_detect_iff, show graph.maxCycleLength = bound.toNat by omega]
    refine and_congr_right fun _ => forall₂_congr fun a b => imp_congr_right fun _ => ?_
    exact waits_iff_since hinit ops a b
  · intro waiter holder resourceId hne
    exact hasDeadlock_addWait_iff ((init_wellFormed hinit).run ops).irrefl hne hbound.symm

/-- `reports_exact` for an agent that waits for another, which then waits for it. -/
theorem reports_exact_wayBack :
    ∃ d, init 2 = .ok d ∧
      ((([WaitOp.addWait "a" "b" ""].foldl apply d).apply
        (.addWait "b" "a" "")).detect.hasDeadlock = true) := by
  refine ⟨⟨2, le_rfl, .empty, []⟩, rfl, ?_⟩
  refine ((reports_exact (show init 2 = .ok ⟨2, le_rfl, .empty, []⟩ from rfl)
    [.addWait "a" "b" ""]).2 "b" "a" "" (by decide)).mpr (Or.inr ?_)
  refine ⟨["a", "b"], rfl, rfl, by decide, ?_, by decide⟩
  rw [List.isChain_pair]
  decide

end DeadlockDetector

end MeshRouter.Deadlock
