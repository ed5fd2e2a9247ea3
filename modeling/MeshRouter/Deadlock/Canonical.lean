import MeshRouter.Deadlock.Cycles

/-!
# The canonical form of a cycle

A closed cycle is written from any of its agents and back to it. `_canonical_cycle` rotates it to
its least agent, and since the agents are distinct there is one such rotation
(`canonicalCycle_eq_iff`): the canonical forms are the cycles up to rotation.

So `_deduplicate_cycles`, which keeps the canonical forms that it has not seen, keeps one of each
class of rotations. One more cycle at the end of the list adds its canonical form, unless a rotation
of it came before (`deduplicateCycles_concat`).
-/

namespace MeshRouter.Deadlock

open Lib

variable {c c' : List String} {cycles : List (List String)}

/-- A cycle with distinct agents, with the first repeated at the end. -/
def IsClosed (c : List String) : Prop := ∃ a q, c = a :: q ++ [a] ∧ (a :: q).Nodup

/-- The agents of a closed cycle, without the repeated one. -/
theorem IsClosed.nodup (h : IsClosed c) : c.dropLast.Nodup := by
  obtain ⟨a, q, rfl, hnodup⟩ := h
  rwa [List.dropLast_concat]

/-- The canonical form of a closed cycle is its rotation to the least agent. -/
theorem canonicalCycle_spec (h : IsClosed c) :
    ∃ a q, canonicalCycle c = a :: q ++ [a] ∧ LeastFirst a q ∧ c.dropLast ~r a :: q := by
  have hnodup := h.nodup
  obtain ⟨b, p, hc, -⟩ := h
  have hpath : c.dropLast = b :: p := by rw [hc, List.dropLast_concat]
  have hsome : c.dropLast.min?.isSome := by
    rw [hpath]
    exact List.isSome_min?_of_mem List.mem_cons_self
  obtain ⟨a, ha⟩ := Option.isSome_iff_exists.mp hsome
  obtain ⟨hmem, hmin⟩ := List.min?_eq_some_iff.mp ha
  obtain ⟨l, m, hsplit⟩ := List.append_of_mem hmem
  rw [hsplit] at hnodup hmin
  obtain ⟨hnot, -⟩ := List.nodup_cons.mp (List.nodup_middle.mp hnodup)
  -- The least agent is found where the cycle is split.
  have hidx : (l ++ a :: m).idxOf a = l.length := by
    rw [List.idxOf_append_of_notMem fun hl => hnot (List.mem_append_left m hl),
      List.idxOf_cons_self, Nat.add_zero]
  refine ⟨a, m ++ l, ?_, fun x hx => ?_, ?_⟩
  · unfold canonicalCycle
    dsimp only
    rw [ha]
    dsimp only
    rw [hsplit, hidx, List.drop_left, List.take_left]
    rfl
  · have hx' : x ∈ l ++ m := List.perm_append_comm.mem_iff.mp hx
    have hle : a ≤ x := by
      refine hmin x ?_
      rw [List.mem_append, List.mem_cons]
      exact (List.mem_append.mp hx').imp_right Or.inr
    exact hle.lt_of_ne fun heq => hnot (heq ▸ hx')
  · rw [hsplit]
    exact List.isRotated_append

/-- The canonical form is a closed cycle too, and a rotation. -/
theorem canonicalCycle_isClosed (h : IsClosed c) :
    IsClosed (canonicalCycle c) ∧ (canonicalCycle c).dropLast ~r c.dropLast := by
  obtain ⟨a, q, hcanonical, -, hrot⟩ := canonicalCycle_spec h
  rw [hcanonical, List.dropLast_concat]
  exact ⟨⟨a, q, rfl, hrot.nodup_iff.mp h.nodup⟩, hrot.symm⟩

/-- Two closed cycles have the same canonical form exactly when they are rotations of each other. -/
theorem canonicalCycle_eq_iff (h : IsClosed c) (h' : IsClosed c') :
    canonicalCycle c = canonicalCycle c' ↔ c.dropLast ~r c'.dropLast := by
  constructor
  · intro heq
    have hrot := (canonicalCycle_isClosed h).2
    rw [heq] at hrot
    exact hrot.symm.trans (canonicalCycle_isClosed h').2
  · intro hrot
    obtain ⟨a, q, hcanonical, hleast, ha⟩ := canonicalCycle_spec h
    obtain ⟨b, p, hcanonical', hleast', hb⟩ := canonicalCycle_spec h'
    obtain ⟨rfl, rfl⟩ :=
      List.cons.inj (leastFirst_unique hleast hleast' (ha.symm.trans (hrot.trans hb)))
    rw [hcanonical, hcanonical']

/-! ## Duplicates -/

/-- One more cycle adds its canonical form, unless it was seen. -/
theorem deduplicateFrom_concat (seen : Finset (List String)) (cycles : List (List String))
    (c : List String) :
    deduplicateFrom seen (cycles ++ [c]) = deduplicateFrom seen cycles ++
      if canonicalCycle c ∈ seen ∨ ∃ c' ∈ cycles, canonicalCycle c' = canonicalCycle c then []
      else [canonicalCycle c] := by
  induction cycles generalizing seen with
  | nil =>
    simp only [List.nil_append, deduplicateFrom, List.not_mem_nil, false_and, exists_false,
      or_false]
  | cons cycle cycles ih =>
    rw [List.cons_append]
    unfold deduplicateFrom
    simp only [List.exists_mem_cons_iff]
    split_ifs with hseen hmem hmem
    · rw [ih, if_pos]
      -- The first cycle was seen, so it makes no difference.
      rcases hmem with hmem | heq | hmem
      · exact Or.inl hmem
      · exact Or.inl (heq ▸ hseen)
      · exact Or.inr hmem
    · rw [ih, if_neg fun h => hmem (h.imp_right Or.inr)]
    · rw [ih, if_pos, List.append_nil, List.append_nil]
      rw [Finset.mem_insert]
      rcases hmem with hmem | heq | hmem
      · exact Or.inl (Or.inr hmem)
      · exact Or.inl (Or.inl heq.symm)
      · exact Or.inr hmem
    · rw [ih, if_neg, List.cons_append]
      rw [Finset.mem_insert]
      rintro ((heq | h) | h)
      · exact hmem (Or.inr (Or.inl heq.symm))
      · exact hmem (Or.inl h)
      · exact hmem (Or.inr (Or.inr h))

/-- One more closed cycle adds its canonical form, unless a rotation of it came before. -/
theorem deduplicateCycles_concat (hcycles : ∀ c' ∈ cycles, IsClosed c') (h : IsClosed c) :
    deduplicateCycles (cycles ++ [c]) = deduplicateCycles cycles ++
      if ∃ c' ∈ cycles, c'.dropLast ~r c.dropLast then [] else [canonicalCycle c] := by
  have hseen : (canonicalCycle c ∈ (∅ : Finset (List String)) ∨
      ∃ c' ∈ cycles, canonicalCycle c' = canonicalCycle c) ↔
        ∃ c' ∈ cycles, c'.dropLast ~r c.dropLast := by
    rw [or_iff_right (Finset.notMem_empty _)]
    exact exists_congr fun c' => and_congr_right fun hc' => canonicalCycle_eq_iff (hcycles c' hc') h
  unfold deduplicateCycles
  rw [deduplicateFrom_concat]
  congr 1
  exact if_congr hseen rfl rfl

/-- Each closed cycle of the list has one representative in the result. -/
theorem existsUnique_representative (hcycles : ∀ c' ∈ cycles, IsClosed c') (hc : c ∈ cycles) :
    ∃! r, r ∈ deduplicateCycles cycles ∧ r.dropLast ~r c.dropLast := by
  unfold deduplicateCycles
  simp only [mem_deduplicateFrom, Finset.notMem_empty, not_false_eq_true, true_and]
  refine ⟨canonicalCycle c, ⟨⟨c, hc, rfl⟩, (canonicalCycle_isClosed (hcycles c hc)).2⟩, ?_⟩
  rintro r ⟨⟨c', hc', rfl⟩, hrot⟩
  refine (canonicalCycle_eq_iff (hcycles c' hc') (hcycles c hc)).mpr ?_
  exact (canonicalCycle_isClosed (hcycles c' hc')).2.symm.trans hrot

/-- For every list of closed cycles with distinct agents: `_canonical_cycle` gives two of them the
same result exactly when one is a rotation of the other, and gives its own result again.
`_deduplicate_cycles` returns canonical forms of cycles of the list, one of each class of rotations,
and every cycle adds to the result where it is the first of its class. -/
theorem canonical_forms (hcycles : ∀ c ∈ cycles, IsClosed c) :
    (∀ c ∈ cycles, ∀ c' ∈ cycles,
      canonicalCycle c = canonicalCycle c' ↔ c.dropLast ~r c'.dropLast) ∧
    (∀ c ∈ cycles, canonicalCycle (canonicalCycle c) = canonicalCycle c ∧
      IsClosed (canonicalCycle c) ∧ (canonicalCycle c).dropLast ~r c.dropLast) ∧
    (∀ r ∈ deduplicateCycles cycles, ∃ c ∈ cycles, r = canonicalCycle c) ∧
    (∀ c ∈ cycles, ∃! r, r ∈ deduplicateCycles cycles ∧ r.dropLast ~r c.dropLast) ∧
    (deduplicateCycles cycles).Nodup ∧
    deduplicateCycles [] = [] ∧
    ∀ before c after, cycles = before ++ c :: after →
      deduplicateCycles (before ++ [c]) = deduplicateCycles before ++
        if ∃ c' ∈ before, c'.dropLast ~r c.dropLast then [] else [canonicalCycle c] := by
  refine ⟨fun c hc c' hc' => canonicalCycle_eq_iff (hcycles c hc) (hcycles c' hc'), fun c hc => ?_,
    fun r hr => ?_, fun c hc => existsUnique_representative hcycles hc,
    nodup_deduplicateFrom _ _, rfl, ?_⟩
  · obtain ⟨hclosed, hrot⟩ := canonicalCycle_isClosed (hcycles c hc)
    exact ⟨(canonicalCycle_eq_iff hclosed (hcycles c hc)).mpr hrot, hclosed, hrot⟩
  · obtain ⟨-, c, hc, rfl⟩ := mem_deduplicateFrom.mp hr
    exact ⟨c, hc, rfl⟩
  · rintro before c after rfl
    refine deduplicateCycles_concat (fun c' hc' => hcycles c' ?_) (hcycles c ?_)
    · exact List.mem_append_left _ hc'
    · exact List.mem_append_right _ List.mem_cons_self

/-- `canonical_forms` on two writings of one cycle. -/
theorem canonical_forms_pair :
    canonicalCycle ["b", "a", "b"] = canonicalCycle ["a", "b", "a"] ∧
      deduplicateCycles [["b", "a", "b"], ["a", "b", "a"]] = [["a", "b", "a"]] := by
  have hclosed : ∀ c ∈ [["b", "a", "b"], ["a", "b", "a"]], IsClosed c := by
    intro c hc
    simp only [List.mem_cons, List.not_mem_nil, or_false] at hc
    rcases hc with rfl | rfl
    · exact ⟨"b", ["a"], rfl, by decide⟩
    · exact ⟨"a", ["b"], rfl, by decide⟩
  obtain ⟨hiff, -⟩ := canonical_forms hclosed
  refine ⟨(hiff _ (by simp) _ (by simp)).mpr ?_, ?_⟩
  · exact ⟨1, rfl⟩
  · decide

end MeshRouter.Deadlock
