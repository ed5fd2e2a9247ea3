import MeshRouter.Workflows.DepthOrder
import MeshRouter.Workflows.Parallel

/-!
# Taking steps out of the remaining ones

`remaining.remove(step)` compares `step` with each remaining step before it. The ids of the steps
are distinct, so no comparison finds another step equal, and what the removal leaves does not depend
on the comparisons (`removeAll_cases`). But a comparison may raise (`CompareRaises`): it does
so if the steps have one agent and one action, and the comparison of their parameters raises.
-/

namespace MeshRouter.Workflows

open Lib

/-- `step == step'` raises. -/
def CompareRaises (eq : Comparison) (step step' : WorkflowStep) : Prop :=
  ∃ exc, step.equal eq step' = .error exc

namespace ParallelWorkflow

variable {eq : Comparison} {s t : WorkflowStep} {ts l : List WorkflowStep}

/-- Steps with different ids are not equal, if their comparison does not raise. -/
theorem equal_of_stepId_ne (hid : s.stepId ≠ t.stepId) (hraises : ¬ CompareRaises eq s t) :
    s.equal eq t = .ok false := by
  cases hequal : s.equal eq t with
  | error exc => exact absurd ⟨exc, hequal⟩ hraises
  | ok same =>
    unfold WorkflowStep.equal at hequal
    split_ifs at hequal
    · split at hequal
      · cases hequal
      · obtain rfl := Except.ok.inj hequal
        simp [hid]
    · exact hequal.symm

/-- A step is found before it is compared. -/
theorem remove_cons_self : remove eq t (t :: l) = .ok l := by
  unfold remove
  rw [if_pos rfl]

/-- A step that differs is kept. -/
theorem remove_cons_of_ne (hid : s.stepId ≠ t.stepId) (hraises : ¬ CompareRaises eq s t) :
    remove eq t (s :: l) = (remove eq t l).map (s :: ·) := by
  have hne : s ≠ t := fun heq => hid (congrArg _ heq)
  rw [remove, if_neg hne, equal_of_stepId_ne hid hraises]

/-- A comparison that raises ends the search. -/
theorem remove_cons_of_raises (hid : s.stepId ≠ t.stepId) (hraises : CompareRaises eq s t) :
    ∃ e, remove eq t (s :: l) = .error e := by
  have hne : s ≠ t := fun heq => hid (congrArg _ heq)
  obtain ⟨exc, hexc⟩ := hraises
  exact ⟨.comparison exc, by rw [remove, if_neg hne, hexc]⟩

/-- The removals of `settle`, without the results. -/
def removeAll (eq : Comparison) :
    List WorkflowStep → List WorkflowStep → Except WorkflowError (List WorkflowStep)
  | [], remaining => .ok remaining
  | step :: steps, remaining =>
    match remove eq step remaining with
    | .error e => .error e
    | .ok remaining => removeAll eq steps remaining

/-- Settling steps stores their results, and ends as the removals do. -/
theorem settle_cases (eq : Comparison) (result : WorkflowStep → StepResult)
    (ts l : List WorkflowStep) (p : Progress) :
    (∃ rest, removeAll eq ts l = .ok rest ∧
      settle eq result ts p l = .ok (p.recordAll result ts, rest)) ∨
    ∃ e e', removeAll eq ts l = .error e ∧ settle eq result ts p l = .error e' ∧
      ∀ x, .started x ∈ e'.log ↔ .started x ∈ p.log := by
  induction ts generalizing p l with
  | nil => exact Or.inl ⟨l, rfl, rfl⟩
  | cons t ts ih =>
    have hlog : ∀ x, .started x ∈ (p.recordAll result [t]).log ↔ .started x ∈ p.log := by
      intro x
      rw [Progress.log_recordAll]
      simp
    unfold removeAll settle
    cases remove eq t l with
    | error e => exact Or.inr ⟨e, _, rfl, rfl, hlog⟩
    | ok rest =>
      rcases ih rest (p.recordAll result [t]) with ⟨rest', hall, hok⟩ | ⟨e, e', hall, herr, hx⟩
      · exact Or.inl ⟨rest', hall, hok⟩
      · exact Or.inr ⟨e, e', hall, herr, fun x => (hx x).trans (hlog x)⟩

/-- A step that differs from all that are removed is kept. -/
theorem removeAll_cons_of_ne (hts : ∀ t ∈ ts, s.stepId ≠ t.stepId ∧ ¬ CompareRaises eq s t) :
    removeAll eq ts (s :: l) = (removeAll eq ts l).map (s :: ·) := by
  induction ts generalizing l with
  | nil => rfl
  | cons t ts ih =>
    obtain ⟨hid, hraises⟩ := hts t List.mem_cons_self
    unfold removeAll
    rw [remove_cons_of_ne hid hraises]
    cases remove eq t l with
    | error e => rfl
    | ok rest => exact ih fun t' ht' => hts t' (List.mem_cons_of_mem t ht')

/-- A step that is compared with each that is removed ends the removals if one comparison
raises. -/
theorem removeAll_cons_of_raises (hids : ∀ t ∈ ts, s.stepId ≠ t.stepId)
    (hraises : ∃ t ∈ ts, CompareRaises eq s t) : ∃ e, removeAll eq ts (s :: l) = .error e := by
  induction ts generalizing l with
  | nil =>
    obtain ⟨t, ht, -⟩ := hraises
    cases ht
  | cons t ts ih =>
    have hid := hids t List.mem_cons_self
    unfold removeAll
    by_cases ht : CompareRaises eq s t
    · obtain ⟨e, he⟩ := remove_cons_of_raises (l := l) hid ht
      exact ⟨e, by rw [he]⟩
    · have hrest : ∃ t ∈ ts, CompareRaises eq s t := by
        obtain ⟨t', ht', hraises'⟩ := hraises
        rcases List.mem_cons.mp ht' with rfl | ht'
        · exact absurd hraises' ht
        · exact ⟨t', ht', hraises'⟩
      rw [remove_cons_of_ne hid ht]
      cases remove eq t l with
      | error e => exact ⟨e, rfl⟩
      | ok rest => exact ih (fun t' ht' => hids t' (List.mem_cons_of_mem t ht')) hrest

/-- The pairs of steps of a list of which the first one is kept and the second one removed. -/
def Passed (q : WorkflowStep → Bool) (l : List WorkflowStep) (u t : WorkflowStep) : Prop :=
  [u, t].Sublist l ∧ q u = false ∧ q t = true

/-- Pairs behind the first step are pairs of the list. -/
theorem Passed.cons {q : WorkflowStep → Bool} {u : WorkflowStep} (h : Passed q l u t) :
    Passed q (s :: l) u t :=
  ⟨h.1.cons s, h.2⟩

/-- The steps of a list with distinct ids that have a property are removed, and the others are left,
unless the comparison of one of the others with a removed one behind it raises. -/
theorem removeAll_cases (eq : Comparison) (q : WorkflowStep → Bool) (hids : (stepIds l).Nodup) :
    (removeAll eq (l.filter q) l = .ok (l.filter fun s => !q s) ∧
      ∀ u t, Passed q l u t → ¬ CompareRaises eq u t) ∨
    ((∃ e, removeAll eq (l.filter q) l = .error e) ∧
      ∃ u t, Passed q l u t ∧ CompareRaises eq u t) := by
  induction l with
  | nil => exact Or.inl ⟨rfl, fun u t h => by cases h.1⟩
  | cons s l ih =>
    obtain ⟨hs, hl⟩ := List.nodup_cons.mp hids
    have hne : ∀ t ∈ l, s.stepId ≠ t.stepId :=
      fun t ht heq => hs (List.mem_map.mpr ⟨t, ht, heq.symm⟩)
    -- A pair of the list begins with its first step, or is a pair of the rest.
    have hpairs : ∀ u t, Passed q (s :: l) u t →
        (u = s ∧ t ∈ l ∧ q t = true) ∨ Passed q l u t := by
      rintro u t ⟨hsub, hu, ht⟩
      rcases List.sublist_cons_iff.mp hsub with hrest | ⟨r, hr, hrest⟩
      · exact Or.inr ⟨hrest, hu, ht⟩
      · obtain ⟨rfl, rfl⟩ := List.cons.inj hr
        exact Or.inl ⟨rfl, List.singleton_sublist.mp hrest, ht⟩
    cases hq : q s with
    | true =>
      have hfilter : (s :: l).filter q = s :: l.filter q := List.filter_cons_of_pos hq
      have hothers : (s :: l).filter (fun s => !q s) = l.filter fun s => !q s :=
        List.filter_cons_of_neg (by simp [hq])
      have hremove : removeAll eq (s :: l.filter q) (s :: l) = removeAll eq (l.filter q) l := by
        rw [removeAll, remove_cons_self]
      rw [hfilter, hothers, hremove]
      rcases ih hl with ⟨hok, hnone⟩ | ⟨herr, u, t, hpair, hraises⟩
      · refine Or.inl ⟨hok, fun u t hpair => ?_⟩
        rcases hpairs u t hpair with ⟨rfl, -, -⟩ | hrest
        · exact absurd (hq.symm.trans hpair.2.1) (by simp)
        · exact hnone u t hrest
      · exact Or.inr ⟨herr, u, t, hpair.cons, hraises⟩
    | false =>
      have hfilter : (s :: l).filter q = l.filter q := List.filter_cons_of_neg (by simp [hq])
      have hothers : (s :: l).filter (fun s => !q s) = s :: l.filter fun s => !q s :=
        List.filter_cons_of_pos (by simp [hq])
      rw [hfilter, hothers]
      by_cases hraises : ∃ t ∈ l.filter q, CompareRaises eq s t
      · refine Or.inr ⟨removeAll_cons_of_raises
          (fun t ht => hne t (List.mem_of_mem_filter ht)) hraises, ?_⟩
        obtain ⟨t, ht, hst⟩ := hraises
        obtain ⟨hmem, hqt⟩ := List.mem_filter.mp ht
        have hsub : [s, t].Sublist (s :: l) := (List.singleton_sublist.mpr hmem).cons_cons s
        exact ⟨s, t, ⟨hsub, hq, hqt⟩, hst⟩
      · rw [removeAll_cons_of_ne fun t ht =>
          ⟨hne t (List.mem_of_mem_filter ht), fun hst => hraises ⟨t, ht, hst⟩⟩]
        rcases ih hl with ⟨hok, hnone⟩ | ⟨⟨e, herr⟩, u, t, hpair, hst⟩
        · refine Or.inl ⟨by rw [hok]; rfl, fun u t hpair => ?_⟩
          rcases hpairs u t hpair with ⟨rfl, hmem, hqt⟩ | hrest
          · exact fun hst => hraises ⟨t, List.mem_filter.mpr ⟨hmem, hqt⟩, hst⟩
          · exact hnone u t hrest
        · exact Or.inr ⟨⟨e, by rw [herr]; rfl⟩, u, t, hpair.cons, hst⟩

/-- Settling the steps of a list that have a property leaves the others, with the results of the
first, unless a comparison raises. -/
theorem settle_filter_cases (eq : Comparison) (result : WorkflowStep → StepResult)
    (q : WorkflowStep → Bool) (hids : (stepIds l).Nodup) (p : Progress) :
    (settle eq result (l.filter q) p l =
        .ok (p.recordAll result (l.filter q), l.filter fun s => !q s) ∧
      ∀ u t, Passed q l u t → ¬ CompareRaises eq u t) ∨
    ∃ e, settle eq result (l.filter q) p l = .error e ∧
      (∃ u t, Passed q l u t ∧ CompareRaises eq u t) ∧
      ∀ x, .started x ∈ e.log ↔ .started x ∈ p.log := by
  rcases settle_cases eq result (l.filter q) l p with
    ⟨rest, hremove, hok⟩ | ⟨e, e', hremove, herr, hlog⟩
  · rcases removeAll_cases eq q hids with ⟨hrest, hnone⟩ | ⟨⟨e, herr⟩, -⟩
    · obtain rfl := Except.ok.inj (hremove.symm.trans hrest)
      exact Or.inl ⟨hok, hnone⟩
    · cases hremove.symm.trans herr
  · rcases removeAll_cases eq q hids with ⟨hrest, -⟩ | ⟨-, hpair⟩
    · cases hremove.symm.trans hrest
    · exact Or.inr ⟨e', herr, hpair, hlog⟩

end ParallelWorkflow

end MeshRouter.Workflows
