import MeshRouter.Workflows.Hierarchical

/-!
# The depth-first search finds the cycles

The search follows the dependents of a step, so its cycles are those of the converse relation. A
call of `dfs` on a white node colours at least that node, so the number of white nodes bounds the
depth of the recursion, and the bound of the model is never met.

When no error is raised, a node turns black after all its dependents, so every black node is
accessible (`BlackAcc`). An error is raised at a grey neighbour; the grey nodes are those of the
current path, which leads back to it. Both are read off one statement about a call, `Outcome`.
-/

namespace MeshRouter.Workflows.HierarchicalWorkflow

open Lib Relation

variable {steps : List WorkflowStep} {c c' : Dict String Color}

/-- The colour of a node. A node that was never coloured is white. -/
def colorOf (c : Dict String Color) (x : String) : Color := c.getD x .WHITE

@[simp]
theorem colorOf_set (c : Dict String Color) (x y : String) (color : Color) :
    colorOf (c.set x color) y = if y = x then color else colorOf c y := Dict.getD_set c x y color _

/-- The number of steps that are still white. -/
def whites (steps : List WorkflowStep) (c : Dict String Color) : ℕ :=
  (stepIds steps).countP fun x => colorOf c x = .WHITE

/-- What an exploration leaves: the same grey nodes, and at least the same black ones. -/
structure Explored (c c' : Dict String Color) : Prop where
  gray : ∀ x, colorOf c' x = .GRAY ↔ colorOf c x = .GRAY
  black : ∀ x, colorOf c x = .BLACK → colorOf c' x = .BLACK

/-- Every black node is accessible from its dependents. -/
def BlackAcc (steps : List WorkflowStep) (c : Dict String Color) : Prop :=
  ∀ x, colorOf c x = .BLACK → Acc (DependsOn steps) x

/-- What comes of exploring `nodes`, with a current path that ends in `node`: they are black and the
black nodes are accessible, or, if the grey nodes lead to `node`, there is a cycle. -/
def Outcome (steps : List WorkflowStep) (c : Dict String Color) (node : String)
    (nodes : List String) : Except WorkflowError (Dict String Color) → Prop
  | .ok c' => Explored c c' ∧ (∀ x ∈ nodes, colorOf c' x = .BLACK) ∧
      (BlackAcc steps c → BlackAcc steps c')
  | .error e => e = .circularDependency ∧
      ((∀ g, colorOf c g = .GRAY → ReflTransGen (Function.swap (DependsOn steps)) g node) →
        IsCyclic steps)

theorem Explored.refl (c : Dict String Color) : Explored c c := ⟨fun _ => Iff.rfl, fun _ => id⟩

theorem Explored.trans {c'' : Dict String Color} (h : Explored c c') (h' : Explored c' c'') :
    Explored c c'' :=
  ⟨fun x => (h'.gray x).trans (h.gray x), fun x hx => h'.black x (h.black x hx)⟩

/-- What is white after an exploration was white before. -/
theorem Explored.whites_le (h : Explored c c') : whites steps c' ≤ whites steps c := by
  refine List.countP_mono_left fun x _ hx => ?_
  rw [decide_eq_true_eq] at hx ⊢
  cases hc : colorOf c x with
  | WHITE => rfl
  | GRAY => rw [(h.gray x).mpr hc] at hx; cases hx
  | BLACK => rw [h.black x hc] at hx; cases hx

/-- Colouring a white node leaves fewer white nodes. -/
theorem whites_set_lt {x : String} (hx : x ∈ stepIds steps) (hc : colorOf c x = .WHITE)
    {color : Color} (hne : color ≠ .WHITE) : whites steps (c.set x color) < whites steps c := by
  obtain ⟨l, m, hsplit⟩ := List.append_of_mem hx
  -- No other node becomes white.
  have hle : ∀ l : List String, l.countP (fun y => colorOf (c.set x color) y = .WHITE) ≤
      l.countP fun y => colorOf c y = .WHITE := by
    intro l
    refine List.countP_mono_left fun y _ hy => ?_
    rw [decide_eq_true_eq, colorOf_set] at hy
    split_ifs at hy with heq
    · exact absurd hy hne
    · exact decide_eq_true hy
  unfold whites
  rw [hsplit, List.countP_append, List.countP_append, List.countP_cons, List.countP_cons,
    colorOf_set, if_pos rfl, hc, if_neg (by simpa using hne), if_pos (by rfl)]
  have hl := hle l
  have hm := hle m
  omega

/-- The loop over the neighbours of a node explores them, if `dfs` explores each white one. -/
theorem visitNeighbors_outcome {dfs : String → Dict String Color →
      Except WorkflowError (Dict String Color)} {fuel : ℕ} {node : String} {nodes : List String}
    (hdfs : ∀ x c, x ∈ stepIds steps → colorOf c x = .WHITE → whites steps c ≤ fuel →
      Outcome steps c x [x] (dfs x c))
    (hnodes : ∀ x ∈ nodes, DependsOn steps x node) (hfuel : whites steps c ≤ fuel) :
    Outcome steps c node nodes (visitNeighbors dfs nodes c) := by
  induction nodes generalizing c with
  | nil => exact ⟨Explored.refl c, by simp, id⟩
  | cons x nodes ih =>
    have hdep := hnodes x List.mem_cons_self
    have hrest := fun y hy => hnodes y (List.mem_cons_of_mem x hy)
    unfold visitNeighbors
    have hcolor : c.getD x .WHITE = colorOf c x := rfl
    rw [hcolor]
    cases hx : colorOf c x with
    | GRAY =>
      -- The neighbour is on the path that leads to the node.
      refine ⟨rfl, fun hpath hacyclic => ?_⟩
      exact acyclic_swap.mpr hacyclic x (TransGen.tail' (hpath x hx) hdep)
    | WHITE =>
      dsimp only
      have hout := hdfs x c hdep.mem hx hfuel
      cases hres : dfs x c with
      | error e =>
        rw [hres] at hout
        refine ⟨hout.1, fun hpath => hout.2 fun g hg => ?_⟩
        exact (hpath g hg).tail hdep
      | ok c₁ =>
        rw [hres] at hout
        obtain ⟨hexp, hblack, hacc⟩ := hout
        dsimp only
        have hout' := ih hrest (hexp.whites_le.trans hfuel)
        cases hres' : visitNeighbors dfs nodes c₁ with
        | error e =>
          rw [hres'] at hout'
          exact ⟨hout'.1, fun hpath => hout'.2 fun g hg => hpath g ((hexp.gray g).mp hg)⟩
        | ok c₂ =>
          rw [hres'] at hout'
          obtain ⟨hexp', hblack', hacc'⟩ := hout'
          refine ⟨hexp.trans hexp', fun y hy => ?_, fun h => hacc' (hacc h)⟩
          rcases List.mem_cons.mp hy with rfl | hy
          · exact hexp'.black y (hblack y List.mem_cons_self)
          · exact hblack' y hy
    -- An earlier call has explored the neighbour.
    | BLACK =>
      dsimp only
      have hout := ih hrest hfuel
      cases hres : visitNeighbors dfs nodes c with
      | error e =>
        rw [hres] at hout
        exact hout
      | ok c₁ =>
        rw [hres] at hout
        obtain ⟨hexp, hblack, hacc⟩ := hout
        refine ⟨hexp, fun y hy => ?_, hacc⟩
        rcases List.mem_cons.mp hy with rfl | hy
        · exact hexp.black y hx
        · exact hblack y hy

/-- A call of `dfs` on a white node explores it, when the bound on the recursion is above the number
of white nodes. -/
theorem dfs_outcome {fuel : ℕ} {x : String} (hx : x ∈ stepIds steps)
    (hwhite : colorOf c x = .WHITE) (hfuel : whites steps c ≤ fuel) :
    Outcome steps c x [x] (dfs (dependents steps) (fuel + 1) x c) := by
  -- Induction on the bound: the node turns grey, so its neighbours are explored with fewer white
  -- nodes.
  induction fuel generalizing x c with
  | zero =>
    have hlt := whites_set_lt hx hwhite (show Color.GRAY ≠ .WHITE by decide)
    omega
  | succ fuel ih =>
    have hgray := whites_set_lt hx hwhite (show Color.GRAY ≠ .WHITE by decide)
    have hout : Outcome steps (c.set x .GRAY) x ((dependents steps).getD x [])
        (visitNeighbors (dfs (dependents steps) (fuel + 1)) ((dependents steps).getD x [])
          (c.set x .GRAY)) :=
      visitNeighbors_outcome (fun y c' hy hc' hf => ih hy hc' hf)
        (fun y hy => mem_dependents.mp hy) (Nat.le_of_lt_succ (hgray.trans_le hfuel))
    unfold dfs
    cases hres : visitNeighbors (dfs (dependents steps) (fuel + 1))
        ((dependents steps).getD x []) (c.set x .GRAY) with
    | error e =>
      rw [hres] at hout
      -- The path of the neighbours is the path of the node, and the node itself.
      refine ⟨hout.1, fun hpath => hout.2 fun g hg => ?_⟩
      rw [colorOf_set] at hg
      split_ifs at hg with hgx
      · rw [hgx]
      · exact hpath g hg
    | ok c₁ =>
      rw [hres] at hout
      obtain ⟨hexp, hblack, hacc⟩ := hout
      refine ⟨⟨fun y => ?_, fun y hy => ?_⟩, by simp, fun h y hy => ?_⟩
      · rw [colorOf_set]
        split_ifs with hyx
        · rw [hyx, hwhite]
          simp
        · rw [hexp.gray, colorOf_set, if_neg hyx]
      · rw [colorOf_set]
        split_ifs with hyx
        · rfl
        · exact hexp.black y (by rw [colorOf_set, if_neg hyx]; exact hy)
      · have hacc₁ : BlackAcc steps c₁ := hacc fun z hz => by
          rw [colorOf_set] at hz
          split_ifs at hz
          exact h z hz
        rw [colorOf_set] at hy
        split_ifs at hy with hyx
        · subst hyx
          -- All dependents are black by now.
          exact Acc.intro y fun z hz => hacc₁ z (hblack z (mem_dependents.mpr hz))
        · exact hacc₁ y hy

/-- The loop over the steps blackens them all, or finds a cycle. -/
theorem visitSteps_cases {fuel : ℕ} {l : List WorkflowStep} (hl : l ⊆ steps)
    (hgray : ∀ x, colorOf c x ≠ .GRAY) (hacc : BlackAcc steps c) (hfuel : whites steps c ≤ fuel) :
    (∃ c', visitSteps (dependents steps) (fuel + 1) l c = .ok c' ∧ BlackAcc steps c' ∧
      (∀ x, colorOf c x = .BLACK → colorOf c' x = .BLACK) ∧
      ∀ s ∈ l, colorOf c' s.stepId = .BLACK) ∨
    (visitSteps (dependents steps) (fuel + 1) l c = .error .circularDependency ∧
      IsCyclic steps) := by
  induction l generalizing c with
  | nil => exact Or.inl ⟨c, rfl, hacc, fun _ => id, by simp⟩
  | cons s l ih =>
    have hs : s ∈ steps := hl List.mem_cons_self
    have hrest : l ⊆ steps := fun t ht => hl (List.mem_cons_of_mem s ht)
    unfold visitSteps
    have hcolor : c.getD s.stepId .WHITE = colorOf c s.stepId := rfl
    rw [hcolor]
    split_ifs with hwhite
    · have hout := dfs_outcome (List.mem_map.mpr ⟨s, hs, rfl⟩) hwhite hfuel
      cases hres : dfs (dependents steps) (fuel + 1) s.stepId c with
      | error e =>
        rw [hres] at hout
        obtain ⟨rfl, hcyclic⟩ := hout
        exact Or.inr ⟨rfl, hcyclic fun g hg => absurd hg (hgray g)⟩
      | ok c₁ =>
        rw [hres] at hout
        obtain ⟨hexp, hblack, hacc₁⟩ := hout
        rcases ih hrest (fun x hx => hgray x ((hexp.gray x).mp hx)) (hacc₁ hacc)
          (hexp.whites_le.trans hfuel) with ⟨c', hok, hacc', hmono, hall⟩ | ⟨herr, hcyclic⟩
        · refine Or.inl ⟨c', hok, hacc', fun x hx => hmono x (hexp.black x hx), fun t ht => ?_⟩
          rcases List.mem_cons.mp ht with rfl | ht
          · exact hmono _ (hblack _ List.mem_cons_self)
          · exact hall t ht
        · exact Or.inr ⟨herr, hcyclic⟩
    · have hblack : colorOf c s.stepId = .BLACK := by
        cases hc : colorOf c s.stepId with
        | WHITE => exact absurd hc hwhite
        | GRAY => exact absurd hc (hgray s.stepId)
        | BLACK => rfl
      rcases ih hrest hgray hacc hfuel with ⟨c', hok, hacc', hmono, hall⟩ | ⟨herr, hcyclic⟩
      · refine Or.inl ⟨c', hok, hacc', hmono, fun t ht => ?_⟩
        rcases List.mem_cons.mp ht with rfl | ht
        · exact hmono _ hblack
        · exact hall t ht
      · exact Or.inr ⟨herr, hcyclic⟩

/-- `_validate` accepts exactly the steps whose dependencies are known and acyclic. -/
theorem validate_cases (steps : List WorkflowStep) :
    (validate steps = .ok () ∧ ¬ HasUnknown steps ∧ Acyclic (DependsOn steps)) ∨
    (∃ e, validate steps = .error e ∧ e.IsValueError ∧ (HasUnknown steps ∨ IsCyclic steps)) := by
  unfold validate
  rcases checkReferences_cases steps with ⟨hok, hknown⟩ | ⟨s, d, herr, hunknown⟩
  · rw [hok]
    dsimp only
    have hinit : ∀ (l : List WorkflowStep) (c : Dict String Color),
        (∀ x, colorOf c x = .WHITE) →
        ∀ x, colorOf (l.foldl (fun color s => color.set s.stepId .WHITE) c) x = .WHITE := by
      intro l
      induction l with
      | nil => exact fun c hc => hc
      | cons s l ih =>
        refine fun c hc => ih _ fun x => ?_
        rw [colorOf_set, hc, ite_self]
    -- At first every node is white, so the number of steps bounds the recursion.
    have hwhite := hinit steps .empty fun _ => rfl
    have hfuel : whites steps (steps.foldl (fun color s => color.set s.stepId .WHITE) .empty) ≤
        steps.length := by
      refine (List.countP_le_length).trans ?_
      rw [stepIds, List.length_map]
    rcases visitSteps_cases (List.Subset.refl steps) (fun x hx => by rw [hwhite] at hx; cases hx)
      (fun x hx => by rw [hwhite] at hx; cases hx) hfuel with
      ⟨c', hok', hacc, -, hall⟩ | ⟨herr, hcyclic⟩
    · rw [hok']
      refine Or.inl ⟨rfl, hknown, acyclic_swap.mp (acyclic_of_acc fun x => Acc.intro x ?_)⟩
      intro y hy
      obtain ⟨s, hs, rfl⟩ := List.mem_map.mp (DependsOn.mem hy)
      exact hacc _ (hall s hs)
    · rw [herr]
      exact Or.inr ⟨_, rfl, trivial, Or.inr hcyclic⟩
  · rw [herr]
    exact Or.inr ⟨_, rfl, trivial, Or.inl hunknown⟩

end MeshRouter.Workflows.HierarchicalWorkflow
