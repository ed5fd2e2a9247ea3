import Mathlib.Data.List.Basic

/-!
# Runs of a partial step function

A system is given by a partial function `step : σ → ℓ → Option σ`: `step s a` is the state after
the action `a`, and `none` when `a` is not possible in `s`. The nondeterminism of the system is in
the choice of the actions, so a run is a list of actions, and `run step s as` computes its last
state. A statement about every list of actions is a statement about every run, and about every
state that a run passes through, since a prefix of a run is a run (`run_append`).

`run_induction` is the invariant rule. `run_induction_along` is the rule for runs whose steps all
meet a condition on the state before the step and the action, which `Along` states, and
`run_iff_along` says when a law holds exactly in these runs.
-/

namespace MeshRouter.Lib

variable {σ ℓ : Type} {step : σ → ℓ → Option σ}

/-- The state after the actions `as` from `s`, if each is possible in its turn. -/
def run (step : σ → ℓ → Option σ) : σ → List ℓ → Option σ
  | s, [] => some s
  | s, a :: as => (step s a).bind fun t => run step t as

/-- Every step that a run from `s` takes meets the condition `ok`. -/
def Along (step : σ → ℓ → Option σ) (ok : σ → ℓ → Prop) : σ → List ℓ → Prop
  | _, [] => True
  | s, a :: as => ok s a ∧ ∀ t, step s a = some t → Along step ok t as

/-- Whether a condition is met along a run can be computed. -/
instance decidableAlong {ok : σ → ℓ → Prop} [∀ s a, Decidable (ok s a)] :
    (s : σ) → (as : List ℓ) → Decidable (Along step ok s as)
  | _, [] => isTrue trivial
  | s, a :: as =>
    match h : step s a with
    | none => decidable_of_iff (ok s a) (by simp [Along, h])
    | some t =>
      have : Decidable (Along step ok t as) := decidableAlong t as
      decidable_of_iff (ok s a ∧ Along step ok t as) (by simp [Along, h])

@[simp]
theorem run_nil (s : σ) : run step s [] = some s := rfl

/-- A run of one more action takes that step first. -/
theorem run_cons {s u : σ} {a : ℓ} {as : List ℓ} :
    run step s (a :: as) = some u ↔ ∃ t, step s a = some t ∧ run step t as = some u := by
  simp [run, Option.bind_eq_some_iff]

/-- A run over two lists of actions passes through a middle state. -/
theorem run_append {s u : σ} {as bs : List ℓ} :
    run step s (as ++ bs) = some u ↔ ∃ t, run step s as = some t ∧ run step t bs = some u := by
  induction as generalizing s with
  | nil => simp
  | cons a as ih =>
    rw [List.cons_append, run_cons]
    constructor
    · rintro ⟨t, hst, htu⟩
      obtain ⟨v, htv, hvu⟩ := ih.mp htu
      exact ⟨v, run_cons.mpr ⟨t, hst, htv⟩, hvu⟩
    · rintro ⟨v, hsv, hvu⟩
      obtain ⟨t, hst, htv⟩ := run_cons.mp hsv
      exact ⟨t, hst, ih.mpr ⟨v, htv, hvu⟩⟩

/-- Two runs that meet compose. -/
theorem run_trans {s t u : σ} {as bs : List ℓ} (h : run step s as = some t)
    (h' : run step t bs = some u) : run step s (as ++ bs) = some u :=
  run_append.mpr ⟨t, h, h'⟩

/-- A run of one action is a step. -/
theorem run_singleton {s t : σ} {a : ℓ} (h : step s a = some t) : run step s [a] = some t :=
  run_cons.mpr ⟨t, h, rfl⟩

/-- The invariant rule for the runs whose steps meet a condition: what holds at the start and is
kept by every step that meets the condition holds after every such run. -/
theorem run_induction_along {ok : σ → ℓ → Prop} {I : σ → Prop}
    (hstep : ∀ s a t, I s → ok s a → step s a = some t → I t) {s t : σ} {as : List ℓ}
    (hs : I s) (hok : Along step ok s as) (h : run step s as = some t) : I t := by
  induction as generalizing s with
  | nil =>
    obtain rfl : s = t := by simpa using h
    exact hs
  -- The first step keeps what the rest of the run starts with.
  | cons a as ih =>
    obtain ⟨v, hsv, hvt⟩ := run_cons.mp h
    exact ih (hstep s a v hs hok.1 hsv) (hok.2 v hsv) hvt

/-- A condition is met along a run if its first step meets it and the rest does. -/
theorem along_cons_iff {ok : σ → ℓ → Prop} {s t : σ} {a : ℓ} {as : List ℓ}
    (h : step s a = some t) : Along step ok s (a :: as) ↔ ok s a ∧ Along step ok t as := by
  constructor
  · exact fun halong => ⟨halong.1, halong.2 t h⟩
  · rintro ⟨hok, hrest⟩
    refine ⟨hok, fun u hu => ?_⟩
    obtain rfl := Option.some.inj (h.symm.trans hu)
    exact hrest

/-- The rule for a law `L` that a step breaks exactly if it does not meet a condition: the law holds
at the end of a run exactly if it held at the start and every step of the run met the condition. The
invariant `I` may be used in each step. -/
theorem run_iff_along {ok : σ → ℓ → Prop} {I L : σ → Prop}
    (hstep : ∀ s a t, I s → step s a = some t → I t ∧ (L t ↔ L s ∧ ok s a))
    {s t : σ} {as : List ℓ} (hs : I s) (h : run step s as = some t) :
    L t ↔ L s ∧ Along step ok s as := by
  induction as generalizing s with
  | nil =>
    obtain rfl : s = t := by simpa using h
    exact (and_iff_left trivial).symm
  | cons a as ih =>
    obtain ⟨u, hsu, hut⟩ := run_cons.mp h
    obtain ⟨hu, hlaw⟩ := hstep s a u hs hsu
    rw [ih hu hut, hlaw, and_assoc, along_cons_iff hsu]

/-- A condition that always holds is met along every run. -/
theorem along_of_forall {ok : σ → ℓ → Prop} (h : ∀ s a, ok s a) (s : σ) (as : List ℓ) :
    Along step ok s as := by
  induction as generalizing s with
  | nil => trivial
  | cons a as ih => exact ⟨h s a, fun t _ => ih t⟩

/-- A condition on the actions alone is met along every run over actions that meet it. -/
theorem along_of_actions {p : ℓ → Prop} {as : List ℓ} (h : ∀ a ∈ as, p a) (s : σ) :
    Along step (fun _ a => p a) s as := by
  induction as generalizing s with
  | nil => trivial
  | cons a as ih =>
    exact ⟨h a List.mem_cons_self, fun t _ => ih (fun b hb => h b (List.mem_cons_of_mem a hb)) t⟩

/-- Along a run, a condition on the actions alone is met exactly if all its actions meet it. -/
theorem along_actions_iff {p : ℓ → Prop} {s t : σ} {as : List ℓ} (h : run step s as = some t) :
    Along step (fun _ a => p a) s as ↔ ∀ a ∈ as, p a := by
  induction as generalizing s with
  | nil => exact iff_of_true trivial fun a ha => by cases ha
  | cons a as ih =>
    obtain ⟨v, hsv, hvt⟩ := run_cons.mp h
    rw [along_cons_iff hsv, ih hvt, List.forall_mem_cons]

/-- A condition met along two runs that meet is met along both together. -/
theorem along_append {ok : σ → ℓ → Prop} {s t : σ} {as bs : List ℓ} (has : Along step ok s as)
    (h : run step s as = some t) (hbs : Along step ok t bs) : Along step ok s (as ++ bs) := by
  induction as generalizing s with
  | nil =>
    obtain rfl : s = t := by simpa using h
    exact hbs
  | cons a as ih =>
    obtain ⟨v, hsv, hvt⟩ := run_cons.mp h
    refine ⟨has.1, fun u hu => ?_⟩
    obtain rfl := Option.some.inj (hsv.symm.trans hu)
    exact ih (has.2 v hsv) hvt

/-- Two conditions met along a run are met together. -/
theorem along_and {p q : σ → ℓ → Prop} {s : σ} {as : List ℓ} (hp : Along step p s as)
    (hq : Along step q s as) : Along step (fun s a => p s a ∧ q s a) s as := by
  induction as generalizing s with
  | nil => trivial
  | cons a as ih => exact ⟨⟨hp.1, hq.1⟩, fun t ht => ih (hp.2 t ht) (hq.2 t ht)⟩

/-- Along a run that keeps an invariant, a condition can be replaced by one that it implies there.
-/
theorem along_of_invariant {ok ok' : σ → ℓ → Prop} {I : σ → Prop}
    (hstep : ∀ s a t, I s → ok s a → step s a = some t → I t) (himp : ∀ s a, I s → ok s a → ok' s a)
    {s : σ} {as : List ℓ} (hs : I s) (hok : Along step ok s as) : Along step ok' s as := by
  induction as generalizing s with
  | nil => trivial
  | cons a as ih =>
    exact ⟨himp s a hs hok.1, fun t ht => ih (hstep s a t hs hok.1 ht) (hok.2 t ht)⟩

/-- Along a run that keeps an invariant, conditions that are equivalent there are met together. -/
theorem along_iff_of_invariant {p q : σ → ℓ → Prop} {I : σ → Prop}
    (hstep : ∀ s a t, I s → step s a = some t → I t) (hiff : ∀ s a, I s → (p s a ↔ q s a))
    {s : σ} (hs : I s) (as : List ℓ) : Along step p s as ↔ Along step q s as :=
  ⟨along_of_invariant (fun s a t hI _ hst => hstep s a t hI hst)
      (fun s a hI => (hiff s a hI).mp) hs,
    along_of_invariant (fun s a t hI _ hst => hstep s a t hI hst) (fun s a hI => (hiff s a hI).mpr)
      hs⟩

/-- The invariant rule: what holds at the start and is kept by every step holds after every run. -/
theorem run_induction {I : σ → Prop} (hstep : ∀ s a t, I s → step s a = some t → I t)
    {s t : σ} {as : List ℓ} (hs : I s) (h : run step s as = some t) : I t := by
  have halong : Along step (fun _ _ => True) s as := along_of_forall (fun _ _ => trivial) s as
  exact run_induction_along (fun s a t hI _ hst => hstep s a t hI hst) hs halong h

end MeshRouter.Lib
