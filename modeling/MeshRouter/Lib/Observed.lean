import MeshRouter.Lib.Runs

/-!
# What is observed along a run

A system that is given by a partial step function (`MeshRouter.Lib.Runs`), with an observer that
writes down what each step gives out: `out s a` is what is seen of the action `a` in the state `s`.
`observed` is all that is seen of a run, in its order. The observer is not part of the system, so
that a law about what is observed says how often and in which order a system does something, without
a history in its state.

`observed_induction` is the invariant rule for a relation between what has been observed and the
state.
-/

namespace MeshRouter.Lib

variable {σ ℓ ω : Type} {step : σ → ℓ → Option σ} {out : σ → ℓ → List ω}

/-- What is observed along the actions `as` from `s`, as far as each is possible in its turn. -/
def observed (step : σ → ℓ → Option σ) (out : σ → ℓ → List ω) : σ → List ℓ → List ω
  | _, [] => []
  | s, a :: as =>
    match step s a with
    | none => []
    | some t => out s a ++ observed step out t as

@[simp]
theorem observed_nil (s : σ) : observed step out s [] = [] := rfl

/-- What is observed of the first step comes first. -/
theorem observed_cons {s t : σ} {a : ℓ} {as : List ℓ} (h : step s a = some t) :
    observed step out s (a :: as) = out s a ++ observed step out t as := by
  simp only [observed, h]

/-- The invariant rule for what is observed: a relation between the past and the state that holds at
the start, and is kept by every step with what is observed of it, holds after every run. -/
theorem observed_induction {I : List ω → σ → Prop}
    (hstep : ∀ past s a t, I past s → step s a = some t → I (past ++ out s a) t)
    {s t : σ} {as : List ℓ} (hs : I [] s) (h : run step s as = some t) :
    I (observed step out s as) t := by
  -- Induction on the run, for any past that it starts with.
  have hfrom : ∀ (as : List ℓ) (past : List ω) (s : σ), I past s → run step s as = some t →
      I (past ++ observed step out s as) t := by
    intro as
    induction as with
    | nil =>
      intro past s hs h
      obtain rfl : s = t := by simpa using h
      rwa [observed_nil, List.append_nil]
    | cons a as ih =>
      intro past s hs h
      obtain ⟨u, hsu, hut⟩ := run_cons.mp h
      rw [observed_cons hsu, ← List.append_assoc]
      exact ih _ _ (hstep past s a u hs hsu) hut
  exact hfrom as [] s hs h

end MeshRouter.Lib
