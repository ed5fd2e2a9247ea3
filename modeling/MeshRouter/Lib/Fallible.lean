/-!
# Computations that can fail

A computation in `Except` with several parts returns when all its parts do, and fails with what the
first part that fails gives. These equivalences take such a computation apart. A division fails for
the divisor zero (`div?`).
-/

namespace MeshRouter.Lib

section Division

variable {𝕜 : Type} [Div 𝕜] [Zero 𝕜] [DecidableEq 𝕜]

/-- `x / y`, which fails for the divisor zero. -/
def div? (x y : 𝕜) : Option 𝕜 := if y = 0 then none else some (x / y)

theorem div?_of_ne {x y : 𝕜} (h : y ≠ 0) : div? x y = some (x / y) := if_neg h

end Division

variable {ε α β : Type} {x : Except ε α} {f : α → Except ε β}

theorem bind_eq_ok {b : β} : x >>= f = .ok b ↔ ∃ a, x = .ok a ∧ f a = .ok b := by
  cases x with
  | error e =>
    constructor
    · intro h
      cases h
    · rintro ⟨a, ha, -⟩
      cases ha
  | ok a =>
    constructor
    · exact fun h => ⟨a, rfl, h⟩
    · rintro ⟨_, ⟨⟩, h⟩
      exact h

theorem bind_eq_error {e : ε} :
    x >>= f = .error e ↔ x = .error e ∨ ∃ a, x = .ok a ∧ f a = .error e := by
  cases x with
  | error e' =>
    constructor
    · rintro ⟨⟩
      exact .inl rfl
    · rintro (⟨⟨⟩⟩ | ⟨a, ha, -⟩)
      · rfl
      · cases ha
  | ok a =>
    constructor
    · exact fun h => .inr ⟨a, rfl, h⟩
    · rintro (h | ⟨_, ⟨⟩, h⟩)
      · cases h
      · exact h

/-- A computation returns when its parts do. -/
theorem exists_bind_eq_ok_iff :
    (∃ b, x >>= f = .ok b) ↔ ∃ a, x = .ok a ∧ ∃ b, f a = .ok b := by
  simp only [bind_eq_ok]
  constructor
  · rintro ⟨b, a, hx, hf⟩
    exact ⟨a, hx, b, hf⟩
  · rintro ⟨a, hx, b, hf⟩
    exact ⟨b, a, hx, hf⟩

/-- Two parts of which the second alone uses the result of the first are one part. -/
theorem exists_ok_bind_iff {P : β → Prop} :
    (∃ a, x = .ok a ∧ ∃ b, f a = .ok b ∧ P b) ↔ ∃ b, x >>= f = .ok b ∧ P b := by
  constructor
  · rintro ⟨a, hx, b, hf, hP⟩
    exact ⟨b, bind_eq_ok.mpr ⟨a, hx, hf⟩, hP⟩
  · rintro ⟨b, hbind, hP⟩
    obtain ⟨a, hx, hf⟩ := bind_eq_ok.mp hbind
    exact ⟨a, hx, b, hf, hP⟩

section FirstFails

variable {ok bad : α → Prop} {l : List α}

/-- Some element of a list is bad, and all before it are good: where a computation that goes through
the list stops. -/
def FirstFails (ok bad : α → Prop) : List α → Prop
  | [] => False
  | a :: l => bad a ∨ ok a ∧ FirstFails ok bad l

/-- The list splits at the bad element. -/
theorem firstFails_iff :
    FirstFails ok bad l ↔
      ∃ before a after, l = before ++ a :: after ∧ (∀ b ∈ before, ok b) ∧ bad a := by
  induction l with
  | nil =>
    refine iff_of_false not_false ?_
    rintro ⟨before, a, after, heq, -⟩
    cases before <;> cases heq
  | cons a l ih =>
    unfold FirstFails
    rw [ih]
    constructor
    · rintro (hbad | ⟨hok, before, b, after, rfl, hbefore, hbad⟩)
      · exact ⟨[], a, l, rfl, fun _ hb => (List.not_mem_nil hb).elim, hbad⟩
      · exact ⟨a :: before, b, after, rfl, List.forall_mem_cons.mpr ⟨hok, hbefore⟩, hbad⟩
    · rintro ⟨_ | ⟨c, before⟩, b, after, heq, hbefore, hbad⟩
      · obtain ⟨rfl, -⟩ := List.cons.inj heq
        exact .inl hbad
      · obtain ⟨rfl, rfl⟩ := List.cons.inj heq
        obtain ⟨hok, hbefore⟩ := List.forall_mem_cons.mp hbefore
        exact .inr ⟨hok, before, b, after, rfl, hbefore, hbad⟩

end FirstFails

end MeshRouter.Lib
