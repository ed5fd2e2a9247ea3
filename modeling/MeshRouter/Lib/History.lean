import Mathlib.Data.List.Basic
import Mathlib.Data.List.Induction
import Mathlib.Data.List.TakeWhile

/-!
# Questions about a history

A history is a list of events, oldest first. Two questions about it come back for every record that
a program keeps: whether something that was switched on has not been switched off since (`Since`),
and what has happened after the latest event of a kind (`LastAt`), where the kind may depend on the
events before. Both are stated by splitting the history, and both are answered one event at a time
(`since_concat`, `lastAt_concat`), which is how a program that keeps only the answer computes it.
The second is also asked about the latest event that says something, with what it says (`LatestOf`,
`latestOf_concat`).

A third is whether the last `n` events were all of a kind (`EndsWith`). A program answers it with a
counter that starts again at every other event (`streak`), and a counter that does not start again
(`countP`) gives the same answer only as long as nothing came in between (`streak_eq_countP_iff`).
-/

namespace MeshRouter.Lib

variable {ε : Type} {on off : ε → Prop} {P : List ε → ε → Prop} {h after after' : List ε} {e : ε}

/-- Some `on` event of the history is followed by no `off` event. -/
def Since (on off : ε → Prop) (h : List ε) : Prop :=
  ∃ before e after, h = before ++ e :: after ∧ on e ∧ ∀ x ∈ after, ¬ off x

/-- After the latest event that meets `P`, given the events before it, come the events `after`. -/
def LastAt (P : List ε → ε → Prop) (h after : List ε) : Prop :=
  ∃ before e, h = before ++ e :: after ∧ P before e ∧
    ∀ mid x rest, after = mid ++ x :: rest → ¬ P (before ++ e :: mid) x

/-- A history with a last event, split at some event: at the last one, or before it. -/
theorem concat_eq_append_cons {before : List ε} {x : ε} :
    h ++ [e] = before ++ x :: after ↔
      before = h ∧ x = e ∧ after = [] ∨
        ∃ rest, after = rest ++ [e] ∧ h = before ++ x :: rest := by
  constructor
  · intro heq
    rcases List.eq_nil_or_concat' after with rfl | ⟨rest, y, rfl⟩
    · obtain ⟨rfl, hx⟩ := List.append_inj' heq rfl
      exact .inl ⟨rfl, (List.cons.inj hx).1.symm, rfl⟩
    · rw [← List.cons_append, ← List.append_assoc] at heq
      obtain ⟨rfl, hy⟩ := List.append_inj' heq rfl
      exact .inr ⟨rest, by rw [(List.cons.inj hy).1], rfl⟩
  · rintro (⟨rfl, rfl, rfl⟩ | ⟨rest, rfl, rfl⟩)
    · rfl
    · rw [List.append_assoc, List.cons_append]

@[simp]
theorem not_since_nil : ¬ Since on off [] := by
  rintro ⟨before, e, after, heq, -⟩
  simp at heq

/-- One more event: it switches on, or leaves on what was. -/
theorem since_concat : Since on off (h ++ [e]) ↔ on e ∨ Since on off h ∧ ¬ off e := by
  constructor
  · rintro ⟨before, x, after, heq, hon, hoff⟩
    rcases concat_eq_append_cons.mp heq with ⟨rfl, rfl, rfl⟩ | ⟨rest, rfl, rfl⟩
    · exact .inl hon
    · exact .inr ⟨⟨before, x, rest, rfl, hon, fun y hy => hoff y (List.mem_append_left _ hy)⟩,
        hoff e (by simp)⟩
  · rintro (hon | ⟨⟨before, x, rest, rfl, hon, hoff⟩, hlast⟩)
    · exact ⟨h, e, [], rfl, hon, by simp⟩
    · refine ⟨before, x, rest ++ [e], by simp, hon, fun y hy => ?_⟩
      rcases List.mem_append.mp hy with hy | hy
      · exact hoff y hy
      · rwa [List.mem_singleton.mp hy]

@[simp]
theorem not_lastAt_nil : ¬ LastAt P [] after := by
  rintro ⟨before, e, heq, -⟩
  simp at heq

/-- One more event: it is the latest that meets `P`, or the latest stays where it was. -/
theorem lastAt_concat :
    LastAt P (h ++ [e]) after ↔
      P h e ∧ after = [] ∨ ¬ P h e ∧ ∃ rest, after = rest ++ [e] ∧ LastAt P h rest := by
  constructor
  · rintro ⟨before, x, heq, hx, hlater⟩
    rcases concat_eq_append_cons.mp heq with ⟨rfl, rfl, rfl⟩ | ⟨rest, rfl, rfl⟩
    · exact .inl ⟨hx, rfl⟩
    · refine .inr ⟨hlater rest e [] rfl, rest, rfl, before, x, rfl, hx, ?_⟩
      rintro mid y tail rfl
      exact hlater mid y (tail ++ [e]) (by simp)
  · rintro (⟨hP, rfl⟩ | ⟨hP, rest, rfl, before, x, rfl, hx, hlater⟩)
    · exact ⟨h, e, rfl, hP, by simp⟩
    · refine ⟨before, x, by simp, hx, fun mid y tail heq => ?_⟩
      rcases concat_eq_append_cons.mp heq with ⟨rfl, rfl, rfl⟩ | ⟨tail, rfl, rfl⟩
      · exact hP
      · exact hlater mid y tail rfl

/-- A history has one latest event that meets `P`. -/
theorem LastAt.unique (hafter : LastAt P h after) (hafter' : LastAt P h after') :
    after = after' := by
  induction h using List.reverseRecOn generalizing after after' with
  | nil => exact absurd hafter not_lastAt_nil
  | append_singleton h e ih =>
    rcases lastAt_concat.mp hafter with ⟨hP, rfl⟩ | ⟨hP, rest, rfl, hrest⟩
    · rcases lastAt_concat.mp hafter' with ⟨-, rfl⟩ | ⟨hP', -⟩
      · rfl
      · exact absurd hP hP'
    · rcases lastAt_concat.mp hafter' with ⟨hP', -⟩ | ⟨-, rest', rfl, hrest'⟩
      · exact absurd hP' hP
      · rw [ih hrest hrest']

/-! ## The latest value -/

section LatestOf

variable {β : Type} {f : List ε → ε → Option β} {value : β}

/-- The latest event that says something, given the events before it, says `value`, and the events
`after` have come since. -/
def LatestOf (f : List ε → ε → Option β) (h : List ε) (value : β) (after : List ε) : Prop :=
  ∃ before e, h = before ++ e :: after ∧ f before e = some value ∧
    ∀ mid x rest, after = mid ++ x :: rest → f (before ++ e :: mid) x = none

@[simp]
theorem not_latestOf_nil : ¬ LatestOf f [] value after := by
  rintro ⟨before, e, heq, -⟩
  simp at heq

/-- One more event: it says the latest value, or the latest value stays. -/
theorem latestOf_concat :
    LatestOf f (h ++ [e]) value after ↔
      f h e = some value ∧ after = [] ∨
        f h e = none ∧ ∃ rest, after = rest ++ [e] ∧ LatestOf f h value rest := by
  constructor
  · rintro ⟨before, x, heq, hx, hlater⟩
    rcases concat_eq_append_cons.mp heq with ⟨rfl, rfl, rfl⟩ | ⟨rest, rfl, rfl⟩
    · exact .inl ⟨hx, rfl⟩
    · refine .inr ⟨hlater rest e [] rfl, rest, rfl, before, x, rfl, hx, ?_⟩
      rintro mid y tail rfl
      exact hlater mid y (tail ++ [e]) (by simp)
  · rintro (⟨hvalue, rfl⟩ | ⟨hnone, rest, rfl, before, x, rfl, hx, hlater⟩)
    · exact ⟨h, e, rfl, hvalue, by simp⟩
    · refine ⟨before, x, by simp, hx, fun mid y tail heq => ?_⟩
      rcases concat_eq_append_cons.mp heq with ⟨rfl, rfl, rfl⟩ | ⟨tail, rfl, rfl⟩
      · exact hnone
      · exact hlater mid y tail rfl

end LatestOf

/-! ## Streaks -/

section Streak

variable {p : ε → Bool}

/-- The last `n` events of the history are all of the kind `p`. -/
def EndsWith (p : ε → Bool) (n : ℕ) (h : List ε) : Prop :=
  ∃ before last, h = before ++ last ∧ last.length = n ∧ ∀ x ∈ last, p x = true

/-- How many events of the kind `p` came in a row, up to the last event. -/
def streak (p : ε → Bool) (h : List ε) : ℕ := h.foldl (fun n x => if p x then n + 1 else 0) 0

@[simp]
theorem streak_nil (p : ε → Bool) : streak p [] = 0 := rfl

/-- One more event: it continues the streak, or ends it. -/
theorem streak_concat (p : ε → Bool) (h : List ε) (e : ε) :
    streak p (h ++ [e]) = if p e then streak p h + 1 else 0 := by
  unfold streak
  rw [List.foldl_append]
  rfl

/-- The last events are of the kind as far as the streak goes. -/
theorem endsWith_iff {n : ℕ} : EndsWith p n h ↔ n ≤ streak p h := by
  induction h using List.reverseRecOn generalizing n with
  | nil =>
    constructor
    · rintro ⟨before, last, heq, rfl, -⟩
      rw [(List.append_eq_nil_iff.mp heq.symm).2, List.length_nil]
      exact Nat.zero_le _
    · intro hn
      exact ⟨[], [], rfl, (Nat.le_zero.mp hn).symm, by simp⟩
  | append_singleton h e ih =>
    rw [streak_concat]
    constructor
    · rintro ⟨before, last, heq, rfl, hlast⟩
      rcases List.eq_nil_or_concat' last with rfl | ⟨rest, x, rfl⟩
      · exact Nat.zero_le _
      · rw [← List.append_assoc] at heq
        obtain ⟨hrest, hx⟩ := List.append_inj' heq rfl
        obtain rfl := (List.cons.inj hx).1
        have hends : EndsWith p rest.length h :=
          ⟨before, rest, hrest, rfl, fun y hy => hlast y (List.mem_append_left _ hy)⟩
        rw [if_pos (hlast e (by simp)), List.length_append]
        exact Nat.succ_le_succ (ih.mp hends)
    · intro hn
      rcases n with _ | n
      · exact ⟨h ++ [e], [], by simp, rfl, by simp⟩
      split_ifs at hn with he
      · obtain ⟨before, last, rfl, hlength, hlast⟩ := ih.mpr (Nat.le_of_succ_le_succ hn)
        refine ⟨before, last ++ [e], by simp, by simp [hlength], fun y hy => ?_⟩
        rcases List.mem_append.mp hy with hy | hy
        · exact hlast y hy
        · rwa [List.mem_singleton.mp hy]
      · exact absurd hn (Nat.not_succ_le_zero n)

/-- A streak starts after any event of another kind. -/
theorem streak_append_cons {before : List ε} (he : p e = false) :
    streak p (before ++ e :: after) = streak p after := by
  unfold streak
  rw [List.foldl_append, List.foldl_cons, he]
  rfl

/-- A streak gets no longer if some events of its kind are left out. -/
theorem streak_filter_le {q : ε → Bool} (hq : ∀ x ∈ h, q x = false → p x = true) :
    streak p (h.filter q) ≤ streak p h := by
  induction h using List.reverseRecOn with
  | nil => exact Nat.le_refl 0
  | append_singleton h e ih =>
    have hle := ih fun x hx => hq x (List.mem_append_left _ hx)
    rw [List.filter_append, streak_concat]
    cases hkept : q e with
    | true =>
      have hsingle : [e].filter q = [e] := List.filter_cons_of_pos hkept
      rw [hsingle, streak_concat]
      split_ifs
      · exact Nat.succ_le_succ hle
      · exact Nat.le_refl 0
    | false =>
      have hsingle : [e].filter q = [] := List.filter_cons_of_neg (by simp [hkept])
      rw [hsingle, List.append_nil, if_pos (hq e (by simp) hkept)]
      exact Nat.le_succ_of_le hle

/-- A streak is no longer than the number of all events of its kind. -/
theorem streak_le_countP (p : ε → Bool) (h : List ε) : streak p h ≤ h.countP p := by
  induction h using List.reverseRecOn with
  | nil => exact Nat.le_refl 0
  | append_singleton h e ih =>
    rw [streak_concat, List.countP_append, List.countP_singleton]
    split_ifs
    · exact Nat.succ_le_succ ih
    · exact Nat.zero_le _

/-- The streak has all events of its kind exactly if no other event came after the first of them. -/
theorem streak_eq_countP_iff :
    streak p h = h.countP p ↔ ∀ x ∈ h.dropWhile (fun x => !p x), p x = true := by
  induction h using List.reverseRecOn with
  | nil => simp
  | append_singleton h e ih =>
    rw [streak_concat, List.countP_append, List.countP_singleton]
    by_cases hnone : (h.dropWhile fun x => !p x) = []
    · -- No event of the kind has come before.
      have hcount : h.countP p = 0 := by
        rw [List.countP_eq_zero]
        intro x hx
        simpa using List.dropWhile_eq_nil_iff.mp hnone x hx
      have hstreak : streak p h = 0 := Nat.le_zero.mp (hcount ▸ streak_le_countP p h)
      rw [List.dropWhile_append, hnone, hcount, hstreak]
      by_cases he : p e = true
      · simp [he]
      · simp [he]
    · have hfirst : 0 < h.countP p := by
        rw [List.countP_pos_iff]
        by_contra hall
        push Not at hall
        refine hnone (List.dropWhile_eq_nil_iff.mpr fun x hx => ?_)
        simpa using hall x hx
      have happend : (h ++ [e]).dropWhile (fun x => !p x) = h.dropWhile (fun x => !p x) ++ [e] := by
        rw [List.dropWhile_append, if_neg (by simpa using hnone)]
      rw [happend]
      by_cases he : p e = true
      · simp [he, ih, or_imp, forall_and]
      · have hlast : ¬ ∀ x ∈ (h.dropWhile fun x => !p x) ++ [e], p x = true :=
          fun hall => he (hall e (by simp))
        rw [if_neg he, if_neg he]
        exact iff_of_false (by omega) hlast

end Streak

end MeshRouter.Lib
