import Mathlib.Data.Int.CardIntervalMod
import Mathlib.Data.List.Rotate

/-!
# Turns by rotation

A list without repetitions, rotated once more at every turn. Whoever is at the head has the turn. In
as many turns in a row as the list is long, each element has exactly one (`existsUnique_turn`), and
after any number of turns no element had two more than another (`turns_le_turns_add_one`).
-/

namespace MeshRouter.Lib

/-- A window of `n` numbers has one of each residue. -/
theorem existsUnique_modEq {n : ℕ} (hn : 0 < n) (j start : ℕ) :
    ∃! i, start ≤ i ∧ i < start + n ∧ i ≡ j [MOD n] := by
  have hlt : start % n < n := Nat.mod_lt _ hn
  obtain ⟨d, hd, hstart⟩ : ∃ d < n, start + d ≡ j [MOD n] := by
    refine ⟨(j + (n - start % n)) % n, Nat.mod_lt _ hn, ?_⟩
    calc start + (j + (n - start % n)) % n ≡ start % n + (j + (n - start % n)) [MOD n] :=
          (Nat.mod_modEq start n).symm.add (Nat.mod_modEq _ n)
      _ = j + n := by omega
      _ ≡ j [MOD n] := Nat.add_modEq_right
  refine ⟨start + d, ⟨Nat.le_add_right _ _, Nat.add_lt_add_left hd _, hstart⟩, ?_⟩
  rintro i ⟨hle, hend, hmod⟩
  obtain ⟨e, rfl⟩ := Nat.exists_eq_add_of_le hle
  have hsame : e ≡ d [MOD n] := Nat.ModEq.add_left_cancel' start (hmod.trans hstart.symm)
  rw [hsame.eq_of_lt_of_lt (by omega) hd]

/-- Up to any number, there are as many of each residue, or one more. -/
theorem count_modEq_window {n i j : ℕ} (hn : 0 < n) (hi : i < n) (hj : j < n) (start k : ℕ) :
    Nat.count (fun m => start + m ≡ i [MOD n]) k ≤
      Nat.count (fun m => start + m ≡ j [MOD n]) k + 1 := by
  have hi' := Nat.count_add (· ≡ i [MOD n]) start k
  have hj' := Nat.count_add (· ≡ j [MOD n]) start k
  rw [Nat.count_modEq_card _ hn, Nat.count_modEq_card _ hn, Nat.mod_eq_of_lt hi] at hi'
  rw [Nat.count_modEq_card _ hn, Nat.count_modEq_card _ hn, Nat.mod_eq_of_lt hj] at hj'
  split_ifs at hi' hj' <;> omega

section Turns

variable {α : Type} {l : List α} {a b : α}

/-- The head of a rotation. -/
theorem head?_rotate_eq_some_iff (hnodup : l.Nodup) {j : ℕ} (hj : j < l.length) (i : ℕ) :
    (l.rotate i).head? = some l[j] ↔ i ≡ j [MOD l.length] := by
  have hi : i % l.length < l.length := Nat.mod_lt _ (Nat.zero_lt_of_lt hj)
  have hmod : i ≡ j [MOD l.length] ↔ i % l.length = j := by
    rw [Nat.ModEq, Nat.mod_eq_of_lt hj]
  rw [← List.rotate_mod, List.head?_rotate hi, List.getElem?_eq_getElem hi, Option.some_inj,
    hnodup.getElem_inj_iff, hmod]

/-- In as many turns in a row as there are elements, each has exactly one. -/
theorem existsUnique_turn (hnodup : l.Nodup) (ha : a ∈ l) (start k : ℕ) :
    ∃! i, k ≤ i ∧ i < k + l.length ∧ (l.rotate (start + i)).head? = some a := by
  obtain ⟨j, hj, rfl⟩ := List.mem_iff_getElem.mp ha
  obtain ⟨i, ⟨hle, hend, hmod⟩, hunique⟩ :=
    existsUnique_modEq (Nat.zero_lt_of_lt hj) j (start + k)
  obtain ⟨m, rfl⟩ := Nat.exists_eq_add_of_le ((Nat.le_add_right start k).trans hle)
  refine ⟨m, ⟨by omega, by omega, (head?_rotate_eq_some_iff hnodup hj _).mpr hmod⟩, ?_⟩
  rintro i ⟨hle', hend', hturn⟩
  have heq := hunique (start + i)
    ⟨by omega, by omega, (head?_rotate_eq_some_iff hnodup hj _).mp hturn⟩
  omega

variable [DecidableEq α]

/-- After any number of turns, two elements had as many, or one had one more. -/
theorem turns_le_turns_add_one (hnodup : l.Nodup) (ha : a ∈ l) (hb : b ∈ l) (start k : ℕ) :
    Nat.count (fun i => (l.rotate (start + i)).head? = some a) k ≤
      Nat.count (fun i => (l.rotate (start + i)).head? = some b) k + 1 := by
  obtain ⟨i, hi, rfl⟩ := List.mem_iff_getElem.mp ha
  obtain ⟨j, hj, rfl⟩ := List.mem_iff_getElem.mp hb
  simp only [head?_rotate_eq_some_iff hnodup hi, head?_rotate_eq_some_iff hnodup hj]
  exact count_modEq_window (Nat.zero_lt_of_lt hi) hi hj start k

end Turns

end MeshRouter.Lib
