import Mathlib.Data.Finset.Max
import Mathlib.Data.List.Cycle

/-!
# Simple cycles of a relation

A simple cycle of a relation `r` is a `Cycle` (a list up to rotation) of distinct elements along
which `r` holds. Over a linear order it has one representative that begins with its least element
(`exists_leastFirst`, `leastFirst_unique`).

A depth-first search from `start` finds these representatives: it extends a path by fresh elements
above `start`, and closes it where `r` leads back. `Closes` is what such a search derives from one
path, whatever the order in which it tries the extensions, and `closes_iff` says in closed form
which cycles these are. `closes_start_iff` is the case of a search that has just begun.
-/

namespace MeshRouter.Lib

variable {α : Type} [LinearOrder α]

/-- `a :: q` begins with its least element. -/
def LeastFirst (a : α) (q : List α) : Prop := ∀ b ∈ q, a < b

/-- A nonempty list of distinct elements can be rotated to begin with its least element. -/
theorem exists_leastFirst {p : List α} (hne : p ≠ []) (hnodup : p.Nodup) :
    ∃ a q, LeastFirst a q ∧ p ~r a :: q := by
  obtain ⟨a, ha, hmin⟩ :=
    p.toFinset.exists_min_image id ((List.toFinset_nonempty_iff p).mpr hne)
  obtain ⟨l, m, rfl⟩ := List.append_of_mem (List.mem_toFinset.mp ha)
  -- What comes before the least element goes behind what comes after it.
  refine ⟨a, m ++ l, fun b hb => ?_, List.isRotated_append⟩
  have hrot : (a :: (m ++ l)).Nodup := (List.isRotated_append (l := l)).nodup_iff.mp hnodup
  have hb' : b ∈ (l ++ a :: m).toFinset := by
    rcases List.mem_append.mp hb with hb | hb
    · simp [hb]
    · simp [hb]
  have hne : a ≠ b := fun heq => (List.nodup_cons.mp hrot).1 (heq ▸ hb)
  exact lt_of_le_of_ne (hmin b hb') hne

/-- Two rotations of each other that begin with their least elements are the same list. -/
theorem leastFirst_unique {a b : α} {q p : List α} (ha : LeastFirst a q) (hb : LeastFirst b p)
    (h : a :: q ~r b :: p) : a :: q = b :: p := by
  have hab : a = b := by
    rcases List.mem_cons.mp (h.mem_iff.mp List.mem_cons_self) with heq | hmem
    · exact heq
    · rcases List.mem_cons.mp (h.mem_iff.mpr List.mem_cons_self) with heq | hmem'
      · exact heq.symm
      · exact absurd (ha b hmem') (hb a hmem).asymm
  subst hab
  obtain ⟨n, hn, heq⟩ := List.isRotated_iff_mod.mp h
  rw [List.rotate_eq_drop_append_take hn] at heq
  -- A rotation that begins with `a` again begins where `a` is, and that is at the front only.
  cases hd : (a :: q).drop n with
  | nil =>
    rw [hd, List.nil_append] at heq
    rw [← heq, List.take_of_length_le (List.drop_eq_nil_iff.mp hd)]
  | cons c l =>
    rw [hd, List.cons_append] at heq
    obtain ⟨rfl, -⟩ := List.cons.inj heq
    cases n with
    | zero => rw [← heq, ← List.cons_append, ← hd]; simp
    | succ n =>
      have hmem : c ∈ q := List.mem_of_mem_drop (i := n) (by
        rw [List.drop_succ_cons] at hd
        rw [hd]
        exact List.mem_cons_self)
      exact absurd (ha c hmem) (lt_irrefl c)

section Search

variable (r : α → α → Prop) (bound : ℕ) (start : α)

/-- A search from `start` that stands at `current`, at the end of `path`, comes to the closed walk
`cycle` within the bound. -/
inductive Closes : α → List α → List α → Prop where
  | close {current : α} {path : List α} : path.length ≤ bound → 2 ≤ path.length →
      r current start → Closes current path (path ++ [start])
  | extend {current next : α} {path cycle : List α} : path.length ≤ bound → r current next →
      next ∉ path → start < next → Closes next (path ++ [next]) cycle → Closes current path cycle

variable {r bound start}

/-- What a search comes to from a path within the bound: the path closed, or what it comes to from
an extension. -/
theorem closes_iff_step {current : α} {path cycle : List α} (hbound : path.length ≤ bound) :
    Closes r bound start current path cycle ↔
      2 ≤ path.length ∧ r current start ∧ cycle = path ++ [start] ∨
      ∃ next, r current next ∧ next ∉ path ∧ start < next ∧
        Closes r bound start next (path ++ [next]) cycle := by
  constructor
  · intro h
    cases h with
    | close _ htwo hr => exact Or.inl ⟨htwo, hr, rfl⟩
    | extend _ hr hnext hlt h => exact Or.inr ⟨_, hr, hnext, hlt, h⟩
  · rintro (⟨htwo, hr, rfl⟩ | ⟨next, hr, hnext, hlt, h⟩)
    · exact .close hbound htwo hr
    · exact .extend hbound hr hnext hlt h

/-- A search drops a path that is too long. -/
theorem not_closes {current : α} {path cycle : List α} (hbound : bound < path.length) :
    ¬ Closes r bound start current path cycle := by
  intro h
  cases h with
  | close hle => omega
  | extend hle => omega

/-- The closed walks that a search comes to extend its path by distinct elements above `start` that
are not on it. -/
theorem closes_iff {current : α} {path cycle : List α} :
    Closes r bound start current path cycle ↔
      ∃ q, cycle = path ++ q ++ [start] ∧ List.IsChain r (current :: (q ++ [start])) ∧
        (path ++ q).length ≤ bound ∧ 2 ≤ (path ++ q).length ∧ q.Nodup ∧
        ∀ b ∈ q, b ∉ path ∧ start < b := by
  constructor
  · -- Induction on the derivation: each extension puts one element in front of what follows it.
    intro h
    induction h with
    | close hbound htwo hr =>
      exact ⟨[], by simp, by simpa using hr, by simpa using hbound, by simpa using htwo,
        List.nodup_nil, by simp⟩
    | @extend current next path cycle hbound hr hnext hlt _ ih =>
      obtain ⟨q, rfl, hchain, hlen, htwo, hnodup, hq⟩ := ih
      refine ⟨next :: q, by simp, ?_, by simpa using hlen, by simpa using htwo, ?_, ?_⟩
      · exact List.isChain_cons_cons.mpr ⟨hr, hchain⟩
      · refine List.nodup_cons.mpr ⟨fun hmem => ?_, hnodup⟩
        exact (hq next hmem).1 (by simp)
      · intro b hb
        rcases List.mem_cons.mp hb with rfl | hb
        · exact ⟨hnext, hlt⟩
        · exact ⟨fun hmem => (hq b hb).1 (List.mem_append_left _ hmem), (hq b hb).2⟩
  · rintro ⟨q, rfl, hchain, hlen, htwo, hnodup, hq⟩
    -- Induction on the extensions that are left, with the path grown by those before.
    induction q generalizing current path with
    | nil =>
      rw [List.append_nil] at hlen htwo ⊢
      exact .close hlen htwo (by simpa using hchain)
    | cons next q ih =>
      obtain ⟨hr, hchain⟩ := List.isChain_cons_cons.mp hchain
      obtain ⟨hfresh, hnodup⟩ := List.nodup_cons.mp hnodup
      have hnext := hq next List.mem_cons_self
      rw [List.append_cons] at hlen htwo
      rw [List.append_cons path next q]
      have hpath : path.length ≤ bound := by
        rw [List.length_append, List.length_append] at hlen
        omega
      refine .extend hpath hr hnext.1 hnext.2 (ih hchain hlen htwo hnodup fun b hb => ?_)
      refine ⟨fun hmem => ?_, (hq b (List.mem_cons_of_mem _ hb)).2⟩
      rcases List.mem_append.mp hmem with hmem | hmem
      · exact (hq b (List.mem_cons_of_mem _ hb)).1 hmem
      · obtain rfl := List.mem_singleton.mp hmem
        exact hfresh hb

/-- The closed walks that a search comes to from its start: those that leave the start by distinct
elements above it and come back to it, within the bound. -/
theorem closes_start_iff {cycle : List α} :
    Closes r bound start start [start] cycle ↔
      ∃ q, cycle = start :: q ++ [start] ∧ Cycle.Chain r ((start :: q : List α) : Cycle α) ∧
        q ≠ [] ∧ q.length + 1 ≤ bound ∧ q.Nodup ∧ LeastFirst start q := by
  rw [closes_iff]
  constructor
  · rintro ⟨q, rfl, hchain, hlen, htwo, hnodup, hq⟩
    refine ⟨q, rfl, hchain, ?_, by simpa using hlen, hnodup, fun b hb => (hq b hb).2⟩
    rintro rfl
    simp at htwo
  · rintro ⟨q, rfl, hchain, hne, hlen, hnodup, hq⟩
    have hpos := List.length_pos_iff.mpr hne
    refine ⟨q, rfl, hchain, by simpa using hlen, by simp; omega, hnodup, fun b hb => ?_⟩
    refine ⟨fun hmem => ?_, hq b hb⟩
    obtain rfl := List.mem_singleton.mp hmem
    exact absurd (hq b hb) (lt_irrefl b)

end Search

end MeshRouter.Lib
