import Mathlib.Algebra.BigOperators.Group.List.Basic
import Mathlib.Algebra.Order.Monoid.Defs
import Mathlib.Data.List.Induction
import Mathlib.Data.List.MinMax
import MeshRouter.Lib.Dict

/-!
# Tallies

A tally adds up weights by key, `d[key(a)] += weight(a)` for each `a` in turn: a counter, if the
weights are one. What it holds at a key is the sum of the weights there (`getD_tally`), whatever the
order of the elements (`get?_tally_of_perm`), and all that it holds is the sum of all weights
(`sum_values_tally`).

A key leads if it has the greatest value, and is the least key that has (`Leads`). One key leads a
dictionary that is not empty, and a program finds it in three steps: the greatest value, the keys
that have it, and the least of these (`leads_iff`). A key that leads still leads when its value is
raised (`Leads.set`), as it is by one more element with that key (`Leads.tally_concat`).
-/

namespace MeshRouter.Lib.Dict

variable {α κ M : Type}

section Tally

variable [DecidableEq κ] [AddCommMonoid M]

/-- `d[key(a)] += weight(a)`, for each `a` in turn. -/
def tally (key : α → κ) (weight : α → M) (l : List α) : Dict κ M :=
  l.foldl (fun d a => d.set (key a) (d.getD (key a) 0 + weight a)) empty

variable {key : α → κ} {weight : α → M} {l : List α} {k : κ}

/-- One more element adds its weight. -/
theorem tally_concat (key : α → κ) (weight : α → M) (l : List α) (a : α) :
    tally key weight (l ++ [a]) =
      (tally key weight l).set (key a) ((tally key weight l).getD (key a) 0 + weight a) := by
  unfold tally
  rw [List.foldl_append]
  rfl

/-- The keys are those of the elements. -/
theorem mem_keys_tally (weight : α → M) :
    k ∈ (tally key weight l).keys ↔ ∃ a ∈ l, key a = k := by
  induction l using List.reverseRecOn with
  | nil => simp [tally]
  | append_singleton l a ih =>
    rw [tally_concat, mem_keys_set, ih]
    simp only [List.mem_append, List.mem_singleton]
    constructor
    · rintro (rfl | ⟨b, hb, rfl⟩)
      · exact ⟨a, .inr rfl, rfl⟩
      · exact ⟨b, .inl hb, rfl⟩
    · rintro ⟨b, hb | rfl, rfl⟩
      · exact .inr ⟨b, hb, rfl⟩
      · exact .inl rfl

/-- A key has the sum of the weights of its elements. -/
theorem getD_tally (key : α → κ) (weight : α → M) (l : List α) (k : κ) :
    (tally key weight l).getD k 0 = ((l.filter fun a => key a = k).map weight).sum := by
  induction l using List.reverseRecOn with
  | nil => rfl
  | append_singleton l a ih =>
    rw [tally_concat, getD_set, List.filter_append]
    by_cases hk : k = key a
    · subst hk
      simp [ih]
    · simp [ih, hk, Ne.symm hk]

/-- Lookup in a tally. -/
theorem get?_tally_eq_some_iff {v : M} :
    (tally key weight l).get? k = some v ↔
      (∃ a ∈ l, key a = k) ∧ (tally key weight l).getD k 0 = v := by
  rw [← mem_keys_tally weight, mem_keys_iff]
  constructor
  · intro hget
    exact ⟨⟨v, hget⟩, by simp [getD, hget]⟩
  · rintro ⟨⟨u, hget⟩, hv⟩
    rw [← hv, hget]
    simp [getD, hget]

/-- The elements can be taken in any order. -/
theorem get?_tally_of_perm {l' : List α} (h : l.Perm l') (k : κ) :
    (tally key weight l).get? k = (tally key weight l').get? k := by
  refine Option.ext fun v => ?_
  have hmem : (∃ a ∈ l, key a = k) ↔ ∃ a ∈ l', key a = k := by
    simp only [h.mem_iff]
  have hsum : (tally key weight l).getD k 0 = (tally key weight l').getD k 0 := by
    rw [getD_tally, getD_tally]
    exact ((h.filter _).map weight).sum_eq
  rw [get?_tally_eq_some_iff, get?_tally_eq_some_iff, hmem, hsum]

/-- What is added at a key is added to the sum of the values. -/
theorem sum_values_set_add (d : Dict κ M) (k : κ) (x : M) :
    (d.set k (d.getD k 0 + x)).values.sum = d.values.sum + x := by
  by_cases hk : k ∈ d.keys
  · obtain ⟨w, hw⟩ := mem_keys_iff.mp hk
    have hvalue : d.getD k 0 = w := by simp [getD, hw]
    obtain ⟨before, after, hentries⟩ := List.append_of_mem (get?_eq_some_iff.mp hw)
    have hnodup := d.nodup
    rw [hentries, List.map_append, List.map_cons, List.nodup_middle, List.nodup_cons,
      List.mem_append, not_or] at hnodup
    obtain ⟨⟨hbefore, hafter⟩, -⟩ := hnodup
    -- The key is nowhere else.
    have hother : ∀ es : List (κ × M), k ∉ es.map Prod.fst →
        es.map (fun e => if e.1 = k then w + x else e.2) = es.map Prod.snd := by
      intro es hes
      refine List.map_congr_left fun e he => if_neg fun heq : e.1 = k => hes ?_
      exact heq ▸ List.mem_map_of_mem he
    rw [hvalue, values_set_of_mem hk, values, hentries, List.map_append, List.map_cons, if_pos rfl,
      hother _ hbefore, hother _ hafter, List.map_append, List.map_cons, List.sum_append,
      List.sum_cons, List.sum_append, List.sum_cons, add_right_comm w, ← add_assoc]
  · have hvalue : d.getD k 0 = 0 := by simp [getD, get?_eq_none_iff.mpr hk]
    rw [values_set_of_notMem hk, hvalue, zero_add, List.sum_append, List.sum_singleton]

/-- The values add up to the sum of the weights. -/
theorem sum_values_tally (key : α → κ) (weight : α → M) (l : List α) :
    (tally key weight l).values.sum = (l.map weight).sum := by
  induction l using List.reverseRecOn with
  | nil => rfl
  | append_singleton l a ih =>
    rw [tally_concat, sum_values_set_add, ih, List.map_append, List.sum_append, List.map_singleton,
      List.sum_singleton]

/-- A tally by one is a counter. -/
theorem getD_tally_one (key : α → κ) (l : List α) (k : κ) :
    (tally key (fun _ => (1 : ℕ)) l).getD k 0 = (l.filter fun a => key a = k).length := by
  rw [getD_tally, List.map_const', List.sum_replicate_nat, Nat.mul_one]

/-- Where all elements weigh the same, the weights are a multiple of the counts. -/
theorem get?_tally_of_const {c : M} (h : ∀ a ∈ l, weight a = c) (k : κ) :
    (tally key weight l).get? k =
      ((tally key (fun _ => (1 : ℕ)) l).mapValues fun n => n • c).get? k := by
  refine Option.ext fun v => ?_
  have hsum : (tally key weight l).getD k 0 = (l.filter fun a => key a = k).length • c := by
    have hmap : (l.filter fun a => key a = k).map weight =
        (l.filter fun a => key a = k).map fun _ => c :=
      List.map_congr_left fun a ha => h a (List.mem_of_mem_filter ha)
    rw [getD_tally, hmap, List.map_const', List.sum_replicate]
  rw [get?_tally_eq_some_iff, get?_mapValues, Option.map_eq_some_iff, hsum, ← getD_tally_one]
  simp only [get?_tally_eq_some_iff]
  constructor
  · rintro ⟨hkey, hv⟩
    exact ⟨_, ⟨hkey, rfl⟩, hv⟩
  · rintro ⟨n, ⟨hkey, rfl⟩, hv⟩
    exact ⟨hkey, hv⟩

end Tally

section Leads

variable [LinearOrder κ] [LinearOrder M] {d : Dict κ M} {k j : κ} {v u : M}

/-- The key `k` has the greatest value `v`, and no lesser key has. -/
def Leads (d : Dict κ M) (k : κ) (v : M) : Prop :=
  d.get? k = some v ∧ ∀ j u, d.get? j = some u → u < v ∨ u = v ∧ k ≤ j

/-- One key leads. -/
theorem Leads.unique (h : d.Leads k v) (h' : d.Leads j u) : k = j ∧ v = u := by
  rcases h.2 j u h'.1 with hlt | ⟨rfl, hle⟩
  · rcases h'.2 k v h.1 with hlt' | ⟨rfl, -⟩
    · exact absurd hlt hlt'.asymm
    · exact absurd hlt (lt_irrefl _)
  · rcases h'.2 k u h.1 with hlt | ⟨-, hle'⟩
    · exact absurd hlt (lt_irrefl _)
    · exact ⟨le_antisymm hle hle', rfl⟩

/-- It is by the lookups that a key leads. -/
theorem Leads.congr {e : Dict κ M} (h : d.Leads k v) (hget : ∀ j, d.get? j = e.get? j) :
    e.Leads k v := by
  unfold Leads at h ⊢
  simpa only [hget] using h

/-- A key that leads still leads with a greater value. -/
theorem Leads.set (h : d.Leads k v) (hle : v ≤ u) : (d.set k u).Leads k u := by
  refine ⟨by rw [get?_set, if_pos rfl], fun j w hj => ?_⟩
  rw [get?_set] at hj
  split_ifs at hj with hkey
  · exact .inr ⟨(Option.some.inj hj).symm, hkey.symm.le⟩
  · rcases h.2 j w hj with hlt | ⟨rfl, hkj⟩
    · exact .inl (hlt.trans_le hle)
    · exact hle.lt_or_eq.imp_right fun heq => ⟨heq, hkj⟩

/-- A value above all others makes its key lead. -/
theorem leads_set_of_lt (h : ∀ j u, d.get? j = some u → u < v) : (d.set k v).Leads k v := by
  refine ⟨by rw [get?_set, if_pos rfl], fun j u hj => ?_⟩
  rw [get?_set] at hj
  split_ifs at hj with hkey
  · exact .inr ⟨(Option.some.inj hj).symm, hkey.symm.le⟩
  · exact .inl (h j u hj)

/-- The same key leads by other values in the same order. -/
theorem Leads.mapValues {N : Type} [LinearOrder N] (h : d.Leads k v) {f : M → N}
    (hf : StrictMono f) : (d.mapValues f).Leads k (f v) := by
  refine ⟨by rw [get?_mapValues, h.1, Option.map_some], fun j u hj => ?_⟩
  rw [get?_mapValues] at hj
  obtain ⟨w, hw, rfl⟩ := Option.map_eq_some_iff.mp hj
  exact (h.2 j w hw).imp (fun hlt => hf hlt) fun heq => ⟨congrArg f heq.1, heq.2⟩

/-- The keys that have a value. -/
def keysOf (d : Dict κ M) (v : M) : List κ := (d.entries.filter fun e => e.2 = v).map Prod.fst

theorem mem_keysOf : k ∈ d.keysOf v ↔ d.get? k = some v := by
  unfold keysOf
  simp only [List.mem_map, List.mem_filter, decide_eq_true_eq, Prod.exists, get?_eq_some_iff]
  constructor
  · rintro ⟨k, w, ⟨hmem, rfl⟩, rfl⟩
    exact hmem
  · intro hmem
    exact ⟨k, v, ⟨hmem, rfl⟩, rfl⟩

/-- The leading key is the least that has the greatest value. -/
theorem leads_iff : d.Leads k v ↔ d.values.max? = some v ∧ (d.keysOf v).min? = some k := by
  rw [List.max?_eq_some_iff, List.min?_eq_some_iff, mem_keysOf]
  simp only [mem_values_iff, mem_keysOf]
  constructor
  · rintro ⟨hget, hlead⟩
    refine ⟨⟨⟨k, hget⟩, ?_⟩, hget, ?_⟩
    · rintro u ⟨j, hj⟩
      rcases hlead j u hj with hlt | ⟨rfl, -⟩
      · exact hlt.le
      · exact le_refl u
    · intro j hj
      rcases hlead j v hj with hlt | ⟨-, hle⟩
      · exact absurd hlt (lt_irrefl v)
      · exact hle
  · rintro ⟨⟨-, hmax⟩, hget, hmin⟩
    refine ⟨hget, fun j u hj => ?_⟩
    rcases (hmax u ⟨j, hj⟩).lt_or_eq with hlt | rfl
    · exact .inl hlt
    · exact .inr ⟨rfl, hmin j hj⟩

/-- Some key leads a dictionary that is not empty. -/
theorem exists_leads (h : d.get? k = some v) : ∃ j u, d.Leads j u := by
  have hmax : d.values.max?.isSome := List.isSome_max?_of_mem (mem_values_iff.mpr ⟨k, h⟩)
  obtain ⟨u, hu⟩ := Option.isSome_iff_exists.mp hmax
  obtain ⟨i, hi⟩ := mem_values_iff.mp (List.max?_eq_some_iff.mp hu).1
  have hmin : (d.keysOf u).min?.isSome := List.isSome_min?_of_mem (mem_keysOf.mpr hi)
  obtain ⟨j, hj⟩ := Option.isSome_iff_exists.mp hmin
  exact ⟨j, u, leads_iff.mpr ⟨hu, hj⟩⟩

end Leads

/-- One more element with the leading key, and a weight that is not negative. -/
theorem Leads.tally_concat [LinearOrder κ] [AddCommMonoid M] [LinearOrder M] [IsOrderedAddMonoid M]
    {key : α → κ} {weight : α → M} {l : List α} {a : α} {v : M}
    (h : (tally key weight l).Leads (key a) v) (ha : 0 ≤ weight a) :
    (tally key weight (l ++ [a])).Leads (key a) (v + weight a) := by
  have hvalue : (tally key weight l).getD (key a) 0 = v := by simp [getD, h.1]
  rw [Dict.tally_concat, hvalue]
  exact h.set (le_add_of_nonneg_right ha)

end MeshRouter.Lib.Dict
