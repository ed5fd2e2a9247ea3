import Mathlib.Algebra.Ring.Nat
import Mathlib.Data.List.Nodup
import Mathlib.Data.List.Lemmas

/-!
# Insertion-ordered dictionaries

A dictionary keeps its entries in insertion order and holds each key once: the distinctness of the
keys is a field, so that no operation can build a dictionary with a repeated key. Setting a key
that is present replaces its value in place, and setting a new key appends it, so that iteration
follows the order of first insertion.

Every operation is described by its effect on lookup (`get?_set`, `get?_erase`, `get?_mapValues`)
and on the keys (`keys_set_of_mem`, `keys_set_of_notMem`, `keys_erase`). The proofs about programs
that use dictionaries rewrite with these and never open the entries.
-/

namespace MeshRouter.Lib

/-- A dictionary: entries in insertion order, with distinct keys. -/
structure Dict (κ ν : Type) where
  /-- The entries, in insertion order. -/
  entries : List (κ × ν)
  /-- Each key occurs once. -/
  nodup : (entries.map Prod.fst).Nodup
deriving DecidableEq

namespace Dict

variable {κ ν μ : Type}

/-- The dictionary without entries. -/
def empty : Dict κ ν := ⟨[], List.nodup_nil⟩

instance : Inhabited (Dict κ ν) := ⟨empty⟩

/-- The keys, in insertion order. -/
def keys (d : Dict κ ν) : List κ := d.entries.map Prod.fst

/-- The values, in insertion order of their keys. -/
def values (d : Dict κ ν) : List ν := d.entries.map Prod.snd

/-- The number of entries. -/
def size (d : Dict κ ν) : ℕ := d.entries.length

/-- The dictionary with `f` applied to every value. -/
def mapValues (f : ν → μ) (d : Dict κ ν) : Dict κ μ where
  entries := d.entries.map fun e => (e.1, f e.2)
  nodup := by simpa [List.map_map, Function.comp_def] using d.nodup

@[simp]
theorem keys_empty : (empty : Dict κ ν).keys = [] := rfl

@[simp]
theorem keys_mapValues (f : ν → μ) (d : Dict κ ν) : (d.mapValues f).keys = d.keys := by
  unfold keys mapValues
  simp [List.map_map, Function.comp_def]

theorem mapValues_congr {d : Dict κ ν} {f g : ν → μ} (h : ∀ v ∈ d.values, f v = g v) :
    d.mapValues f = d.mapValues g := by
  unfold mapValues
  congr 1
  exact List.map_congr_left fun entry hentry => by rw [h entry.2 (List.mem_map_of_mem hentry)]

section Lookup

variable [DecidableEq κ]

/-- The value at a key, if the key is present. -/
def get? (d : Dict κ ν) (k : κ) : Option ν :=
  (d.entries.find? fun e => e.1 = k).map Prod.snd

@[simp]
theorem get?_empty (k : κ) : (empty : Dict κ ν).get? k = none := rfl

/-- A lookup finds a value exactly when the pair is an entry: the keys are distinct. -/
theorem get?_eq_some_iff {d : Dict κ ν} {k : κ} {v : ν} :
    d.get? k = some v ↔ (k, v) ∈ d.entries := by
  obtain ⟨es, hes⟩ := d
  unfold get?
  dsimp only
  induction es with
  | nil => simp
  | cons e es ih =>
    obtain ⟨k', v'⟩ := e
    rw [List.map_cons, List.nodup_cons] at hes
    rw [List.find?_cons]
    by_cases h : k' = k
    · -- The key is found here, and by distinctness nowhere later.
      subst h
      have hlater : (k', v) ∉ es := fun hm => hes.1 (List.mem_map.mpr ⟨_, hm, rfl⟩)
      simp [hlater, eq_comm]
    · have hne : (k, v) ≠ (k', v') := fun he => h (Prod.mk.inj he).1.symm
      simpa [h, hne] using ih hes.2

/-- A key is present exactly when its lookup finds a value. -/
theorem mem_keys_iff {d : Dict κ ν} {k : κ} : k ∈ d.keys ↔ ∃ v, d.get? k = some v := by
  unfold keys
  simp only [List.mem_map, Prod.exists, get?_eq_some_iff]
  constructor
  · rintro ⟨k', v, hm, rfl⟩
    exact ⟨v, hm⟩
  · rintro ⟨v, hm⟩
    exact ⟨k, v, hm, rfl⟩

/-- A lookup that finds a value shows its key present. -/
theorem mem_keys_of_get? {d : Dict κ ν} {k : κ} {v : ν} (h : d.get? k = some v) : k ∈ d.keys :=
  mem_keys_iff.mpr ⟨v, h⟩

/-- A key is absent exactly when its lookup fails. -/
theorem get?_eq_none_iff {d : Dict κ ν} {k : κ} : d.get? k = none ↔ k ∉ d.keys := by
  rw [mem_keys_iff, Option.eq_none_iff_forall_not_mem]
  simp [Option.mem_def]

/-- Lookup in a dictionary whose values were mapped. -/
@[simp]
theorem get?_mapValues (f : ν → μ) (d : Dict κ ν) (k : κ) :
    (d.mapValues f).get? k = (d.get? k).map f := by
  unfold get? mapValues
  rw [List.find?_map, Option.map_map, Option.map_map]
  rfl

/-- The values are what the lookups find. -/
theorem mem_values_iff {d : Dict κ ν} {v : ν} : v ∈ d.values ↔ ∃ k, d.get? k = some v := by
  unfold values
  simp only [List.mem_map, Prod.exists, get?_eq_some_iff]
  constructor
  · rintro ⟨k, v', hm, rfl⟩
    exact ⟨k, hm⟩
  · rintro ⟨k, hm⟩
    exact ⟨k, v, hm, rfl⟩

/-! ## Setting a key -/

/-- The keys are unchanged when the value at one of them is replaced. -/
theorem map_fst_replace (es : List (κ × ν)) (k : κ) (v : ν) :
    (es.map fun e => if e.1 = k then (k, v) else e).map Prod.fst = es.map Prod.fst := by
  rw [List.map_map]
  refine List.map_congr_left fun e _ => ?_
  by_cases h : e.1 = k
  · simp [h]
  · simp [h]

/-- `d[k] = v`: the value at a present key is replaced in place, a new key is appended. -/
def set (d : Dict κ ν) (k : κ) (v : ν) : Dict κ ν :=
  if h : k ∈ d.keys then
    ⟨d.entries.map fun e => if e.1 = k then (k, v) else e, by
      rw [map_fst_replace]; exact d.nodup⟩
  else
    ⟨d.entries ++ [(k, v)], by
      rw [List.map_append, List.nodup_append']
      exact ⟨d.nodup, by simp, by simpa [keys] using h⟩⟩

/-- Setting a present key keeps the keys and their order. -/
theorem keys_set_of_mem {d : Dict κ ν} {k : κ} (h : k ∈ d.keys) (v : ν) :
    (d.set k v).keys = d.keys := by
  unfold set
  rw [dif_pos h]
  exact map_fst_replace _ _ _

/-- Setting a new key appends it to the keys. -/
theorem keys_set_of_notMem {d : Dict κ ν} {k : κ} (h : k ∉ d.keys) (v : ν) :
    (d.set k v).keys = d.keys ++ [k] := by
  unfold set
  rw [dif_neg h]
  simp [keys]

/-- The keys after setting `k` are `k` and the earlier keys. -/
theorem mem_keys_set {d : Dict κ ν} {j k : κ} {v : ν} :
    j ∈ (d.set k v).keys ↔ j = k ∨ j ∈ d.keys := by
  by_cases h : k ∈ d.keys
  · rw [keys_set_of_mem h]
    constructor
    · exact Or.inr
    · rintro (rfl | hj)
      · exact h
      · exact hj
  · rw [keys_set_of_notMem h, List.mem_append, List.mem_singleton, or_comm]

/-- Lookup after setting `k`: the new value at `k`, the old lookup elsewhere. -/
@[simp, grind =]
theorem get?_set (d : Dict κ ν) (k j : κ) (v : ν) :
    (d.set k v).get? j = if j = k then some v else d.get? j := by
  -- The entries at `j`, by whether `k` is present and whether `j` is `k`.
  have hentries : ∀ w, (j, w) ∈ (d.set k v).entries ↔
      (if j = k then w = v else (j, w) ∈ d.entries) := by
    intro w
    by_cases h : k ∈ d.keys
    · unfold set
      rw [dif_pos h]
      simp only [List.mem_map, Prod.exists]
      obtain ⟨v₀, hv₀⟩ := mem_keys_iff.mp h
      rw [get?_eq_some_iff] at hv₀
      split_ifs with hjk
      · subst hjk
        constructor
        · rintro ⟨a, b, hm, he⟩
          split_ifs at he with ha
          · exact (Prod.mk.inj he).2.symm
          · exact absurd (Prod.mk.inj he).1 ha
        · rintro rfl
          exact ⟨j, v₀, hv₀, by simp⟩
      · constructor
        · rintro ⟨a, b, hm, he⟩
          split_ifs at he with ha
          · exact absurd (Prod.mk.inj he).1.symm hjk
          · rwa [he] at hm
        · intro hm
          exact ⟨j, w, hm, by simp [hjk]⟩
    · unfold set
      rw [dif_neg h]
      simp only [List.mem_append, List.mem_singleton, Prod.mk.injEq]
      split_ifs with hjk
      · subst hjk
        have : (j, w) ∉ d.entries := fun hm => h (List.mem_map.mpr ⟨_, hm, rfl⟩)
        simp [this]
      · simp [hjk]
  -- Two lookups with the same entries at `j` agree.
  split_ifs with hjk
  · rw [get?_eq_some_iff, hentries, if_pos hjk]
  · refine Option.ext fun w => ?_
    rw [get?_eq_some_iff, get?_eq_some_iff, hentries, if_neg hjk]

/-- The value of one key is replaced by a function of it. -/
theorem get?_set_of_get? {d : Dict κ ν} {k : κ} {v : ν} (h : d.get? k = some v) (f : ν → ν)
    (j : κ) : (d.set k (f v)).get? j = if k = j then (d.get? j).map f else d.get? j := by
  rw [get?_set]
  by_cases hj : k = j
  · rw [if_pos hj.symm, if_pos hj, ← hj, h, Option.map_some]
  · rw [if_neg (Ne.symm hj), if_neg hj]

/-- Setting a key to the value that it has changes nothing. -/
theorem set_of_get? {d : Dict κ ν} {k : κ} {v : ν} (h : d.get? k = some v) : d.set k v = d := by
  have hentries : (d.entries.map fun e => if e.1 = k then (k, v) else e) = d.entries := by
    refine (List.map_congr_left fun e he => ?_).trans (List.map_id d.entries)
    split_ifs with hk
    · subst hk
      have hvalue := get?_eq_some_iff.mpr (show (e.1, e.2) ∈ d.entries from he)
      rw [Option.some.inj (h.symm.trans hvalue)]
      rfl
    · rfl
  unfold set
  rw [dif_pos (mem_keys_of_get? h)]
  obtain ⟨entries, hnodup⟩ := d
  congr

/-- The entries when the value at a present key is replaced. -/
theorem entries_set_of_mem {d : Dict κ ν} {k : κ} (h : k ∈ d.keys) (v : ν) :
    (d.set k v).entries = d.entries.map fun e => if e.1 = k then (k, v) else e := by
  rw [set, dif_pos h]

/-- The entries with a new one. -/
theorem entries_set_of_notMem {d : Dict κ ν} {k : κ} (h : k ∉ d.keys) (v : ν) :
    (d.set k v).entries = d.entries ++ [(k, v)] := by
  rw [set, dif_neg h]

/-- The values when the one at a present key is replaced. -/
theorem values_set_of_mem {d : Dict κ ν} {k : κ} (h : k ∈ d.keys) (v : ν) :
    (d.set k v).values = d.entries.map fun e => if e.1 = k then v else e.2 := by
  rw [values, entries_set_of_mem h, List.map_map]
  refine List.map_congr_left fun e _ => ?_
  by_cases he : e.1 = k
  · simp [he]
  · simp [he]

/-- The values with a new one. -/
theorem values_set_of_notMem {d : Dict κ ν} {k : κ} (h : k ∉ d.keys) (v : ν) :
    (d.set k v).values = d.values ++ [v] := by
  rw [values, entries_set_of_notMem h, List.map_append]
  rfl

/-- Of two values that are set at a key, the second stays. -/
theorem set_set (d : Dict κ ν) (k : κ) (v w : ν) : (d.set k v).set k w = d.set k w := by
  have hmem : k ∈ (d.set k v).keys := mem_keys_set.mpr (.inl rfl)
  have hentries : ((d.set k v).set k w).entries = (d.set k w).entries := by
    by_cases h : k ∈ d.keys
    · rw [entries_set_of_mem hmem, entries_set_of_mem h, entries_set_of_mem h, List.map_map]
      refine List.map_congr_left fun e _ => ?_
      by_cases he : e.1 = k
      · simp [he]
      · simp [he]
    · have habsent : ∀ e ∈ d.entries, e.1 ≠ k := fun e he heq => h (heq ▸ List.mem_map_of_mem he)
      rw [entries_set_of_mem hmem, entries_set_of_notMem h, entries_set_of_notMem h,
        List.map_append, List.map_congr_left fun e he => if_neg (habsent e he), List.map_id']
      simp
  generalize (d.set k v).set k w = d₁ at hentries
  generalize d.set k w = d₂ at hentries
  cases d₁
  cases d₂
  congr

/-! ## Removing a key -/

/-- `d.pop(k, None)`: the entries with another key. -/
def erase (d : Dict κ ν) (k : κ) : Dict κ ν where
  entries := d.entries.filter fun e => e.1 ≠ k
  nodup := d.nodup.sublist (List.filter_sublist.map _)

/-- Removing a key removes it from the keys and keeps the order of the others. -/
theorem keys_erase (d : Dict κ ν) (k : κ) : (d.erase k).keys = d.keys.filter (· ≠ k) := by
  unfold keys erase
  rw [List.filter_map]
  rfl

/-- Setting a key in two dictionaries with the same keys. -/
theorem keys_set_congr {d : Dict κ ν} {e : Dict κ μ} (h : d.keys = e.keys) (k : κ) (v : ν)
    (w : μ) : (d.set k v).keys = (e.set k w).keys := by
  by_cases hmem : k ∈ d.keys
  · rw [keys_set_of_mem hmem, keys_set_of_mem (h ▸ hmem), h]
  · rw [keys_set_of_notMem hmem, keys_set_of_notMem (h ▸ hmem), h]

theorem keys_erase_congr {d : Dict κ ν} {e : Dict κ μ} (h : d.keys = e.keys) (k : κ) :
    (d.erase k).keys = (e.erase k).keys := by
  rw [keys_erase, keys_erase, h]

/-- Lookup after removing `k`. -/
@[simp, grind =]
theorem get?_erase (d : Dict κ ν) (k j : κ) :
    (d.erase k).get? j = if j = k then none else d.get? j := by
  split_ifs with hjk
  · rw [get?_eq_none_iff, keys_erase]
    simp [hjk]
  · refine Option.ext fun w => ?_
    rw [get?_eq_some_iff, get?_eq_some_iff]
    unfold erase
    simp [hjk]

/-! ## What holds of every entry -/

/-- Every entry satisfies `P`. -/
def All (P : κ → ν → Prop) (d : Dict κ ν) : Prop := ∀ k v, d.get? k = some v → P k v

variable {P : κ → ν → Prop}

theorem all_empty : (empty : Dict κ ν).All P := by
  intro k v h
  cases h

/-- Setting a key to a value that satisfies it. -/
theorem All.set {d : Dict κ ν} (h : d.All P) {k : κ} {v : ν} (hv : P k v) : (d.set k v).All P := by
  intro j w hget
  rw [get?_set] at hget
  split_ifs at hget with hkey
  · exact hkey ▸ Option.some.inj hget ▸ hv
  · exact h j w hget

theorem All.erase {d : Dict κ ν} (h : d.All P) (k : κ) : (d.erase k).All P := by
  intro j w hget
  rw [get?_erase] at hget
  split_ifs at hget
  exact h j w hget

theorem All.mapValues {d : Dict κ ν} (h : d.All P) {Q : κ → μ → Prop} {f : ν → μ}
    (hf : ∀ k v, P k v → Q k (f v)) : (d.mapValues f).All Q := by
  intro k w hget
  rw [get?_mapValues] at hget
  obtain ⟨v, hv, rfl⟩ := Option.map_eq_some_iff.mp hget
  exact hf k v (h k v hv)

/-- Dictionaries with the same keys in the same order are equal if the lookups are. -/
theorem eq_of_get? {d e : Dict κ ν} (hkeys : d.keys = e.keys) (hget : ∀ k, d.get? k = e.get? k) :
    d = e := by
  have hlength : d.entries.length = e.entries.length := by
    simpa only [keys, List.length_map] using congrArg List.length hkeys
  have hentries : d.entries = e.entries := by
    refine List.ext_getElem hlength fun i hd he => ?_
    have hfst : d.entries[i].1 = e.entries[i].1 := by
      have hi := List.getElem_of_eq hkeys (i := i) (by rwa [keys, List.length_map])
      simpa only [keys, List.getElem_map] using hi
    have hd' : d.get? d.entries[i].1 = some d.entries[i].2 :=
      get?_eq_some_iff.mpr (List.getElem_mem hd)
    have he' : e.get? e.entries[i].1 = some e.entries[i].2 :=
      get?_eq_some_iff.mpr (List.getElem_mem he)
    rw [hfst, hget, he'] at hd'
    exact Prod.ext hfst (Option.some.inj hd').symm
  cases d
  cases e
  congr

/-! ## Lookup with a default, and sums over the values -/

/-- The value at a key, or the default: reading a `defaultdict`. -/
def getD (d : Dict κ ν) (k : κ) (default : ν) : ν := (d.get? k).getD default

@[simp]
theorem getD_empty (k : κ) (default : ν) : (empty : Dict κ ν).getD k default = default := rfl

@[simp]
theorem getD_set (d : Dict κ ν) (k j : κ) (v default : ν) :
    (d.set k v).getD j default = if j = k then v else d.getD j default := by
  unfold getD
  rw [get?_set]
  split_ifs
  · rfl
  · rfl

/-- A sum over the values changes by what is set. An absent key counts as zero. -/
theorem sum_values_set (f : ν → ℕ) (d : Dict κ ν) (k : κ) (v : ν) :
    ((d.set k v).values.map f).sum + ((d.get? k).map f).getD 0 = (d.values.map f).sum + f v := by
  cases hget : d.get? k with
  | none =>
    have hk : k ∉ d.keys := get?_eq_none_iff.mp hget
    unfold set values
    rw [dif_neg hk]
    simp
  | some w =>
    have hk : k ∈ d.keys := mem_keys_of_get? hget
    rw [get?_eq_some_iff] at hget
    unfold set values
    rw [dif_pos hk]
    obtain ⟨es, hes⟩ := d
    dsimp only at hget ⊢
    clear hk
    induction es with
    | nil => cases hget
    | cons e es ih =>
      obtain ⟨hfresh, hes⟩ := List.nodup_cons.mp hes
      rcases List.mem_cons.mp hget with rfl | hget
      · -- The key is replaced here, and by distinctness nowhere later.
        have hlater : (es.map fun e => if e.1 = k then (k, v) else e) = es := by
          refine (List.map_congr_left fun e he => if_neg fun heq => hfresh ?_).trans
            (List.map_id es)
          exact List.mem_map.mpr ⟨e, he, heq⟩
        rw [List.map_cons, hlater]
        simp
        omega
      · have hne : e.1 ≠ k := fun heq => hfresh (heq ▸ List.mem_map.mpr ⟨_, hget, rfl⟩)
        have hsum := ih hes hget
        rw [List.map_cons, if_neg hne]
        simp only [List.map_cons, List.sum_cons] at hsum ⊢
        omega

/-! ## Setting many keys -/

section SetAll

variable {α : Type} {key : α → κ} {value : α → ν}

/-- `d[key(a)] = value(a)`, for each `a` in turn. -/
def setAll (key : α → κ) (value : α → ν) (l : List α) (d : Dict κ ν) : Dict κ ν :=
  l.foldl (fun d a => d.set (key a) (value a)) d

theorem setAll_append (l l' : List α) (d : Dict κ ν) :
    setAll key value (l ++ l') d = setAll key value l' (setAll key value l d) :=
  List.foldl_append

/-- Every value of the resulting dictionary was set or was there before. -/
theorem eq_or_get?_of_setAll {l : List α} {d : Dict κ ν} {k : κ} {v : ν}
    (h : (setAll key value l d).get? k = some v) :
    (∃ a ∈ l, key a = k ∧ value a = v) ∨ d.get? k = some v := by
  induction l generalizing d with
  | nil => exact .inr h
  | cons a l ih =>
    rcases ih h with ⟨b, hb, hkey⟩ | hset
    · exact .inl ⟨b, List.mem_cons_of_mem a hb, hkey⟩
    · rw [get?_set] at hset
      split_ifs at hset with hk
      · exact .inl ⟨a, List.mem_cons_self, hk.symm, Option.some.inj hset⟩
      · exact .inr hset

/-- The keys after setting many are those and the earlier keys. -/
theorem mem_keys_setAll {l : List α} {d : Dict κ ν} {k : κ} :
    k ∈ (setAll key value l d).keys ↔ k ∈ l.map key ∨ k ∈ d.keys := by
  unfold setAll
  induction l generalizing d with
  | nil => simp
  | cons a l ih =>
    rw [List.foldl_cons, ih, mem_keys_set, List.map_cons, List.mem_cons]
    tauto

/-- The values at other keys stay as they are. -/
theorem get?_setAll_of_notMem {l : List α} {d : Dict κ ν} {k : κ} (hk : k ∉ l.map key) :
    (setAll key value l d).get? k = d.get? k := by
  unfold setAll
  induction l generalizing d with
  | nil => rfl
  | cons a l ih =>
    obtain ⟨hne, hk⟩ := not_or.mp (List.mem_cons.not.mp hk)
    rw [List.foldl_cons, ih hk, get?_set, if_neg hne]

/-- Each of the keys has its value, if they are distinct. -/
theorem get?_setAll_of_mem {l : List α} {d : Dict κ ν} (hnodup : (l.map key).Nodup) {a : α}
    (ha : a ∈ l) : (setAll key value l d).get? (key a) = some (value a) := by
  induction l generalizing d with
  | nil => cases ha
  | cons b l ih =>
    obtain ⟨hfresh, hnodup⟩ := List.nodup_cons.mp hnodup
    rcases List.mem_cons.mp ha with rfl | ha
    · have hrest : setAll key value (a :: l) d = setAll key value l (d.set (key a) (value a)) := rfl
      rw [hrest, get?_setAll_of_notMem hfresh, get?_set, if_pos rfl]
    · exact ih hnodup ha

/-- New keys are appended in turn. -/
theorem entries_setAll {l : List α} {d : Dict κ ν} (hnodup : (d.keys ++ l.map key).Nodup) :
    (setAll key value l d).entries = d.entries ++ l.map fun a => (key a, value a) := by
  induction l generalizing d with
  | nil => exact (List.append_nil _).symm
  | cons a l ih =>
    have hfresh : key a ∉ d.keys := fun hmem =>
      (List.nodup_append.mp hnodup).2.2 (key a) hmem (key a) List.mem_cons_self rfl
    have hset : (d.set (key a) (value a)).entries = d.entries ++ [(key a, value a)] := by
      unfold set
      rw [dif_neg hfresh]
    have hkeys : ((d.set (key a) (value a)).keys ++ l.map key).Nodup := by
      rw [keys_set_of_notMem hfresh, List.append_assoc]
      exact hnodup
    have hrest : setAll key value (a :: l) d = setAll key value l (d.set (key a) (value a)) := rfl
    rw [hrest, ih hkeys, hset, List.append_assoc]
    rfl

end SetAll

/-- `dict(entries)`: the entries are set in turn. -/
def ofList (entries : List (κ × ν)) : Dict κ ν := setAll Prod.fst Prod.snd entries empty

/-- The latest entry with a key counts: what is set after a dictionary was there comes first. -/
theorem get?_setAll {α : Type} {key : α → κ} {value : α → ν} (l : List α) (d : Dict κ ν) (k : κ) :
    (setAll key value l d).get? k = ((setAll key value l empty).get? k).or (d.get? k) := by
  unfold setAll
  induction l generalizing d with
  | nil => rfl
  | cons a l ih =>
    rw [List.foldl_cons, List.foldl_cons, ih, ih (empty.set (key a) (value a)), get?_set, get?_set,
      Option.or_assoc]
    split_ifs
    · rfl
    · rfl

/-- The first of the entries counts for its key if no later entry has the key. -/
theorem get?_ofList_cons (k : κ) (v : ν) (entries : List (κ × ν)) (j : κ) :
    (ofList ((k, v) :: entries)).get? j =
      ((ofList entries).get? j).or (if k = j then some v else none) := by
  have hset : ofList ((k, v) :: entries) = setAll Prod.fst Prod.snd entries (empty.set k v) := rfl
  rw [hset, get?_setAll, get?_set]
  simp only [eq_comm (a := j), get?_empty]
  rfl

/-- A dictionary is built from its entries. -/
@[simp]
theorem ofList_entries (d : Dict κ ν) : ofList d.entries = d := by
  have hentries : (ofList d.entries).entries = d.entries := by
    unfold ofList
    rw [entries_setAll (by simpa [keys, empty] using d.nodup)]
    simp [empty]
  obtain ⟨entries, hnodup⟩ := d
  cases hd : ofList entries with
  | mk entries' hnodup' =>
    rw [hd] at hentries
    dsimp only at hentries
    subst hentries
    rfl

/-! ## Merging -/

/-- `d.update(e)`: the entries of `e` are set in turn. -/
def update (d e : Dict κ ν) : Dict κ ν :=
  e.entries.foldl (fun d p => d.set p.1 p.2) d

end Lookup

end Dict

end MeshRouter.Lib
