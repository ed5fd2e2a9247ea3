import Mathlib.Algebra.Group.Defs
import Mathlib.Data.Set.Basic

/-!
# Actions with footprints

An action runs on a store, which is read through lookups, and fails or leaves a store and an output.
It has a footprint if what it does depends only on what the store holds under the keys that it
reads, and it changes the store only under the keys that it writes (`HasFootprint`). Footprints are
those of the parts where actions run one after the other, where one of two is selected, and where
only the output is changed.

Two actions are independent if neither writes what the other reads or writes. They can then change
places (`andThen_swap`), and so can all actions of a list in which every two are independent: the
runs of two permutations both fail, or leave the same under every key and the same total output
(`runAll_perm`).
-/

namespace MeshRouter.Lib

variable {S κ ν O : Type} {look : S → κ → ν}

/-- Two stores hold the same under some keys. -/
def AgreeOn (look : S → κ → ν) (keys : Set κ) (s t : S) : Prop :=
  ∀ k ∈ keys, look s k = look t k

theorem AgreeOn.mono {keys keys' : Set κ} {s t : S} (h : AgreeOn look keys s t)
    (hsub : keys' ⊆ keys) : AgreeOn look keys' s t :=
  fun k hk => h k (hsub hk)

/-- Two stores `s` and `t` have changed to `s'` and `t'` in the same way: under every key there is
the same now, or in both what there was. -/
def ChangedAlike (look : S → κ → ν) (s s' t t' : S) : Prop :=
  ∀ k, look s' k = look t' k ∨ look s' k = look s k ∧ look t' k = look t k

/-- Where there was the same, there still is. -/
theorem ChangedAlike.agree {s s' t t' : S} {keys : Set κ} (h : ChangedAlike look s s' t t')
    (hagree : AgreeOn look keys s t) : AgreeOn look keys s' t' := by
  intro k hk
  obtain hsame | ⟨hs, ht⟩ := h k
  · exact hsame
  · rw [hs, ht, hagree k hk]

theorem ChangedAlike.trans {s s' s'' t t' t'' : S} (h : ChangedAlike look s s' t t')
    (h' : ChangedAlike look s' s'' t' t'') : ChangedAlike look s s'' t t'' := by
  intro k
  obtain hsame' | ⟨hs', ht'⟩ := h' k
  · exact .inl hsame'
  · rw [hs', ht']
    exact h k

/-- The keys that an action reads, and those that it writes. -/
structure HasFootprint (look : S → κ → ν) (reads writes : Set κ) (f : S → Option (S × O)) :
    Prop where
  /-- What is not written stays. -/
  frame : ∀ {s s' o}, f s = some (s', o) → ∀ k ∉ writes, look s' k = look s k
  /-- From stores that agree on what is read, the action does the same. -/
  alike : ∀ {s t}, AgreeOn look reads s t →
    (f s = none ∧ f t = none) ∨
      ∃ s' t' o, f s = some (s', o) ∧ f t = some (t', o) ∧ ChangedAlike look s s' t t'

/-- A larger footprint is one too. -/
theorem HasFootprint.mono {reads writes reads' writes' : Set κ} {f : S → Option (S × O)}
    (h : HasFootprint look reads writes f) (hreads : reads ⊆ reads') (hwrites : writes ⊆ writes') :
    HasFootprint look reads' writes' f where
  frame hrun k hk := h.frame hrun k fun hmem => hk (hwrites hmem)
  alike hagree := h.alike (hagree.mono hreads)

/-- What is made of the output leaves the footprint. -/
theorem HasFootprint.mapOutput {reads writes : Set κ} {f : S → Option (S × O)} {P : Type}
    (h : HasFootprint look reads writes f) (φ : O → P) :
    HasFootprint look reads writes fun s => (f s).map fun result => (result.1, φ result.2) where
  frame {s s' p} hrun k hk := by
    obtain ⟨⟨s₁, o⟩, hf, hmade⟩ := Option.map_eq_some_iff.mp hrun
    obtain ⟨rfl, -⟩ := Prod.mk.inj hmade
    exact h.frame hf k hk
  alike {s t} hagree := by
    obtain ⟨hs, ht⟩ | ⟨s', t', o, hs, ht, hchanged⟩ := h.alike hagree
    · exact .inl ⟨by rw [hs]; rfl, by rw [ht]; rfl⟩
    · exact .inr ⟨s', t', φ o, by rw [hs]; rfl, by rw [ht]; rfl, hchanged⟩

/-- An action that is selected by what is read has the footprint of those that can be selected. -/
theorem HasFootprint.select {ι : Type} {reads writes : Set κ} {f : ι → S → Option (S × O)}
    {choice : S → ι} (h : ∀ s, HasFootprint look reads writes (f (choice s)))
    (hchoice : ∀ s t, AgreeOn look reads s t → choice s = choice t) :
    HasFootprint look reads writes fun s => f (choice s) s where
  frame {s s' o} hrun k hk := (h s).frame hrun k hk
  alike {s t} hagree := by
    rw [← hchoice s t hagree]
    exact (h s).alike hagree

section Sequences

variable [AddMonoid O]

/-- Two actions one after the other, with the sum of their outputs. -/
def andThen (f g : S → Option (S × O)) (s : S) : Option (S × O) :=
  (f s).bind fun first => (g first.1).map fun second => (second.1, first.2 + second.2)

/-- The actions of a list one after the other. -/
def runAll : List (S → Option (S × O)) → S → Option (S × O)
  | [], s => some (s, 0)
  | f :: fs, s => andThen f (runAll fs) s

theorem andThen_eq_some {f g : S → Option (S × O)} {s s' s'' : S} {o o' : O}
    (hf : f s = some (s', o)) (hg : g s' = some (s'', o')) :
    andThen f g s = some (s'', o + o') := by
  unfold andThen
  rw [hf, Option.bind_some, hg]
  rfl

theorem andThen_eq_none {f g : S → Option (S × O)} {s s' : S} {o : O} (hf : f s = some (s', o))
    (hg : g s' = none) : andThen f g s = none := by
  unfold andThen
  rw [hf, Option.bind_some, hg]
  rfl

theorem andThen_eq_none_of_first {f : S → Option (S × O)} {s : S} (hf : f s = none)
    (g : S → Option (S × O)) : andThen f g s = none := by
  unfold andThen
  rw [hf]
  rfl

theorem andThen_assoc (f g h : S → Option (S × O)) (s : S) :
    andThen (andThen f g) h s = andThen f (andThen g h) s := by
  cases hf : f s with
  | none =>
    rw [andThen_eq_none_of_first hf]
    exact andThen_eq_none_of_first (andThen_eq_none_of_first hf g) h
  | some first =>
    cases hg : g first.1 with
    | none =>
      rw [andThen_eq_none hf (andThen_eq_none_of_first hg h)]
      exact andThen_eq_none_of_first (andThen_eq_none hf hg) h
    | some second =>
      have hfg := andThen_eq_some hf hg
      cases hh : h second.1 with
      | none => rw [andThen_eq_none hfg hh, andThen_eq_none hf (andThen_eq_none hg hh)]
      | some third =>
        rw [andThen_eq_some hfg hh, andThen_eq_some hf (andThen_eq_some hg hh), add_assoc]

/-- The footprint of two actions one after the other. -/
theorem HasFootprint.andThen {reads writes : Set κ} {f g : S → Option (S × O)}
    (hf : HasFootprint look reads writes f) (hg : HasFootprint look reads writes g) :
    HasFootprint look reads writes (andThen f g) where
  frame {s s'' o} hrun k hk := by
    obtain ⟨⟨s', o₁⟩, hfirst, hrest⟩ := Option.bind_eq_some_iff.mp hrun
    obtain ⟨⟨s₂, o₂⟩, hsecond, hmade⟩ := Option.map_eq_some_iff.mp hrest
    obtain ⟨rfl, -⟩ := Prod.mk.inj hmade
    rw [hg.frame hsecond k hk, hf.frame hfirst k hk]
  alike {s t} hagree := by
    obtain ⟨hs, ht⟩ | ⟨s', t', o, hs, ht, hchanged⟩ := hf.alike hagree
    · exact .inl ⟨andThen_eq_none_of_first hs g, andThen_eq_none_of_first ht g⟩
    · obtain ⟨hs', ht'⟩ | ⟨s'', t'', o', hs', ht', hchanged'⟩ := hg.alike (hchanged.agree hagree)
      · exact .inl ⟨andThen_eq_none hs hs', andThen_eq_none ht ht'⟩
      · exact .inr ⟨s'', t'', o + o', andThen_eq_some hs hs', andThen_eq_some ht ht',
          hchanged.trans hchanged'⟩

/-- A list of actions has the footprint that each of them has. -/
theorem HasFootprint.runAll {reads writes : Set κ} {fs : List (S → Option (S × O))}
    (h : ∀ f ∈ fs, HasFootprint look reads writes f) :
    HasFootprint look reads writes (runAll fs) := by
  induction fs with
  | nil =>
    refine ⟨fun {s s' o} hrun k _ => ?_, fun {s t} _ => .inr ⟨s, t, 0, rfl, rfl, fun k => ?_⟩⟩
    · obtain ⟨rfl, -⟩ := Prod.mk.inj (Option.some.inj hrun)
      rfl
    · exact .inr ⟨rfl, rfl⟩
  | cons f fs ih =>
    obtain ⟨hf, hfs⟩ := List.forall_mem_cons.mp h
    exact hf.andThen (ih hfs)

end Sequences

/-! ## Independent actions -/

/-- An action with its footprint. -/
structure Action (look : S → κ → ν) (O : Type) where
  run : S → Option (S × O)
  reads : Set κ
  writes : Set κ
  footprint : HasFootprint look reads writes run

/-- Neither action writes what the other one reads or writes. -/
structure Independent (a b : Action look O) : Prop where
  writes : ∀ k ∈ a.writes, k ∉ b.writes
  left : ∀ k ∈ a.writes, k ∉ b.reads
  right : ∀ k ∈ b.writes, k ∉ a.reads

theorem Independent.symm {a b : Action look O} (h : Independent a b) : Independent b a :=
  ⟨fun k hb ha => h.writes k ha hb, h.right, h.left⟩

/-- Two runs both fail, or leave the same under every key and give the same output. -/
def Same (look : S → κ → ν) (x y : Option (S × O)) : Prop :=
  (x = none ∧ y = none) ∨
    ∃ s t o, x = some (s, o) ∧ y = some (t, o) ∧ ∀ k, look s k = look t k

theorem Same.trans {x y z : Option (S × O)} (hxy : Same look x y) (hyz : Same look y z) :
    Same look x z := by
  obtain ⟨hx, rfl⟩ | ⟨s, t, o, hx, rfl, hst⟩ := hxy
  · obtain ⟨-, hz⟩ | ⟨_, _, _, hnone, -⟩ := hyz
    · exact .inl ⟨hx, hz⟩
    · cases hnone
  · obtain ⟨hnone, -⟩ | ⟨t', u, o', hy, hz, htu⟩ := hyz
    · cases hnone
    · obtain ⟨rfl, rfl⟩ := Prod.mk.inj (Option.some.inj hy)
      exact .inr ⟨s, u, o, hx, hz, fun k => (hst k).trans (htu k)⟩

/-- From stores that hold the same, an action does the same. -/
theorem HasFootprint.same {reads writes : Set κ} {f : S → Option (S × O)}
    (h : HasFootprint look reads writes f) {s t : S} (hst : ∀ k, look s k = look t k) :
    Same look (f s) (f t) := by
  obtain hnone | ⟨s', t', o, hs, ht, hchanged⟩ := h.alike fun k _ => hst k
  · exact .inl hnone
  · exact .inr ⟨s', t', o, hs, ht, fun k => hchanged.agree (fun k _ => hst k) k (Set.mem_univ k)⟩

/-- What is made of the output keeps runs the same. -/
theorem Same.mapOutput {x y : Option (S × O)} {P : Type} (h : Same look x y) (φ : O → P) :
    Same look (x.map fun result => (result.1, φ result.2))
      (y.map fun result => (result.1, φ result.2)) := by
  obtain ⟨rfl, rfl⟩ | ⟨s, t, o, rfl, rfl, hst⟩ := h
  · exact .inl ⟨rfl, rfl⟩
  · exact .inr ⟨s, t, φ o, rfl, rfl, hst⟩

/-- What an action leaves does the same to an independent one as what there was. -/
theorem Independent.agree {a b : Action look O} (h : Independent a b) {s s' : S} {o : O}
    (hrun : a.run s = some (s', o)) : AgreeOn look b.reads s' s := by
  intro k hk
  exact a.footprint.frame hrun k fun hmem => h.left k hmem hk

section Permutations

variable [AddCommMonoid O]

/-- Independent actions that run one after the other can change places. -/
theorem andThen_swap {a b : Action look O} (h : Independent a b) (s : S) :
    Same look (andThen a.run b.run s) (andThen b.run a.run s) := by
  cases ha : a.run s with
  | none =>
    rw [andThen_eq_none_of_first ha]
    cases hb : b.run s with
    | none => exact .inl ⟨rfl, andThen_eq_none_of_first hb a.run⟩
    | some result =>
      -- The first action fails after the second one too.
      obtain ⟨t, o⟩ := result
      obtain ⟨ht, -⟩ | ⟨_, _, _, -, hs, -⟩ := a.footprint.alike (h.symm.agree hb)
      · exact .inl ⟨rfl, andThen_eq_none hb ht⟩
      · cases ha.symm.trans hs
  | some result =>
    obtain ⟨s₁, o₁⟩ := result
    obtain ⟨hb₁, hb⟩ | ⟨s₁₂, s₂, o₂, hb₁, hb, hchanged⟩ := b.footprint.alike (h.agree ha)
    · rw [andThen_eq_none ha hb₁, andThen_eq_none_of_first hb]
      exact .inl ⟨rfl, rfl⟩
    · obtain ⟨-, hnone⟩ | ⟨s₂₁, s₁', o₁', ha₂, ha', hchanged'⟩ :=
        a.footprint.alike (h.symm.agree hb)
      · cases ha.symm.trans hnone
      · obtain ⟨rfl, rfl⟩ := Prod.mk.inj (Option.some.inj (ha.symm.trans ha'))
        refine .inr ⟨s₁₂, s₂₁, o₁ + o₂, andThen_eq_some ha hb₁, ?_, fun k => ?_⟩
        · rw [andThen_eq_some hb ha₂, add_comm]
        · by_cases hk : k ∈ a.writes
          · -- The second action keeps what the first one writes.
            have hkb : k ∉ b.writes := h.writes k hk
            rw [b.footprint.frame hb₁ k hkb]
            obtain hsame | ⟨h₂₁, h₁⟩ := hchanged' k
            · exact hsame.symm
            · rw [h₁, h₂₁, b.footprint.frame hb k hkb]
          · rw [a.footprint.frame ha₂ k hk]
            obtain hsame | ⟨h₁₂, h₂⟩ := hchanged k
            · exact hsame
            · rw [h₁₂, h₂, a.footprint.frame ha k hk]

/-- What is the same after two runs is the same after what goes on with them. -/
theorem Same.andThen {f g h h' : S → Option (S × O)} {s t : S} (hfg : Same look (f s) (g t))
    (hrest : ∀ s' t', (∀ k, look s' k = look t' k) → Same look (h s') (h' t')) :
    Same look (andThen f h s) (andThen g h' t) := by
  obtain ⟨hf, hg⟩ | ⟨s', t', o, hf, hg, hst'⟩ := hfg
  · exact .inl ⟨andThen_eq_none_of_first hf h, andThen_eq_none_of_first hg h'⟩
  · obtain ⟨hh, hh'⟩ | ⟨s'', t'', o', hh, hh', hst''⟩ := hrest s' t' hst'
    · exact .inl ⟨andThen_eq_none hf hh, andThen_eq_none hg hh'⟩
    · exact .inr ⟨s'', t'', o + o', andThen_eq_some hf hh, andThen_eq_some hg hh', hst''⟩

/-- From stores that hold the same, the actions of a list do the same. -/
theorem same_runAll (as : List (Action look O)) {s t : S} (hst : ∀ k, look s k = look t k) :
    Same look (runAll (as.map Action.run) s) (runAll (as.map Action.run) t) := by
  induction as generalizing s t with
  | nil => exact .inr ⟨s, t, 0, rfl, rfl, hst⟩
  | cons a as ih => exact (a.footprint.same hst).andThen fun s' t' hst' => ih hst'

/-- The runs of two permutations of a list, in which every two actions are independent, are the
same. -/
theorem runAll_perm {as bs : List (Action look O)} (hperm : as.Perm bs)
    (hindependent : as.Pairwise Independent) {s t : S} (hst : ∀ k, look s k = look t k) :
    Same look (runAll (as.map Action.run) s) (runAll (bs.map Action.run) t) := by
  induction hperm generalizing s t with
  | nil => exact same_runAll [] hst
  | cons a hperm ih =>
    have hrest := (List.pairwise_cons.mp hindependent).2
    exact (a.footprint.same hst).andThen fun s' t' hst' => ih hrest hst'
  | swap a b as =>
    have hba : Independent b a :=
      (List.pairwise_cons.mp hindependent).1 a List.mem_cons_self
    have hswap : Same look (runAll ((b :: a :: as).map Action.run) s)
        (runAll ((a :: b :: as).map Action.run) s) := by
      have hfirst := (andThen_swap hba s).andThen fun s' t' hst' => same_runAll as hst'
      rw [andThen_assoc, andThen_assoc] at hfirst
      exact hfirst
    exact hswap.trans (same_runAll (a :: b :: as) hst)
  | trans hab hbc ihab ihbc =>
    have hsymm : ∀ {a b : Action look O}, Independent a b → Independent b a := Independent.symm
    exact (ihab hindependent hst).trans
      (ihbc ((hab.pairwise_iff hsymm).mp hindependent) fun _ => rfl)

end Permutations

end MeshRouter.Lib
