import Mathlib.Algebra.BigOperators.Group.List.Basic
import MeshRouter.Lib.Glob
import MeshRouter.Lib.Runs
import MeshRouter.PubSub.TopicManager

/-!
# The two indexes of subscriptions

What the two indexes stand for is a relation between agents and patterns. Each index operation is
described by what it does to membership (`mem_addTo`, `mem_discardFrom`, `mem_discardAll`), and each
change of the manager by what it does to the relation (`Change.effect`): `mem_apply` is the
refinement. The indexes stay inverse to each other and hold no empty set (`Consistent`), and
`indexes_consistent` says so for every run, with what the publications returned.
-/

namespace MeshRouter.PubSub

open Lib

/-! ## One index -/

namespace Index

variable {index : Index} {j k x y : String}

/-- No set of the index is empty. -/
def NoEmpty (index : Index) : Prop := ∀ k s, Dict.get? index k = some s → s ≠ ∅

theorem mem_set {s : Finset String} :
    y ∈ members (Dict.set index k s) j ↔ if j = k then y ∈ s else y ∈ index.members j := by
  unfold members
  rw [Dict.getD_set]
  split_ifs
  · rfl
  · rfl

/-- Without a key, its members are gone. -/
theorem mem_erase : y ∈ members (Dict.erase index k) j ↔ y ∈ index.members j ∧ j ≠ k := by
  unfold members Dict.getD
  rw [Dict.get?_erase]
  split_ifs with h
  · simp [h]
  · simp [h]

theorem mem_addTo :
    y ∈ (index.addTo k x).members j ↔ y ∈ index.members j ∨ j = k ∧ y = x := by
  unfold addTo
  rw [mem_set]
  split_ifs with h
  · subst h
    simp [or_comm]
  · simp [h]

theorem mem_discardFrom :
    y ∈ (index.discardFrom k x).members j ↔ y ∈ index.members j ∧ ¬ (j = k ∧ y = x) := by
  unfold discardFrom
  dsimp only
  split_ifs with hrest
  · -- The member was the last one: no other is lost with the key.
    have hlast : ∀ y ∈ index.members k, y = x := by
      intro y hy
      by_contra hne
      exact Finset.notMem_empty y (hrest ▸ Finset.mem_erase.mpr ⟨hne, hy⟩)
    rw [mem_erase]
    constructor
    · exact fun h => ⟨h.1, fun hjk => h.2 hjk.1⟩
    · refine fun h => ⟨h.1, ?_⟩
      rintro rfl
      exact h.2 ⟨rfl, hlast y h.1⟩
  · rw [mem_set]
    split_ifs with h
    · subst h
      simp [and_comm]
    · simp [h]

/-- Discarding a member from several keys. -/
theorem mem_discardAll {keys : List String} :
    y ∈ members (keys.foldl (fun index k => discardFrom index k x) index) j ↔
      y ∈ index.members j ∧ ¬ (j ∈ keys ∧ y = x) := by
  induction keys generalizing index with
  | nil => simp
  | cons k keys ih =>
    rw [List.foldl_cons, ih, mem_discardFrom, List.mem_cons]
    tauto

/-- A key with a member is present. -/
theorem mem_keys_of_mem (h : x ∈ index.members k) : k ∈ Dict.keys index := by
  by_contra hnot
  unfold members Dict.getD at h
  rw [Dict.get?_eq_none_iff.mpr hnot] at h
  exact Finset.notMem_empty x h

theorem NoEmpty.set (h : index.NoEmpty) {s : Finset String} (hs : s ≠ ∅) :
    NoEmpty (Dict.set index k s) := by
  intro j t ht
  rw [Dict.get?_set] at ht
  split_ifs at ht
  · obtain rfl := Option.some.inj ht
    exact hs
  · exact h j t ht

theorem NoEmpty.erase (h : index.NoEmpty) : NoEmpty (Dict.erase index k) := by
  intro j t ht
  rw [Dict.get?_erase] at ht
  split_ifs at ht
  exact h j t ht

theorem NoEmpty.addTo (h : index.NoEmpty) : (index.addTo k x).NoEmpty :=
  h.set (Finset.insert_ne_empty x _)

theorem NoEmpty.discardFrom (h : index.NoEmpty) : (index.discardFrom k x).NoEmpty := by
  unfold Index.discardFrom
  dsimp only
  split_ifs with hrest
  · exact h.erase
  · exact h.set hrest

theorem NoEmpty.discardAll (h : index.NoEmpty) (keys : List String) :
    NoEmpty (keys.foldl (fun index k => Index.discardFrom index k x) index) := by
  induction keys generalizing index with
  | nil => exact h
  | cons k keys ih => exact ih h.discardFrom

end Index

/-! ## Both indexes -/

/-- What a change does to the relation between agents and patterns, over the normalization of
patterns. -/
def Change.effect (normalize : String → String) (subscribed : String → String → Prop) :
    Change → String → String → Prop
  | .subscribe agentId pattern, a, p =>
    subscribed a p ∨ (¬ Blank agentId ∧ ¬ Blank pattern) ∧ p = normalize pattern ∧ a = agentId
  | .unsubscribe agentId pattern, a, p =>
    subscribed a p ∧ ¬ (p = normalize pattern ∧ a = agentId)
  | .unsubscribeAll agentId, a, p => subscribed a p ∧ a ≠ agentId

namespace TopicManager

variable {lower : String → String} {fnmatchcase : String → String → Bool} {m : TopicManager}
  {a p topic : String}

/-- The agent is subscribed to the pattern, which is normalized. -/
def Subscribed (m : TopicManager) (a p : String) : Prop := a ∈ m.subscriptions.members p

instance (m : TopicManager) (a p : String) : Decidable (m.Subscribed a p) := by
  unfold Subscribed
  infer_instance

/-- The indexes are inverse to each other, and neither holds an empty set. -/
structure Consistent (m : TopicManager) : Prop where
  inverse : ∀ a p, a ∈ m.subscriptions.members p ↔ p ∈ m.agentPatterns.members a
  subscriptions : m.subscriptions.NoEmpty
  agentPatterns : m.agentPatterns.NoEmpty

/-- A subscription that does not raise. -/
theorem apply_subscribe (lower : String → String) (m : TopicManager) (agentId pattern : String) :
    (Blank agentId ∨ Blank pattern) ∧ m.apply lower (.subscribe agentId pattern) = m ∨
    (¬ Blank agentId ∧ ¬ Blank pattern) ∧ m.apply lower (.subscribe agentId pattern) =
      { m with
        subscriptions := m.subscriptions.addTo (m.normalize lower pattern) agentId
        agentPatterns := m.agentPatterns.addTo agentId (m.normalize lower pattern) } := by
  by_cases hagent : Blank agentId
  · exact .inl ⟨.inl hagent, by simp [apply, subscribe, hagent]⟩
  · by_cases hpattern : Blank pattern
    · exact .inl ⟨.inr hpattern, by simp [apply, subscribe, hagent, hpattern]⟩
    · exact .inr ⟨⟨hagent, hpattern⟩, by simp [apply, subscribe, hagent, hpattern]⟩

/-- A change does to the subscriptions what its effect says. -/
theorem mem_apply (hm : m.Consistent) (change : Change) :
    (m.apply lower change).Subscribed a p ↔
      change.effect (m.normalize lower) m.Subscribed a p := by
  cases change with
  | subscribe agentId pattern =>
    unfold Change.effect
    rcases apply_subscribe lower m agentId pattern with
      ⟨hblank, happly⟩ | ⟨hnot, happly⟩
    · rw [happly]
      dsimp only
      have hfalse : ¬ (¬ Blank agentId ∧ ¬ Blank pattern) := by tauto
      simp [hfalse]
    · rw [happly]
      dsimp only
      rw [Subscribed, Index.mem_addTo]
      simp only [hnot, not_false_eq_true, true_and]
      rfl
  | unsubscribe agentId pattern => exact Index.mem_discardFrom
  | unsubscribeAll agentId =>
    unfold Subscribed Change.effect
    dsimp only
    refine Index.mem_discardAll.trans (and_congr_right fun hmem => not_congr ?_)
    rw [Finset.mem_sort, ← hm.inverse]
    constructor
    · exact fun h => h.2
    · rintro rfl
      exact ⟨hmem, rfl⟩

/-- A change keeps the indexes consistent. -/
theorem Consistent.apply (hm : m.Consistent) (change : Change) :
    (m.apply lower change).Consistent := by
  -- The patterns of the agents change as the subscriptions do.
  refine ⟨fun a p => (mem_apply hm change).trans ?_, ?_, ?_⟩
  · cases change with
    | subscribe agentId pattern =>
      unfold Change.effect
      rcases apply_subscribe lower m agentId pattern with
        ⟨hblank, happly⟩ | ⟨hnot, happly⟩
      · rw [happly]
        dsimp only
        have hfalse : ¬ (¬ Blank agentId ∧ ¬ Blank pattern) := by tauto
        simp only [hfalse, false_and, or_false]
        exact hm.inverse a p
      · rw [happly]
        dsimp only
        rw [Index.mem_addTo, ← hm.inverse]
        simp only [hnot, not_false_eq_true, true_and]
        rw [and_comm (a := a = agentId)]
        rfl
    | unsubscribe agentId pattern =>
      refine Iff.trans ?_ Index.mem_discardFrom.symm
      rw [← hm.inverse, and_comm (a := a = agentId)]
      rfl
    | unsubscribeAll agentId =>
      refine Iff.trans ?_ Index.mem_erase.symm
      rw [← hm.inverse]
      rfl
  · cases change with
    | subscribe agentId pattern =>
      rcases apply_subscribe lower m agentId pattern with
        ⟨-, happly⟩ | ⟨-, happly⟩
      · rw [happly]
        exact hm.subscriptions
      · rw [happly]
        exact hm.subscriptions.addTo
    | unsubscribe agentId pattern => exact hm.subscriptions.discardFrom
    | unsubscribeAll agentId => exact hm.subscriptions.discardAll _
  · cases change with
    | subscribe agentId pattern =>
      rcases apply_subscribe lower m agentId pattern with
        ⟨-, happly⟩ | ⟨-, happly⟩
      · rw [happly]
        exact hm.agentPatterns
      · rw [happly]
        exact hm.agentPatterns.addTo
    | unsubscribe agentId pattern => exact hm.agentPatterns.discardFrom
    | unsubscribeAll agentId => exact hm.agentPatterns.erase

/-- A change leaves the counters and the case setting as they are. -/
theorem apply_frame (lower : String → String) (m : TopicManager) (change : Change) :
    (m.apply lower change).totalDeliveries = m.totalDeliveries ∧
      (m.apply lower change).publishCount = m.publishCount ∧
      (m.apply lower change).caseSensitive = m.caseSensitive := by
  cases change with
  | subscribe agentId pattern =>
    rcases apply_subscribe lower m agentId pattern with ⟨-, happly⟩ | ⟨-, happly⟩
    · rw [happly]
      exact ⟨rfl, rfl, rfl⟩
    · rw [happly]
      exact ⟨rfl, rfl, rfl⟩
  | unsubscribe | unsubscribeAll => exact ⟨rfl, rfl, rfl⟩

/-! ## Publishing -/

/-- Visiting patterns adds the subscribers of those that match. -/
theorem mem_visitAll {patterns : List String} {matched : Finset String} :
    a ∈ patterns.foldl (m.visit fnmatchcase topic) matched ↔
      a ∈ matched ∨ ∃ p ∈ patterns, fnmatchcase topic p = true ∧ m.Subscribed a p := by
  induction patterns generalizing matched with
  | nil => simp
  | cons p patterns ih =>
    rw [List.foldl_cons, ih, visit]
    split_ifs with hmatch
    · simp [hmatch, or_assoc, Subscribed]
    · simp [hmatch]

/-- A topic is published to the agents with a matching pattern. -/
theorem mem_publish :
    a ∈ (m.publish lower fnmatchcase topic).1 ↔
      ∃ p, fnmatchcase (m.normalize lower topic) p = true ∧ m.Subscribed a p := by
  unfold publish
  rw [mem_visitAll, or_iff_right (Finset.notMem_empty a)]
  constructor
  · rintro ⟨p, -, h⟩
    exact ⟨p, h⟩
  · rintro ⟨p, hmatch, hsub⟩
    exact ⟨p, Index.mem_keys_of_mem hsub, hmatch, hsub⟩

/-- A dry run gives what a publication gives. -/
theorem resolveSubscribers_eq :
    m.resolveSubscribers lower fnmatchcase topic = (m.publish lower fnmatchcase topic).1 := by
  unfold resolveSubscribers publish Dict.keys
  dsimp only
  rw [List.foldl_map]
  refine List.foldl_ext _ _ _ fun matched item hitem => ?_
  have hget : m.subscriptions.members item.1 = item.2 := by
    unfold Index.members Dict.getD
    rw [Dict.get?_eq_some_iff.mpr hitem]
    rfl
  rw [visit, hget]

end TopicManager

/-! ## Runs -/

/-- A manager and the sets that it has published to, in order. -/
structure Board where
  manager : TopicManager
  published : List (Finset String) := []
deriving DecidableEq

namespace Board

variable (lower : String → String) (fnmatchcase : String → String → Bool)

/-- One call, run to its end. -/
def step (s : Board) : TopicCall → Option Board
  | .change change => some { s with manager := s.manager.apply lower change }
  | .publish topic =>
    let (matched, manager) := s.manager.publish lower fnmatchcase topic
    some ⟨manager, s.published ++ [matched]⟩
  | .resolveSubscribers _ => some s

variable {lower fnmatchcase} {s t : Board} {call : TopicCall} {calls : List TopicCall}

/-- The invariant of a run: consistent indexes, and counters that agree with the publications. -/
structure Valid (s : Board) : Prop where
  consistent : s.manager.Consistent
  publishCount : s.manager.publishCount = s.published.length
  totalDeliveries : s.manager.totalDeliveries = (s.published.map Finset.card).sum

/-- Every call keeps the invariant. -/
theorem Valid.step (hs : Valid s) (h : Board.step lower fnmatchcase s call = some t) : Valid t := by
  cases call with
  | change change =>
    obtain rfl := Option.some.inj h
    obtain ⟨htotal, hcount, -⟩ := TopicManager.apply_frame lower s.manager change
    exact ⟨hs.consistent.apply change, hcount.trans hs.publishCount,
      htotal.trans hs.totalDeliveries⟩
  | publish topic =>
    obtain rfl := Option.some.inj h
    have hconsistent := hs.consistent
    refine ⟨⟨hconsistent.inverse, hconsistent.subscriptions, hconsistent.agentPatterns⟩, ?_, ?_⟩
    · rw [List.length_append, List.length_singleton, ← hs.publishCount]
      rfl
    · rw [List.map_append, List.sum_append, ← hs.totalDeliveries, List.map_singleton,
        List.sum_singleton]
      rfl
  | resolveSubscribers topic =>
    obtain rfl := Option.some.inj h
    exact hs

/-- The invariant holds after every run. -/
theorem valid_of_run {caseSensitive : Bool}
    (h : run (step lower fnmatchcase) ⟨{ caseSensitive := caseSensitive }, []⟩ calls = some s) :
    Valid s := by
  refine run_induction (fun s call t hs hst => hs.step hst) ⟨⟨fun a p => ?_, ?_, ?_⟩, rfl, rfl⟩ h
  · exact iff_of_false (Finset.notMem_empty a) (Finset.notMem_empty p)
  · rintro k agents ⟨⟩
  · rintro k patterns ⟨⟩

/-- After every run the two indexes are inverse to each other and hold no empty set, a publication
and a dry run of a topic give the same agents, and the deliveries are as many as the published sets
have agents. -/
theorem indexes_consistent {caseSensitive : Bool}
    (h : run (step lower fnmatchcase) ⟨{ caseSensitive := caseSensitive }, []⟩ calls = some s) :
    (∀ a p, a ∈ s.manager.subscriptions.members p ↔ p ∈ s.manager.agentPatterns.members a) ∧
    (∀ p agents, Dict.get? s.manager.subscriptions p = some agents → agents ≠ ∅) ∧
    (∀ a patterns, Dict.get? s.manager.agentPatterns a = some patterns → patterns ≠ ∅) ∧
    (∀ topic, (s.manager.publish lower fnmatchcase topic).1 =
      s.manager.resolveSubscribers lower fnmatchcase topic) ∧
    s.manager.totalDeliveries = (s.published.map Finset.card).sum := by
  have hs := valid_of_run h
  exact ⟨hs.consistent.inverse, hs.consistent.subscriptions, hs.consistent.agentPatterns,
    fun topic => TopicManager.resolveSubscribers_eq.symm, hs.totalDeliveries⟩

/-- Two agents, a publication, an unsubscription from a pattern that was never subscribed to, and an
agent that leaves. -/
def errorSubscribers : List TopicCall :=
  [.change (.subscribe "agent-a" "events.*"), .change (.subscribe "agent-b" "events.error"),
    .publish "events.error", .change (.unsubscribe "agent-b" "events.*"),
    .change (.unsubscribeAll "agent-a")]

/-- `indexes_consistent` on these calls. -/
theorem indexes_consistent_errorSubscribers :
    ∃ s, run (step id Glob.fnmatchcase) ⟨{}, []⟩ errorSubscribers = some s ∧
      (∀ a p, a ∈ s.manager.subscriptions.members p ↔ p ∈ s.manager.agentPatterns.members a) ∧
      (s.published.map Finset.card).sum = 2 := by
  have htotal : (run (step id Glob.fnmatchcase) ⟨{}, []⟩ errorSubscribers).map
      (·.manager.totalDeliveries) = some 2 := by decide +kernel
  obtain ⟨s, hs, htotal⟩ := Option.map_eq_some_iff.mp htotal
  obtain ⟨hinverse, -, -, -, hsum⟩ := indexes_consistent hs
  exact ⟨s, hs, hinverse, hsum.symm.trans htotal⟩

end Board

end MeshRouter.PubSub
