import MeshRouter.PubSub.Indexes

/-!
# Publishing while subscriptions change

`publish` takes the lock several times: once for a snapshot of the patterns, once for each pattern
that matches, and once to count. Between these sections other threads subscribe and unsubscribe. A
`Publication` is a manager with one such call in progress, and a step is a change by another thread
or the next section of the call (`advance`); left alone, the call returns what `publish` does
(`run_alone`).

An agent that always has a matching pattern can still be missed: it moves from a pattern that is
still to be visited to one that was visited before. `publish_covers` says which changes do this, and
that without them every agent that is covered all the time is in the result. Each such change does
harm by itself: if the call is then left alone, it returns without the agent.
-/

namespace MeshRouter.PubSub

open Lib

/-- How far a call of `publish` is. -/
inductive Phase where
  | called
  | looping (patterns : List String) (matched : Finset String)
  | returned (matched : Finset String)
deriving DecidableEq

/-- A manager with a call of `publish` in progress. -/
structure Publication where
  manager : TopicManager
  phase : Phase := .called
deriving DecidableEq

/-- What happens next: a change by another thread, or a section of the call. -/
inductive Move where
  | change (change : Change)
  | advance
deriving DecidableEq

namespace Publication

section Step

variable (lower : String → String) (fnmatchcase : String → String → Bool) (topic : String)

/-- One atomic step, with `topic` normalized. -/
def step (s : Publication) : Move → Option Publication
  | .change change => some { s with manager := s.manager.apply lower change }
  | .advance =>
    match s.phase with
    | .called => some { s with phase := .looping s.manager.subscriptions.keys ∅ }
    | .looping (pattern :: patterns) matched =>
      some { s with
        phase := .looping patterns (s.manager.visit fnmatchcase topic matched pattern) }
    | .looping [] matched => some ⟨s.manager.count matched, .returned matched⟩
    | .returned _ => none

end Step

variable {lower : String → String} {fnmatchcase : String → String → Bool} {topic a : String}
  {s t : Publication} {moves : List Move}

/-- The agent has a matching pattern among these. -/
def CoveredBy (fnmatchcase : String → String → Bool) (topic a : String) (m : TopicManager)
    (patterns : List String) : Prop :=
  ∃ p ∈ patterns, fnmatchcase topic p = true ∧ m.Subscribed a p

instance (m : TopicManager) (patterns : List String) :
    Decidable (CoveredBy fnmatchcase topic a m patterns) := by
  unfold CoveredBy
  infer_instance

/-- The agent has a matching pattern. -/
def Covered (fnmatchcase : String → String → Bool) (topic a : String) (m : TopicManager) : Prop :=
  CoveredBy fnmatchcase topic a m m.subscriptions.keys

instance (m : TopicManager) : Decidable (Covered fnmatchcase topic a m) := by
  unfold Covered
  infer_instance

/-- The agent is in the result if the call is left alone: it has been found, or it has a matching
pattern that is still to be visited. -/
def Ahead (fnmatchcase : String → String → Bool) (topic a : String) (s : Publication) : Prop :=
  match s.phase with
  | .called => Covered fnmatchcase topic a s.manager
  | .looping patterns matched => a ∈ matched ∨ CoveredBy fnmatchcase topic a s.manager patterns
  | .returned matched => a ∈ matched

instance (s : Publication) : Decidable (Ahead fnmatchcase topic a s) := by
  unfold Ahead
  split <;> infer_instance

/-- Until the call has returned, the agent has a matching pattern. -/
def CoveredUntil (fnmatchcase : String → String → Bool) (topic a : String) (s : Publication)
    (_ : Move) : Prop :=
  (∃ matched, s.phase = .returned matched) ∨ Covered fnmatchcase topic a s.manager

instance (s : Publication) : Decidable (∃ matched, s.phase = .returned matched) :=
  match h : s.phase with
  | .called | .looping _ _ => isFalse (by simp)
  | .returned matched => isTrue ⟨matched, rfl⟩

instance (s : Publication) (move : Move) :
    Decidable (CoveredUntil fnmatchcase topic a s move) := by
  unfold CoveredUntil
  infer_instance

/-- The move is no change, while patterns are visited, that takes from an agent that was not found
yet its last matching pattern still to be visited. -/
def KeepsAhead (lower : String → String) (fnmatchcase : String → String → Bool) (topic a : String)
    (s : Publication) (move : Move) : Prop :=
  match move, s.phase with
  | .change change, .looping patterns matched =>
    a ∉ matched → CoveredBy fnmatchcase topic a s.manager patterns →
      CoveredBy fnmatchcase topic a (s.manager.apply lower change) patterns
  | _, _ => True

instance (s : Publication) (move : Move) :
    Decidable (KeepsAhead lower fnmatchcase topic a s move) := by
  unfold KeepsAhead
  split <;> infer_instance

/-- The call's own steps keep who is in the result. -/
theorem ahead_advance (h : step lower fnmatchcase topic s .advance = some t) :
    Ahead fnmatchcase topic a t ↔ Ahead fnmatchcase topic a s := by
  obtain ⟨m, phase⟩ := s
  cases phase with
  | called =>
    obtain rfl := Option.some.inj h
    unfold Ahead Covered
    simp
  | looping patterns matched =>
    cases patterns with
    | nil =>
      obtain rfl := Option.some.inj h
      unfold Ahead CoveredBy
      simp
    | cons p patterns =>
      obtain rfl := Option.some.inj h
      unfold Ahead CoveredBy TopicManager.visit
      dsimp only
      split_ifs with hmatch
      · simp [hmatch, or_assoc, TopicManager.Subscribed]
      · simp [hmatch]
  | returned matched => cases h

/-- Left alone, the loop visits the patterns that are left, and the call returns. -/
theorem run_looping (lower : String → String) (fnmatchcase : String → String → Bool)
    (topic : String) (m : TopicManager) (patterns : List String) (matched : Finset String) :
    let found := patterns.foldl (m.visit fnmatchcase topic) matched
    run (step lower fnmatchcase topic) ⟨m, .looping patterns matched⟩
      (List.replicate (patterns.length + 1) .advance) = some ⟨m.count found, .returned found⟩ := by
  induction patterns generalizing matched with
  | nil => rfl
  | cons p patterns ih =>
    rw [List.length_cons, List.replicate_succ]
    exact run_cons.mpr ⟨_, rfl, ih (m.visit fnmatchcase topic matched p)⟩

/-- Left alone, the call does what `publish` does. -/
theorem run_alone (m : TopicManager) (topic : String) :
    run (step lower fnmatchcase (m.normalize lower topic)) ⟨m, .called⟩
      (List.replicate (m.subscriptions.keys.length + 2) .advance) =
      some ⟨(m.publish lower fnmatchcase topic).2,
        .returned (m.publish lower fnmatchcase topic).1⟩ := by
  rw [List.replicate_succ]
  exact run_cons.mpr ⟨_, rfl, run_looping lower fnmatchcase _ m _ ∅⟩

/-- The call's own steps change no subscription. -/
theorem covered_advance (h : step lower fnmatchcase topic s .advance = some t) :
    Covered fnmatchcase topic a t.manager ↔ Covered fnmatchcase topic a s.manager := by
  obtain ⟨m, phase⟩ := s
  cases phase with
  | called =>
    obtain rfl := Option.some.inj h
    rfl
  | looping patterns matched =>
    cases patterns with
    | nil =>
      obtain rfl := Option.some.inj h
      rfl
    | cons p patterns =>
      obtain rfl := Option.some.inj h
      rfl
  | returned matched => cases h

/-- While the call is left alone, a covered agent stays covered. -/
theorem coveredUntil_alone (hs : Covered fnmatchcase topic a s.manager) (n : ℕ) :
    Along (step lower fnmatchcase topic) (CoveredUntil fnmatchcase topic a) s
      (List.replicate n .advance) := by
  have halone : Along (step lower fnmatchcase topic) (fun _ move => move = .advance) s
      (List.replicate n .advance) :=
    along_of_actions (fun move hmove => List.eq_of_mem_replicate hmove) s
  refine along_of_invariant (I := fun s => Covered fnmatchcase topic a s.manager) ?_ ?_ hs halone
  · rintro s _ t hs rfl hst
    exact (covered_advance hst).mpr hs
  · exact fun s _ hs _ => .inr hs

/-- A covered agent stays ahead, if the move takes no last pattern from it. -/
theorem ahead_step {move : Move}
    (hs : (∃ matched, s.phase = .returned matched) ∨ Covered fnmatchcase topic a s.manager →
      Ahead fnmatchcase topic a s)
    (hcovered : CoveredUntil fnmatchcase topic a s move)
    (hkeeps : KeepsAhead lower fnmatchcase topic a s move)
    (h : step lower fnmatchcase topic s move = some t)
    (ht : (∃ matched, t.phase = .returned matched) ∨ Covered fnmatchcase topic a t.manager) :
    Ahead fnmatchcase topic a t := by
  have hahead := hs hcovered
  cases move with
  | advance => exact (ahead_advance h).mpr hahead
  | change change =>
    obtain ⟨m, phase⟩ := s
    obtain rfl := Option.some.inj h
    cases phase with
    | called => exact ht.resolve_left nofun
    | looping patterns matched =>
      by_cases ha : a ∈ matched
      · exact .inl ha
      · exact .inr (hkeeps ha (hahead.resolve_left ha))
    | returned matched => exact hahead

/-- An agent that has a matching pattern all the time is in the result, in every run in which no
change takes from it its last matching pattern still to be visited. A change that does, and leaves
it a matching pattern that was visited before, makes the call miss the agent if it is then left
alone. -/
theorem publish_covers (lower : String → String) (fnmatchcase : String → String → Bool)
    (topic a : String) (m : TopicManager) :
    (∀ moves t matched, run (step lower fnmatchcase topic) ⟨m, .called⟩ moves = some t →
      t.phase = .returned matched →
      Along (step lower fnmatchcase topic) (CoveredUntil fnmatchcase topic a) ⟨m, .called⟩ moves →
      Along (step lower fnmatchcase topic) (KeepsAhead lower fnmatchcase topic a) ⟨m, .called⟩
        moves →
      a ∈ matched) ∧
    ∀ moves s change, run (step lower fnmatchcase topic) ⟨m, .called⟩ moves = some s →
      Along (step lower fnmatchcase topic) (CoveredUntil fnmatchcase topic a) ⟨m, .called⟩ moves →
      Covered fnmatchcase topic a s.manager →
      Covered fnmatchcase topic a (s.manager.apply lower change) →
      ¬ KeepsAhead lower fnmatchcase topic a s (.change change) →
      ∃ n t matched,
        run (step lower fnmatchcase topic) ⟨m, .called⟩
          (moves ++ .change change :: List.replicate n .advance) = some t ∧
        t.phase = .returned matched ∧
        Along (step lower fnmatchcase topic) (CoveredUntil fnmatchcase topic a) ⟨m, .called⟩
          (moves ++ .change change :: List.replicate n .advance) ∧
        a ∉ matched := by
  refine ⟨fun moves t matched hrun hphase hcovered hkeeps => ?_,
    fun moves s change hrun hcovered hs ht hbreaks => ?_⟩
  · have hahead : (∃ matched, t.phase = .returned matched) ∨ Covered fnmatchcase topic a t.manager →
        Ahead fnmatchcase topic a t := by
      refine run_induction_along (fun s move t hs hok hst => ahead_step hs hok.1 hok.2 hst) ?_
        (along_and hcovered hkeeps) hrun
      exact fun h => h.resolve_left nofun
    have hin := hahead (.inl ⟨matched, hphase⟩)
    unfold Ahead at hin
    rwa [hphase] at hin
  · obtain ⟨m', phase⟩ := s
    unfold KeepsAhead at hbreaks
    cases phase with
    | called => exact absurd trivial hbreaks
    | returned matched => exact absurd trivial hbreaks
    | looping patterns matched =>
      dsimp only at hbreaks hs ht
      rw [Classical.not_imp, Classical.not_imp] at hbreaks
      obtain ⟨ha, -, hgone⟩ := hbreaks
      have halone := run_looping lower fnmatchcase topic (m'.apply lower change) patterns matched
      refine ⟨_, _, _, run_trans hrun (run_cons.mpr ⟨_, rfl, halone⟩), rfl,
        along_append hcovered hrun ⟨.inr hs, ?_⟩, ?_⟩
      · rintro _ ⟨⟩
        exact coveredUntil_alone ht _
      · rw [TopicManager.mem_visitAll]
        exact not_or.mpr ⟨ha, hgone⟩

/-- One agent subscribes to all events, and one to errors. -/
def errorManager : TopicManager :=
  ((TopicManager.mk true .empty .empty 0 0).apply id (.subscribe "agent-b" "events.*")).apply id
    (.subscribe "agent-a" "events.error")

/-- The agent moves from one pattern to the other before the loop begins. -/
def movesEarly : List Move :=
  [.advance, .change (.subscribe "agent-a" "events.*"), .advance,
    .change (.unsubscribe "agent-a" "events.error"), .advance, .advance]

/-- The agent moves after the loop has visited the pattern that it moves to. -/
def movesLate : List Move :=
  [.advance, .advance, .change (.subscribe "agent-a" "events.*"),
    .change (.unsubscribe "agent-a" "events.error"), .advance, .advance]

/-- `publish_covers` on an early move. -/
theorem publish_covers_movesEarly :
    ∃ t matched, run (step id Glob.fnmatchcase "events.error") ⟨errorManager, .called⟩ movesEarly =
      some t ∧ t.phase = .returned matched ∧ "agent-a" ∈ matched := by
  have hphase : (run (step id Glob.fnmatchcase "events.error") ⟨errorManager, .called⟩
      movesEarly).map (·.phase) = some (.returned {"agent-a", "agent-b"}) := by decide +kernel
  obtain ⟨t, hrun, hphase⟩ := Option.map_eq_some_iff.mp hphase
  exact ⟨t, _, hrun, hphase, (publish_covers id Glob.fnmatchcase "events.error" "agent-a"
    errorManager).1 movesEarly t _ hrun hphase (by decide +kernel) (by decide +kernel)⟩

/-- A late move is missed, though the agent has a matching pattern all the time. -/
theorem movesLate_missed :
    ∃ t matched, run (step id Glob.fnmatchcase "events.error") ⟨errorManager, .called⟩ movesLate =
      some t ∧ t.phase = .returned matched ∧
      Along (step id Glob.fnmatchcase "events.error")
        (CoveredUntil Glob.fnmatchcase "events.error" "agent-a") ⟨errorManager, .called⟩ movesLate ∧
      "agent-a" ∉ matched := by
  have hphase : (run (step id Glob.fnmatchcase "events.error") ⟨errorManager, .called⟩
      movesLate).map (·.phase) = some (.returned {"agent-b"}) := by decide +kernel
  obtain ⟨t, hrun, hphase⟩ := Option.map_eq_some_iff.mp hphase
  exact ⟨t, _, hrun, hphase, by decide +kernel, by decide +kernel⟩

end Publication

end MeshRouter.PubSub
