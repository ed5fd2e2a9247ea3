import MeshRouter.PubSub.Indexes

/-!
# Wildcards in topics

The module documentation of `pubsub.py` reads a pattern segment by segment: `agent.*` is for the
topics of one segment under `agent`. The matcher is `fnmatchcase`, whose `*` takes dots too, so that
a wildcard stands for one or more segments. On a topic of as many segments as the pattern the two
readings agree, and on a longer one `fnmatchcase` may match where the documentation does not.
`publish_segments_iff` says for which subscriptions and topics the agents are the documented ones.
-/

namespace MeshRouter.PubSub.Board

open Lib Lib.Glob

variable {lower : String → String} {s : Board} {calls : List TopicCall}

/-- The pattern matches the topic segment by segment. -/
def Documented (p topic : String) : Prop := SegmentMatch (patternSegments p) (segments topic)

/-- The pattern has fewer segments than the topic, and matches it when each of its wildcards stands
for one or more segments. -/
def Overreaches (p topic : String) : Prop :=
  (patternSegments p).length < (segments topic).length ∧
    Spans (patternSegments p) (segments topic)

/-- A wildcard pattern matches what the documentation says and what it overreaches to. -/
theorem fnmatchcase_iff_documented {p topic : String} (hp : IsWildcardPattern p) :
    fnmatchcase topic p = true ↔ Documented p topic ∨ Overreaches p topic := by
  rw [fnmatchcase_iff hp, Documented, segmentMatch_iff, Overreaches]
  tauto

/-- After every run whose patterns are wildcard patterns, a topic is published to the agents with a
pattern that matches segment by segment, exactly when every agent with a pattern that overreaches
also has one that matches so. -/
theorem publish_segments_iff {caseSensitive : Bool}
    (h : run (step lower fnmatchcase) ⟨{ caseSensitive := caseSensitive }, []⟩ calls = some s)
    (hpatterns : ∀ a, ∀ p ∈ s.manager.agentPatterns.members a, IsWildcardPattern p)
    (topic : String) :
    (∀ a, a ∈ (s.manager.publish lower fnmatchcase topic).1 ↔
      ∃ p ∈ s.manager.agentPatterns.members a,
        Documented p (s.manager.normalize lower topic)) ↔
    ∀ a, ∀ p ∈ s.manager.agentPatterns.members a,
      Overreaches p (s.manager.normalize lower topic) →
        ∃ p' ∈ s.manager.agentPatterns.members a,
          Documented p' (s.manager.normalize lower topic) := by
  have hinverse := (valid_of_run h).consistent.inverse
  have hpublish : ∀ a, a ∈ (s.manager.publish lower fnmatchcase topic).1 ↔
      ∃ p ∈ s.manager.agentPatterns.members a,
        Documented p (s.manager.normalize lower topic) ∨
          Overreaches p (s.manager.normalize lower topic) := by
    intro a
    rw [TopicManager.mem_publish]
    constructor
    · rintro ⟨p, hmatch, hsub⟩
      have hp := (hinverse a p).mp hsub
      exact ⟨p, hp, (fnmatchcase_iff_documented (hpatterns a p hp)).mp hmatch⟩
    · rintro ⟨p, hp, hmatch⟩
      exact ⟨p, (fnmatchcase_iff_documented (hpatterns a p hp)).mpr hmatch, (hinverse a p).mpr hp⟩
  simp only [hpublish]
  constructor
  · exact fun hdoc a p hp hover => (hdoc a).mp ⟨p, hp, .inr hover⟩
  · intro hcover a
    constructor
    · rintro ⟨p, hp, hdoc | hover⟩
      · exact ⟨p, hp, hdoc⟩
      · exact hcover a p hp hover
    · rintro ⟨p, hp, hdoc⟩
      exact ⟨p, hp, .inl hdoc⟩

/-- An agent subscribes to the topics of one segment under `agent`. -/
def agentTopics : List TopicCall := [.change (.subscribe "agent-a" "agent.*")]

/-- The manager after that. -/
def agentBoard : Board :=
  ⟨{ subscriptions := Index.addTo .empty "agent.*" "agent-a"
     agentPatterns := Index.addTo .empty "agent-a" "agent.*" }, []⟩

theorem run_agentTopics : run (step id fnmatchcase) ⟨{}, []⟩ agentTopics = some agentBoard := by
  decide +kernel

/-- The one pattern of `agentBoard`. -/
theorem pattern_agentBoard {a p : String}
    (hp : p ∈ agentBoard.manager.agentPatterns.members a) : a = "agent-a" ∧ p = "agent.*" :=
  (Index.mem_addTo.mp hp).resolve_left (Finset.notMem_empty p)

theorem isWildcardPattern_agentBoard (a : String) :
    ∀ p ∈ agentBoard.manager.agentPatterns.members a, IsWildcardPattern p := by
  intro p hp
  rw [(pattern_agentBoard hp).2]
  decide +kernel

/-- `publish_segments_iff` on a topic of two segments. -/
theorem publish_segments_agentTopics :
    "agent-a" ∈ (agentBoard.manager.publish id fnmatchcase "agent.status").1 ∧
      ∀ a, a ∈ (agentBoard.manager.publish id fnmatchcase "agent.status").1 ↔
        ∃ p ∈ agentBoard.manager.agentPatterns.members a, Documented p "agent.status" := by
  refine ⟨by decide +kernel, ?_⟩
  refine (publish_segments_iff run_agentTopics isWildcardPattern_agentBoard "agent.status").mpr
    fun a p hp hover => ?_
  -- The pattern has as many segments as the topic.
  rw [(pattern_agentBoard hp).2] at hover
  exact absurd hover.1 (by decide +kernel)

/-- A topic of three segments is published to the agent. -/
theorem wildcard_crosses_segments :
    run (step id fnmatchcase) ⟨{}, []⟩ agentTopics = some agentBoard ∧
      (∀ a, ∀ p ∈ agentBoard.manager.agentPatterns.members a, IsWildcardPattern p) ∧
      "agent-a" ∈ (agentBoard.manager.publish id fnmatchcase "agent.status.cpu").1 ∧
      ¬ ∃ p ∈ agentBoard.manager.agentPatterns.members "agent-a",
        Documented p "agent.status.cpu" := by
  refine ⟨run_agentTopics, isWildcardPattern_agentBoard, by decide +kernel, ?_⟩
  rintro ⟨p, hp, hdoc⟩
  rw [(pattern_agentBoard hp).2] at hdoc
  exact absurd (List.Forall₂.length_eq hdoc) (by decide +kernel)

end MeshRouter.PubSub.Board
