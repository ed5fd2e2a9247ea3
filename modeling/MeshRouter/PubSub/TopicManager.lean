import Mathlib.Data.Finset.Sort
import Mathlib.Data.String.Basic
import MeshRouter.Lib.Dict
import MeshRouter.Lib.Text

/-!
# The topic manager

`TopicManager` of `broker/pubsub.py`: agents subscribe to patterns, and a topic is published to the
agents with a matching pattern. The subscriptions are kept twice, by pattern and by agent, in
dictionaries of sets in which an absent key reads as the empty set.

The manager is over two functions of the standard library: `lower`, which a manager that is not case
sensitive applies to patterns and topics, and `fnmatchcase`, which matches a topic with a pattern.
Here every method runs to its end before the next begins. `publish` takes the lock several times;
what can come in between is in `PubSub/Publishing.lean`, with the same `visit` of one pattern.
-/

namespace MeshRouter.PubSub

open Lib

/-- The `ValueError`s of `subscribe`. -/
inductive TopicError where
  /-- "agent_id must be a non-empty string." -/
  | emptyAgentId
  /-- "pattern must be a non-empty string." -/
  | emptyPattern
deriving DecidableEq

/-- An index of sets: an absent key reads as the empty set. -/
abbrev Index := Dict String (Finset String)

namespace Index

/-- `index[key]`, of a `defaultdict(set)`. -/
def members (index : Index) (key : String) : Finset String := index.getD key ∅

/-- `index[key].add(member)`. -/
def addTo (index : Index) (key member : String) : Index :=
  Dict.set index key (insert member (index.members key))

/-- `index[key].discard(member)`, and the key goes with its last member. -/
def discardFrom (index : Index) (key member : String) : Index :=
  let rest := (index.members key).erase member
  if rest = ∅ then Dict.erase index key else Dict.set index key rest

end Index

/-- The state of a topic manager. -/
structure TopicManager where
  caseSensitive : Bool := true
  /-- Pattern to agents. -/
  subscriptions : Index := .empty
  /-- Agent to patterns. -/
  agentPatterns : Index := .empty
  publishCount : ℕ := 0
  totalDeliveries : ℕ := 0
deriving DecidableEq

namespace TopicManager

variable (lower : String → String) (fnmatchcase : String → String → Bool)

/-- `_normalize`. -/
def normalize (m : TopicManager) (value : String) : String :=
  if m.caseSensitive then value else lower value

/-- `subscribe`. -/
def subscribe (m : TopicManager) (agentId pattern : String) : Except TopicError TopicManager :=
  if Blank agentId then
    .error .emptyAgentId
  else if Blank pattern then
    .error .emptyPattern
  else
    let normalizedPattern := m.normalize lower pattern
    .ok { m with
      subscriptions := m.subscriptions.addTo normalizedPattern agentId
      agentPatterns := m.agentPatterns.addTo agentId normalizedPattern }

/-- `unsubscribe`. -/
def unsubscribe (m : TopicManager) (agentId pattern : String) : TopicManager :=
  let normalizedPattern := m.normalize lower pattern
  { m with
    subscriptions := m.subscriptions.discardFrom normalizedPattern agentId
    agentPatterns := m.agentPatterns.discardFrom agentId normalizedPattern }

-- The order in which `unsubscribeAll` traverses a set.
instance isTrans_pattern : IsTrans String fun a b => a ≤ b := ⟨fun _ _ _ => le_trans⟩
instance antisymm_pattern : Std.Antisymm fun a b : String => a ≤ b := ⟨fun _ _ => le_antisymm⟩

/-- `unsubscribe_all`, with the number of patterns. The set is traversed in sorted order. -/
def unsubscribeAll (m : TopicManager) (agentId : String) : ℕ × TopicManager :=
  let patterns := m.agentPatterns.members agentId
  (patterns.card,
    { m with
      subscriptions := patterns.sort.foldl
        (fun index pattern => index.discardFrom pattern agentId) m.subscriptions
      agentPatterns := Dict.erase m.agentPatterns agentId })

/-- The body of the loop of `publish`: the subscribers of a pattern are added if it matches. -/
def visit (topic : String) (m : TopicManager) (matched : Finset String) (pattern : String) :
    Finset String :=
  if fnmatchcase topic pattern then matched ∪ m.subscriptions.members pattern else matched

/-- The counters after a publication to `matched`. -/
def count (m : TopicManager) (matched : Finset String) : TopicManager :=
  { m with
    publishCount := m.publishCount + 1
    totalDeliveries := m.totalDeliveries + matched.card }

/-- `publish`, run without interruption. -/
def publish (m : TopicManager) (topic : String) : Finset String × TopicManager :=
  let normalizedTopic := m.normalize lower topic
  let matched := m.subscriptions.keys.foldl (m.visit fnmatchcase normalizedTopic) ∅
  (matched, m.count matched)

/-- `resolve_subscribers`. -/
def resolveSubscribers (m : TopicManager) (topic : String) : Finset String :=
  let normalizedTopic := m.normalize lower topic
  m.subscriptions.entries.foldl
    (fun matched item => if fnmatchcase normalizedTopic item.1 then matched ∪ item.2 else matched) ∅

end TopicManager

/-! ## Calls -/

/-- A call that changes the subscriptions. -/
inductive Change where
  | subscribe (agentId pattern : String)
  | unsubscribe (agentId pattern : String)
  | unsubscribeAll (agentId : String)
deriving DecidableEq

/-- A call of a public method. -/
inductive TopicCall where
  | change (change : Change)
  | publish (topic : String)
  | resolveSubscribers (topic : String)
deriving DecidableEq

/-- The manager after a change. A call that raises changes nothing. -/
def TopicManager.apply (lower : String → String) (m : TopicManager) : Change → TopicManager
  | .subscribe agentId pattern =>
    match m.subscribe lower agentId pattern with
    | .ok m' => m'
    | .error _ => m
  | .unsubscribe agentId pattern => m.unsubscribe lower agentId pattern
  | .unsubscribeAll agentId => (m.unsubscribeAll agentId).2

end MeshRouter.PubSub
