import Mathlib.Data.Rat.Floor
import Mathlib.Data.String.Basic
import MeshRouter.Lib.Tally
import MeshRouter.Lib.Text

/-!
# The consensus protocols

`MajorityVote`, `ConfidenceWeighted` and `Hierarchical` of `consensus/protocol.py`. Each resolves a
list of votes into a winning option, with the tallies and a ratio. Confidences and ratios are exact
rationals, and the time of a decision is an input.

All three count votes, not voters: an agent may occur in the list more than once. The option that
wins a vote by counts or by weights is the one that leads the tally, which `Dict.Leads` says
without the steps of the program (`MajorityVote.resolve_of_leads`,
`ConfidenceWeighted.resolve_of_leads`).
-/

namespace MeshRouter.Consensus

open Lib

/-- What the checks of `__init__` and `__post_init__` raise. -/
inductive ConsensusError where
  /-- "agent_id must not be empty." -/
  | agentIdEmpty
  /-- "option must not be empty." -/
  | optionEmpty
  /-- "confidence must be in [0.0, 1.0], got …." -/
  | confidence (got : ℚ)
  /-- "min_winning_weight_ratio must be in [0.0, 1.0], got …." -/
  | minWinningWeightRatio (got : ℚ)
  /-- "authority_agent_id must not be empty." -/
  | authorityAgentIdEmpty
deriving DecidableEq

/-- A single agent's vote in a consensus round. -/
structure VoteRecord where
  agentId : String
  option : String
  confidence : ℚ := 1
  agentId_nonblank : ¬ Blank agentId
  option_nonblank : ¬ Blank option
  confidence_nonneg : 0 ≤ confidence
  confidence_le_one : confidence ≤ 1

/-- `__post_init__`: the checks in the source's order. -/
def VoteRecord.postInit (agentId option : String) (confidence : ℚ) :
    Except ConsensusError VoteRecord :=
  if ha : Blank agentId then
    .error .agentIdEmpty
  else if ho : Blank option then
    .error .optionEmpty
  else if hc : 0 ≤ confidence ∧ confidence ≤ 1 then
    .ok ⟨agentId, option, confidence, ha, ho, hc.1, hc.2⟩
  else
    .error (.confidence confidence)

/-- Protocol-specific information about a result. -/
inductive ResultMetadata where
  | empty
  /-- `total_weight` and `winning_weight`. -/
  | weights (totalWeight winningWeight : ℚ)
  /-- `authority_overrode` and `authority_id`. -/
  | authority (authorityOverrode : Bool) (authorityId : String)
deriving DecidableEq

/-- Immutable outcome of a consensus round. -/
structure ConsensusResult where
  winningOption : String
  voteCounts : Dict String ℕ
  totalVotes : ℕ
  agreementRatio : ℚ
  reachedConsensus : Bool
  protocolName : String
  decidedAt : ℚ
  metadata : ResultMetadata := .empty
deriving DecidableEq

/-- `_no_consensus_result`. -/
def noConsensusResult (protocolName : String) (decidedAt : ℚ) : ConsensusResult :=
  { winningOption := ""
    voteCounts := .empty
    totalVotes := 0
    agreementRatio := 0
    reachedConsensus := false
    protocolName := protocolName
    decidedAt := decidedAt }

/-- `_tiebreak`, of at least one option. -/
def tiebreak (options : List String) : String := options.min?.getD ""

/-- `Counter(v.option for v in votes)`. -/
def countOptions (votes : List VoteRecord) : Dict String ℕ :=
  .tally VoteRecord.option (fun _ => 1) votes

/-- The votes for an option. -/
def votesFor (votes : List VoteRecord) (option : String) : List VoteRecord :=
  votes.filter fun v => v.option = option

/-! ## Majority vote -/

/-- Simple majority vote consensus. -/
structure MajorityVote where
  requireMajority : Bool := true
deriving DecidableEq

namespace MajorityVote

/-- `name`. -/
def name : String := "majority_vote"

/-- `resolve`. -/
def resolve (protocol : MajorityVote) (decidedAt : ℚ) (votes : List VoteRecord) :
    ConsensusResult :=
  if votes.isEmpty then
    noConsensusResult name decidedAt
  else
    let counts := countOptions votes
    let total := votes.length
    let maxCount := counts.values.max?.getD 0
    let topOptions := counts.keysOf maxCount
    let agreementRatio : ℚ := maxCount / total
    { winningOption := tiebreak topOptions
      voteCounts := counts
      totalVotes := total
      agreementRatio := agreementRatio
      reachedConsensus := !(protocol.requireMajority && decide (agreementRatio ≤ 1 / 2 ∧ 1 < total))
      protocolName := name
      decidedAt := decidedAt }

end MajorityVote

/-! ## Confidence-weighted vote -/

/-- Confidence-weighted consensus, with the bounds that `__init__` checks. -/
structure ConfidenceWeighted where
  minRatio : ℚ := 0
  minRatio_nonneg : 0 ≤ minRatio
  minRatio_le_one : minRatio ≤ 1

namespace ConfidenceWeighted

/-- `__init__`. -/
def init (minWinningWeightRatio : ℚ) : Except ConsensusError ConfidenceWeighted :=
  if h : 0 ≤ minWinningWeightRatio ∧ minWinningWeightRatio ≤ 1 then
    .ok ⟨minWinningWeightRatio, h.1, h.2⟩
  else
    .error (.minWinningWeightRatio minWinningWeightRatio)

/-- `name`. -/
def name : String := "confidence_weighted"

/-- The weight of every option: the confidences of its votes, or its number of votes if all weights
are zero. -/
def weightMap (votes : List VoteRecord) : Dict String ℚ :=
  let weights : Dict String ℚ := .tally VoteRecord.option VoteRecord.confidence votes
  if weights.values.sum = 0 then
    -- Fallback: equal weights.
    (countOptions votes).mapValues fun count : ℕ => (count : ℚ)
  else
    weights

/-- The total weight that goes with `weightMap`. -/
def totalWeight (votes : List VoteRecord) : ℚ :=
  let weights : Dict String ℚ := .tally VoteRecord.option VoteRecord.confidence votes
  if weights.values.sum = 0 then votes.length else weights.values.sum

/-- `resolve`. -/
def resolve (protocol : ConfidenceWeighted) (decidedAt : ℚ) (votes : List VoteRecord) :
    ConsensusResult :=
  if votes.isEmpty then
    noConsensusResult name decidedAt
  else
    let weights := weightMap votes
    let total := totalWeight votes
    let maxWeight := weights.values.max?.getD 0
    let topOptions := weights.keysOf maxWeight
    let agreementRatio := if 0 < total then maxWeight / total else 0
    { winningOption := tiebreak topOptions
      voteCounts := countOptions votes
      totalVotes := votes.length
      agreementRatio := agreementRatio
      reachedConsensus := decide (protocol.minRatio ≤ agreementRatio)
      protocolName := name
      decidedAt := decidedAt
      metadata := .weights total maxWeight }

end ConfidenceWeighted

/-! ## Hierarchical vote -/

/-- Authority-first consensus with majority fallback. -/
structure Hierarchical where
  authorityAgentId : String
  authorityAgentId_nonblank : ¬ Blank authorityAgentId

namespace Hierarchical

/-- `__init__`. -/
def init (authorityAgentId : String) : Except ConsensusError Hierarchical :=
  if h : Blank authorityAgentId then
    .error .authorityAgentIdEmpty
  else
    .ok ⟨authorityAgentId, h⟩

/-- `name`. -/
def name : String := "hierarchical"

/-- `resolve`. -/
def resolve (protocol : Hierarchical) (decidedAt : ℚ) (votes : List VoteRecord) :
    ConsensusResult :=
  if votes.isEmpty then
    noConsensusResult name decidedAt
  else
    let authorityVotes := votes.filter fun v => v.agentId = protocol.authorityAgentId
    let counts := countOptions votes
    let total := votes.length
    -- The last authority vote wins, in case of duplicates.
    match authorityVotes.getLast? with
    | some authorityVote =>
      { winningOption := authorityVote.option
        voteCounts := counts
        totalVotes := total
        agreementRatio := counts.getD authorityVote.option 0 / total
        reachedConsensus := true
        protocolName := name
        decidedAt := decidedAt
        metadata := .authority true protocol.authorityAgentId }
    | none =>
      { MajorityVote.resolve { requireMajority := false } decidedAt votes with
        protocolName := name
        metadata := .authority false protocol.authorityAgentId }

end Hierarchical

/-! ## What the protocols resolve to -/

section Resolve

variable {votes : List VoteRecord} {w : String} {n : ℕ}

/-- The counter has the number of votes for each option. -/
theorem getD_countOptions (votes : List VoteRecord) (w : String) :
    (countOptions votes).getD w 0 = (votesFor votes w).length :=
  Dict.getD_tally_one _ _ _

/-- An option is counted if there is a vote for it, with the number of these. -/
theorem get?_countOptions :
    (countOptions votes).get? w = some n ↔
      votesFor votes w ≠ [] ∧ (votesFor votes w).length = n := by
  have hvote : votesFor votes w ≠ [] ↔ ∃ v ∈ votes, v.option = w := by
    unfold votesFor
    simp
  rw [hvote, ← getD_countOptions]
  exact Dict.get?_tally_eq_some_iff

/-- Some option leads, if there is a vote. -/
theorem exists_leads (h : votes ≠ []) : ∃ w n, (countOptions votes).Leads w n := by
  obtain ⟨v, hv⟩ := List.exists_mem_of_ne_nil votes h
  have hfor : v ∈ votesFor votes v.option := List.mem_filter.mpr ⟨hv, decide_eq_true rfl⟩
  exact Dict.exists_leads (get?_countOptions.mpr ⟨List.ne_nil_of_mem hfor, rfl⟩)

/-- Only where there are votes an option leads. -/
theorem isEmpty_eq_false_of_leads (h : (countOptions votes).Leads w n) : votes.isEmpty = false := by
  rw [List.isEmpty_eq_false_iff]
  rintro rfl
  exact (get?_countOptions.mp h.1).1 rfl

/-- The option that leads by the number of its votes wins. -/
theorem MajorityVote.resolve_of_leads (protocol : MajorityVote) (decidedAt : ℚ)
    (h : (countOptions votes).Leads w n) :
    protocol.resolve decidedAt votes =
      { winningOption := w
        voteCounts := countOptions votes
        totalVotes := votes.length
        agreementRatio := (n : ℚ) / votes.length
        reachedConsensus :=
          !(protocol.requireMajority && decide ((n : ℚ) / votes.length ≤ 1 / 2 ∧ 1 < votes.length))
        protocolName := MajorityVote.name
        decidedAt := decidedAt } := by
  obtain ⟨hmax, hmin⟩ := Dict.leads_iff.mp h
  unfold MajorityVote.resolve tiebreak
  simp only [isEmpty_eq_false_of_leads h, Bool.false_eq_true, if_false, hmax, Option.getD_some,
    hmin]

/-- The option that leads by weight wins. -/
theorem ConfidenceWeighted.resolve_of_leads (protocol : ConfidenceWeighted) (decidedAt : ℚ)
    (hvotes : votes ≠ []) {x : ℚ} (h : (weightMap votes).Leads w x) :
    protocol.resolve decidedAt votes =
      { winningOption := w
        voteCounts := countOptions votes
        totalVotes := votes.length
        agreementRatio := if 0 < totalWeight votes then x / totalWeight votes else 0
        reachedConsensus := decide (protocol.minRatio ≤
          if 0 < totalWeight votes then x / totalWeight votes else 0)
        protocolName := ConfidenceWeighted.name
        decidedAt := decidedAt
        metadata := .weights (totalWeight votes) x } := by
  obtain ⟨hmax, hmin⟩ := Dict.leads_iff.mp h
  have hsome : votes.isEmpty = false := List.isEmpty_eq_false_iff.mpr hvotes
  unfold ConfidenceWeighted.resolve tiebreak
  simp only [hsome, Bool.false_eq_true, if_false, hmax, Option.getD_some, hmin]

end Resolve

end MeshRouter.Consensus
