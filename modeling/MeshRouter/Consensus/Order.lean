import MeshRouter.Consensus.Voters

/-!
# Votes in any order

A resolution is a function of how many votes there are for each option, or of how much weight, and
so does not depend on the order of the votes: neither the winner of a tie nor the ratio does
(`SameOutcome`). Only the authority of `Hierarchical` is heard in order, since its last vote
decides.

With `require_majority`, consensus is that some option has more than half of the votes
(`HasMajority`). No two options have, and the one that has is the one with the most votes.
-/

namespace MeshRouter.Consensus

open Lib
open ConfidenceWeighted (weightMap totalWeight)

/-- The option has strictly more than half of the votes. -/
def HasMajority (votes : List VoteRecord) (w : String) : Prop :=
  votes.length < 2 * (votesFor votes w).length

/-- The counts of a result add up to the number of votes. -/
def CountsAddUp (result : ConsensusResult) : Prop :=
  result.voteCounts.values.sum = result.totalVotes

/-- Two results that agree, the insertion order of the counts apart. -/
structure SameOutcome (result result' : ConsensusResult) : Prop where
  winningOption : result.winningOption = result'.winningOption
  voteCounts : ∀ w, result.voteCounts.get? w = result'.voteCounts.get? w
  totalVotes : result.totalVotes = result'.totalVotes
  agreementRatio : result.agreementRatio = result'.agreementRatio
  reachedConsensus : result.reachedConsensus = result'.reachedConsensus

/-- The authority's own votes, in their order. -/
def Hierarchical.authorityVotes (protocol : Hierarchical) (votes : List VoteRecord) :
    List VoteRecord :=
  votes.filter fun v => v.agentId = protocol.authorityAgentId

variable {votes votes' : List VoteRecord} {v : VoteRecord} {w : String}

/-! ## Majorities -/

/-- Votes for two options are different votes. -/
theorem length_votesFor_add_le {u : String} (h : u ≠ w) :
    (votesFor votes u).length + (votesFor votes w).length ≤ votes.length := by
  have hsub : (votesFor votes u).Sublist (votes.filter fun v => !decide (v.option = w)) := by
    refine List.monotone_filter_right votes fun v hv => ?_
    have hu : v.option = u := of_decide_eq_true hv
    rw [Bool.not_eq_true', decide_eq_false_iff_not, hu]
    exact h
  have hsplit := List.length_eq_length_filter_add (l := votes) fun v => decide (v.option = w)
  have hle := hsub.length_le
  unfold votesFor at hle ⊢
  omega

/-- An option with a majority has the most votes. -/
theorem HasMajority.mostVoted (h : HasMajority votes w) : MostVoted votes w := by
  unfold HasMajority at h
  refine ⟨fun hnone => ?_, fun v _ => ?_⟩
  · rw [hnone] at h
    exact absurd h (Nat.not_lt_zero _)
  · by_cases hv : v.option = w
    · exact .inr ⟨by rw [hv], hv.symm.le⟩
    · have hle : (votesFor votes v.option).length + (votesFor votes w).length ≤ votes.length :=
        length_votesFor_add_le hv
      exact .inl (by omega)

/-- The option with the most votes wins, in either mode. -/
theorem MajorityVote.winningOption_eq_iff (protocol : MajorityVote) (decidedAt : ℚ)
    (hvotes : votes ≠ []) :
    (protocol.resolve decidedAt votes).winningOption = w ↔ MostVoted votes w := by
  obtain ⟨u, n, hleads⟩ := exists_leads hvotes
  have hwin : (protocol.resolve decidedAt votes).winningOption = u := by
    rw [protocol.resolve_of_leads decidedAt hleads]
  obtain ⟨-, rfl⟩ := get?_countOptions.mp hleads.1
  rw [hwin]
  constructor
  · rintro rfl
    exact mostVoted_iff.mpr hleads
  · intro hmost
    exact (hleads.unique (mostVoted_iff.mp hmost)).1

/-- With `require_majority`, consensus is a majority of the votes. A single vote is one. -/
theorem MajorityVote.reachedConsensus_iff (decidedAt : ℚ) (hvotes : votes ≠ []) :
    (MajorityVote.resolve { requireMajority := true } decidedAt votes).reachedConsensus = true ↔
      ∃ w, HasMajority votes w := by
  obtain ⟨w, n, hleads⟩ := exists_leads hvotes
  obtain ⟨hfor, rfl⟩ := get?_countOptions.mp hleads.1
  have hn : 0 < (votesFor votes w).length := List.length_pos_iff.mpr hfor
  have hle : (votesFor votes w).length ≤ votes.length := List.length_filter_le _ _
  rw [MajorityVote.resolve_of_leads _ decidedAt hleads, Bool.true_and, Bool.not_eq_true',
    decide_eq_false_iff_not]
  constructor
  · intro hreached
    exact ⟨w, majority_of_ratio_le hn hle (hn.trans_le hle) (le_refl _) hreached⟩
  · rintro ⟨u, hu⟩ ⟨hhalf, -⟩
    -- The option with a majority is the one that leads.
    obtain rfl : u = w := (Dict.Leads.unique (mostVoted_iff.mp hu.mostVoted) hleads).1
    have hlength : (0 : ℚ) < votes.length := by exact_mod_cast hn.trans_le hle
    rw [div_le_div_iff₀ hlength two_pos, one_mul] at hhalf
    have hlt : (votes.length : ℚ) < 2 * (votesFor votes u).length := by exact_mod_cast hu
    linarith

/-! ## Weights -/

/-- Some option leads by weight, if there is a vote. -/
theorem exists_leads_weightMap (hvotes : votes ≠ []) : ∃ w x, (weightMap votes).Leads w x := by
  obtain ⟨v, hv⟩ := List.exists_mem_of_ne_nil votes hvotes
  have hmem : v.option ∈ (weightMap votes).keys := by
    unfold ConfidenceWeighted.weightMap
    dsimp only
    split_ifs
    · rw [Dict.keys_mapValues]
      exact (Dict.mem_keys_tally _).mpr ⟨v, hv, rfl⟩
    · exact (Dict.mem_keys_tally _).mpr ⟨v, hv, rfl⟩
  obtain ⟨x, hx⟩ := Dict.mem_keys_iff.mp hmem
  exact Dict.exists_leads hx

/-- All weight is that of the confidences. -/
theorem sum_weights (votes : List VoteRecord) :
    (Dict.tally VoteRecord.option VoteRecord.confidence votes).values.sum =
      (votes.map VoteRecord.confidence).sum :=
  Dict.sum_values_tally _ _ _

/-! ## Permutations -/

/-- The counts do not depend on the order of the votes. -/
theorem get?_countOptions_of_perm (h : votes.Perm votes') (w : String) :
    (countOptions votes).get? w = (countOptions votes').get? w :=
  Dict.get?_tally_of_perm h w

/-- Nor do the weights. -/
theorem get?_weightMap_of_perm (h : votes.Perm votes') (w : String) :
    (weightMap votes).get? w = (weightMap votes').get? w := by
  unfold ConfidenceWeighted.weightMap
  simp only [sum_weights, (h.map VoteRecord.confidence).sum_eq]
  split_ifs
  · rw [Dict.get?_mapValues, Dict.get?_mapValues, get?_countOptions_of_perm h]
  · exact Dict.get?_tally_of_perm h w

/-- Nor does their total. -/
theorem totalWeight_of_perm (h : votes.Perm votes') : totalWeight votes = totalWeight votes' := by
  unfold ConfidenceWeighted.totalWeight
  simp only [sum_weights, (h.map VoteRecord.confidence).sum_eq, h.length_eq]

/-- `MajorityVote` on the votes in another order. -/
theorem MajorityVote.resolve_of_perm (protocol : MajorityVote) (decidedAt decidedAt' : ℚ)
    (h : votes.Perm votes') :
    SameOutcome (protocol.resolve decidedAt votes) (protocol.resolve decidedAt' votes') := by
  by_cases hvotes : votes = []
  · obtain rfl : votes' = [] := (hvotes ▸ h).nil_eq.symm
    subst hvotes
    exact ⟨rfl, fun _ => rfl, rfl, rfl, rfl⟩
  obtain ⟨w, n, hleads⟩ := exists_leads hvotes
  have hleads' := hleads.congr (get?_countOptions_of_perm h)
  rw [protocol.resolve_of_leads decidedAt hleads, protocol.resolve_of_leads decidedAt' hleads',
    h.length_eq]
  exact ⟨rfl, get?_countOptions_of_perm h, rfl, rfl, rfl⟩

/-- `ConfidenceWeighted` on the votes in another order. -/
theorem ConfidenceWeighted.resolve_of_perm (protocol : ConfidenceWeighted)
    (decidedAt decidedAt' : ℚ) (h : votes.Perm votes') :
    SameOutcome (protocol.resolve decidedAt votes) (protocol.resolve decidedAt' votes') := by
  by_cases hvotes : votes = []
  · obtain rfl : votes' = [] := (hvotes ▸ h).nil_eq.symm
    subst hvotes
    exact ⟨rfl, fun _ => rfl, rfl, rfl, rfl⟩
  have hvotes' : votes' ≠ [] := fun hnil => hvotes (h.trans (hnil ▸ List.Perm.nil)).eq_nil
  obtain ⟨w, x, hleads⟩ := exists_leads_weightMap hvotes
  have hleads' := hleads.congr (get?_weightMap_of_perm h)
  rw [protocol.resolve_of_leads decidedAt hvotes hleads,
    protocol.resolve_of_leads decidedAt' hvotes' hleads', h.length_eq, totalWeight_of_perm h]
  exact ⟨rfl, get?_countOptions_of_perm h, rfl, rfl, rfl⟩

/-! ## The authority -/

/-- The last vote of the authority decides. -/
theorem Hierarchical.resolve_of_authority (protocol : Hierarchical) (decidedAt : ℚ)
    (h : (protocol.authorityVotes votes).getLast? = some v) :
    protocol.resolve decidedAt votes =
      { winningOption := v.option
        voteCounts := countOptions votes
        totalVotes := votes.length
        agreementRatio := (countOptions votes).getD v.option 0 / votes.length
        reachedConsensus := true
        protocolName := Hierarchical.name
        decidedAt := decidedAt
        metadata := .authority true protocol.authorityAgentId } := by
  have hsome : votes.isEmpty = false := by
    rw [List.isEmpty_eq_false_iff]
    rintro rfl
    cases h
  unfold Hierarchical.authorityVotes at h
  unfold Hierarchical.resolve
  simp only [hsome, Bool.false_eq_true, if_false, h]

/-- Without one the most votes decide. -/
theorem Hierarchical.resolve_of_no_authority (protocol : Hierarchical) (decidedAt : ℚ)
    (hvotes : votes ≠ []) (h : (protocol.authorityVotes votes).getLast? = none) :
    protocol.resolve decidedAt votes =
      { MajorityVote.resolve { requireMajority := false } decidedAt votes with
        protocolName := Hierarchical.name
        metadata := .authority false protocol.authorityAgentId } := by
  have hsome : votes.isEmpty = false := List.isEmpty_eq_false_iff.mpr hvotes
  unfold Hierarchical.authorityVotes at h
  unfold Hierarchical.resolve
  simp only [hsome, Bool.false_eq_true, if_false, h]

/-- `Hierarchical` on the votes in another order, but that of the authority's own. -/
theorem Hierarchical.resolve_of_perm (protocol : Hierarchical) (decidedAt decidedAt' : ℚ)
    (h : votes.Perm votes')
    (hauthority : protocol.authorityVotes votes = protocol.authorityVotes votes') :
    SameOutcome (protocol.resolve decidedAt votes) (protocol.resolve decidedAt' votes') := by
  by_cases hvotes : votes = []
  · obtain rfl : votes' = [] := (hvotes ▸ h).nil_eq.symm
    subst hvotes
    exact ⟨rfl, fun _ => rfl, rfl, rfl, rfl⟩
  have hvotes' : votes' ≠ [] := fun hnil => hvotes (h.trans (hnil ▸ List.Perm.nil)).eq_nil
  have hcounts := get?_countOptions_of_perm h
  cases hlast : (protocol.authorityVotes votes).getLast? with
  | some v =>
    rw [protocol.resolve_of_authority decidedAt hlast,
      protocol.resolve_of_authority decidedAt' (hauthority ▸ hlast), h.length_eq]
    exact ⟨rfl, hcounts, rfl, by simp only [Dict.getD, hcounts], rfl⟩
  | none =>
    have hplurality :=
      MajorityVote.resolve_of_perm { requireMajority := false } decidedAt decidedAt' h
    rw [protocol.resolve_of_no_authority decidedAt hvotes hlast,
      protocol.resolve_of_no_authority decidedAt' hvotes' (hauthority ▸ hlast)]
    exact ⟨hplurality.winningOption, hplurality.voteCounts, hplurality.totalVotes,
      hplurality.agreementRatio, hplurality.reachedConsensus⟩

/-! ## The specification -/

/-- Each vote counts for one option. -/
theorem sum_countOptions (votes : List VoteRecord) :
    (countOptions votes).values.sum = votes.length := by
  unfold countOptions
  rw [Dict.sum_values_tally, List.map_const', List.sum_replicate_nat, Nat.mul_one]

/-- The counts of `MajorityVote` add up. -/
theorem MajorityVote.countsAddUp (protocol : MajorityVote) (decidedAt : ℚ) (hvotes : votes ≠ []) :
    CountsAddUp (protocol.resolve decidedAt votes) := by
  obtain ⟨w, n, hleads⟩ := exists_leads hvotes
  rw [protocol.resolve_of_leads decidedAt hleads]
  exact sum_countOptions votes

/-- The counts of `ConfidenceWeighted` are of votes, not of weights. -/
theorem ConfidenceWeighted.countsAddUp (protocol : ConfidenceWeighted) (decidedAt : ℚ)
    (hvotes : votes ≠ []) : CountsAddUp (protocol.resolve decidedAt votes) := by
  obtain ⟨w, x, hleads⟩ := exists_leads_weightMap hvotes
  rw [protocol.resolve_of_leads decidedAt hvotes hleads]
  exact sum_countOptions votes

/-- The counts of `Hierarchical` are of all votes, not only of the authority's. -/
theorem Hierarchical.countsAddUp (protocol : Hierarchical) (decidedAt : ℚ) (hvotes : votes ≠ []) :
    CountsAddUp (protocol.resolve decidedAt votes) := by
  cases hlast : (protocol.authorityVotes votes).getLast? with
  | some v =>
    rw [protocol.resolve_of_authority decidedAt hlast]
    exact sum_countOptions votes
  | none =>
    rw [protocol.resolve_of_no_authority decidedAt hvotes hlast]
    exact MajorityVote.countsAddUp { requireMajority := false } decidedAt hvotes

/-- For every list of votes that is not empty: with `require_majority`, consensus is reached exactly
if some option has more than half of the votes, and that option then wins; in either mode the winner
is the least option with the most votes; the counts add up to the number of votes; and another order
of the votes changes nothing, as long as it is not the order of the authority's own votes for
`Hierarchical`. -/
theorem resolution_by_count (decidedAt : ℚ) {votes : List VoteRecord} (hvotes : votes ≠ []) :
    ((MajorityVote.resolve { requireMajority := true } decidedAt votes).reachedConsensus = true ↔
        ∃ w, HasMajority votes w) ∧
      (∀ w, HasMajority votes w → (MajorityVote.resolve { requireMajority := true } decidedAt
        votes).winningOption = w) ∧
      (∀ protocol : MajorityVote,
        MostVoted votes (protocol.resolve decidedAt votes).winningOption) ∧
      ((∀ protocol : MajorityVote, CountsAddUp (protocol.resolve decidedAt votes)) ∧
        (∀ protocol : ConfidenceWeighted, CountsAddUp (protocol.resolve decidedAt votes)) ∧
        ∀ protocol : Hierarchical, CountsAddUp (protocol.resolve decidedAt votes)) ∧
      ∀ (decidedAt' : ℚ) (votes' : List VoteRecord), votes.Perm votes' →
        (∀ protocol : MajorityVote, SameOutcome (protocol.resolve decidedAt votes)
          (protocol.resolve decidedAt' votes')) ∧
        (∀ protocol : ConfidenceWeighted, SameOutcome (protocol.resolve decidedAt votes)
          (protocol.resolve decidedAt' votes')) ∧
        ∀ protocol : Hierarchical,
          protocol.authorityVotes votes = protocol.authorityVotes votes' →
            SameOutcome (protocol.resolve decidedAt votes)
              (protocol.resolve decidedAt' votes') := by
  refine ⟨MajorityVote.reachedConsensus_iff decidedAt hvotes, fun w hw => ?_, fun protocol => ?_,
    ⟨fun protocol => protocol.countsAddUp decidedAt hvotes,
      fun protocol => protocol.countsAddUp decidedAt hvotes,
      fun protocol => protocol.countsAddUp decidedAt hvotes⟩, fun decidedAt' votes' hperm => ?_⟩
  · exact (MajorityVote.winningOption_eq_iff _ decidedAt hvotes).mpr hw.mostVoted
  · exact (protocol.winningOption_eq_iff decidedAt hvotes).mp rfl
  · exact ⟨fun protocol => protocol.resolve_of_perm decidedAt decidedAt' hperm,
      fun protocol => protocol.resolve_of_perm decidedAt decidedAt' hperm,
      fun protocol => protocol.resolve_of_perm decidedAt decidedAt' hperm⟩

/-- Two of the three votes make a majority, in whatever order they are cast. -/
theorem resolution_by_count_voteTwice :
    (MajorityVote.resolve { requireMajority := true } 0 voteTwice).reachedConsensus = true ∧
      (MajorityVote.resolve { requireMajority := true } 0 voteTwice).winningOption = "yes" ∧
      SameOutcome (MajorityVote.resolve { requireMajority := true } 0 voteTwice)
        (MajorityVote.resolve { requireMajority := true } 1 voteTwice.reverse) := by
  have hvotes : voteTwice ≠ [] := List.cons_ne_nil _ _
  have hyes : HasMajority voteTwice "yes" := by
    unfold HasMajority
    decide
  obtain ⟨hreached, hwin, -, -, horder⟩ := resolution_by_count 0 hvotes
  exact ⟨hreached.mpr ⟨"yes", hyes⟩, hwin "yes" hyes,
    (horder 1 voteTwice.reverse (List.reverse_perm voteTwice).symm).1 _⟩

end MeshRouter.Consensus
