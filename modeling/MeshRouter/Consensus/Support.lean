import Mathlib.Algebra.Order.BigOperators.Group.List
import MeshRouter.Consensus.Order

/-!
# One more vote for the winner

A vote for the option that wins anyway does not make it lose, and does not undo a consensus
(`Keeps`). The leading option of a tally still leads with more weight, and a fraction only grows
when the same is added to both of its parts.

Two steps are not of this kind. `ConfidenceWeighted` counts votes while all weights are zero, and
the first vote with some weight is then all weight that there is (`leads_first_weight`). And
`Hierarchical` turns from the counts to its authority when that votes for the first time.
-/

namespace MeshRouter.Consensus

open Lib
open ConfidenceWeighted (weightMap totalWeight)

/-- The result after another vote has the same winner, and consensus is not lost. -/
structure Keeps (before after : ConsensusResult) : Prop where
  winningOption : after.winningOption = before.winningOption
  reachedConsensus : before.reachedConsensus = true → after.reachedConsensus = true

variable {votes : List VoteRecord} {vote : VoteRecord}

/-- No vote is for the winner of an empty list, which has none. -/
theorem VoteRecord.option_ne_empty (vote : VoteRecord) : vote.option ≠ "" := by
  intro h
  have hblank : Blank "" := by decide
  exact vote.option_nonblank (h ▸ hblank)

/-! ## Majority vote -/

/-- The votes for the option of one more vote. -/
theorem length_votesFor_concat (votes : List VoteRecord) (vote : VoteRecord) :
    (votesFor (votes ++ [vote]) vote.option).length = (votesFor votes vote.option).length + 1 := by
  simp [votesFor]

/-- One more vote for the option with the most votes. -/
theorem MostVoted.concat (h : MostVoted votes vote.option) :
    MostVoted (votes ++ [vote]) vote.option := by
  rw [mostVoted_iff] at h ⊢
  rw [length_votesFor_concat]
  exact h.tally_concat (Nat.zero_le 1)

/-- One more vote for the option with a majority. -/
theorem HasMajority.concat (h : HasMajority votes vote.option) :
    HasMajority (votes ++ [vote]) vote.option := by
  unfold HasMajority at h ⊢
  rw [length_votesFor_concat, List.length_append, List.length_singleton]
  omega

/-- A plurality is enough where no majority is required. -/
theorem MajorityVote.reachedConsensus_of_plurality (decidedAt : ℚ) (hvotes : votes ≠ []) :
    (MajorityVote.resolve { requireMajority := false } decidedAt votes).reachedConsensus =
      true := by
  obtain ⟨w, n, hleads⟩ := exists_leads hvotes
  rw [MajorityVote.resolve_of_leads _ decidedAt hleads]
  rfl

/-- `MajorityVote` keeps its winner, in either mode. -/
theorem MajorityVote.keeps (protocol : MajorityVote) (decidedAt decidedAt' : ℚ)
    (h : vote.option = (protocol.resolve decidedAt votes).winningOption) :
    Keeps (protocol.resolve decidedAt votes)
      (protocol.resolve decidedAt' (votes ++ [vote])) := by
  have hvotes : votes ≠ [] := by
    rintro rfl
    exact vote.option_ne_empty h
  have hafter : votes ++ [vote] ≠ [] := List.append_ne_nil_of_right_ne_nil _ (List.cons_ne_nil _ _)
  have hmost : MostVoted votes vote.option :=
    (protocol.winningOption_eq_iff decidedAt hvotes).mp h.symm
  refine ⟨?_, fun hreached => ?_⟩
  · exact ((protocol.winningOption_eq_iff decidedAt' hafter).mpr hmost.concat).trans h
  · obtain ⟨_ | _⟩ := protocol
    · exact MajorityVote.reachedConsensus_of_plurality decidedAt' hafter
    · obtain ⟨u, hu⟩ := (MajorityVote.reachedConsensus_iff decidedAt hvotes).mp hreached
      have hwin : u = vote.option :=
        ((MajorityVote.winningOption_eq_iff _ decidedAt hvotes).mpr hu.mostVoted).symm.trans h.symm
      subst hwin
      exact (MajorityVote.reachedConsensus_iff decidedAt' hafter).mpr ⟨vote.option, hu.concat⟩

/-! ## Confidence-weighted vote -/

/-- A fraction grows by adding the same to both of its parts. -/
theorem div_le_add_div_add {a b c : ℚ} (hb : 0 < b) (hle : a ≤ b) (hc : 0 ≤ c) :
    a / b ≤ (a + c) / (b + c) := by
  rw [div_le_div_iff₀ hb (add_pos_of_pos_of_nonneg hb hc), mul_add, add_mul]
  have hmul : a * c ≤ c * b := (mul_comm a c) ▸ mul_le_mul_of_nonneg_left hle hc
  exact add_le_add_right hmul (a * b)

/-- The weight that the confidences of votes add up to is not negative. -/
theorem sum_confidence_nonneg (votes : List VoteRecord) :
    0 ≤ (votes.map VoteRecord.confidence).sum := by
  refine List.sum_nonneg fun x hx => ?_
  obtain ⟨v, -, rfl⟩ := List.mem_map.mp hx
  exact v.confidence_nonneg

/-- The weight of an option is that of the votes for it. -/
theorem getD_weights (votes : List VoteRecord) (w : String) :
    (Dict.tally VoteRecord.option VoteRecord.confidence votes).getD w 0 =
      ((votesFor votes w).map VoteRecord.confidence).sum :=
  Dict.getD_tally _ _ _ _

/-- An option has no more weight than all options together. -/
theorem getD_weights_le (votes : List VoteRecord) (w : String) :
    (Dict.tally VoteRecord.option VoteRecord.confidence votes).getD w 0 ≤
      (votes.map VoteRecord.confidence).sum := by
  rw [getD_weights]
  refine (List.filter_sublist.map VoteRecord.confidence).sum_le_sum fun x hx => ?_
  obtain ⟨v, -, rfl⟩ := List.mem_map.mp hx
  exact v.confidence_nonneg

/-- With some weight, `resolve` compares the weights. -/
theorem weights_of_sum_pos (h : 0 < (votes.map VoteRecord.confidence).sum) :
    weightMap votes = .tally VoteRecord.option VoteRecord.confidence votes ∧
      totalWeight votes = (votes.map VoteRecord.confidence).sum := by
  unfold ConfidenceWeighted.weightMap ConfidenceWeighted.totalWeight
  simp only [sum_weights, h.ne', if_false, and_self]

/-- Without any weight, `resolve` falls back to the counts. -/
theorem weights_of_sum_eq_zero (h : (votes.map VoteRecord.confidence).sum = 0) :
    weightMap votes = (countOptions votes).mapValues (fun count : ℕ => (count : ℚ)) ∧
      totalWeight votes = votes.length := by
  unfold ConfidenceWeighted.weightMap ConfidenceWeighted.totalWeight
  simp only [sum_weights, h, if_true, and_self]

/-- The total that the ratio divides by is positive. -/
theorem totalWeight_pos (hvotes : votes ≠ []) : 0 < totalWeight votes := by
  rcases (sum_confidence_nonneg votes).lt_or_eq with hpos | hzero
  · rw [(weights_of_sum_pos hpos).2]
    exact hpos
  · rw [(weights_of_sum_eq_zero hzero.symm).2]
    exact_mod_cast List.length_pos_iff.mpr hvotes

/-- The leading option has at most all of the weight. -/
theorem le_totalWeight_of_leads {w : String} {x : ℚ} (h : (weightMap votes).Leads w x) :
    x ≤ totalWeight votes := by
  rcases (sum_confidence_nonneg votes).lt_or_eq with hpos | hzero
  · rw [(weights_of_sum_pos hpos).1] at h
    rw [(weights_of_sum_pos hpos).2, ← (Dict.get?_tally_eq_some_iff.mp h.1).2]
    exact getD_weights_le votes w
  · rw [(weights_of_sum_eq_zero hzero.symm).1] at h
    rw [(weights_of_sum_eq_zero hzero.symm).2]
    have hget := h.1
    rw [Dict.get?_mapValues] at hget
    obtain ⟨n, hn, rfl⟩ := Option.map_eq_some_iff.mp hget
    obtain ⟨-, rfl⟩ := get?_countOptions.mp hn
    exact_mod_cast List.length_filter_le _ _

/-- The first vote with some weight leads with it, and it is all weight that there is. -/
theorem leads_first_weight (hzero : (votes.map VoteRecord.confidence).sum = 0)
    (hvote : 0 < vote.confidence) :
    (weightMap (votes ++ [vote])).Leads vote.option vote.confidence ∧
      totalWeight (votes ++ [vote]) = vote.confidence := by
  have hsum : ((votes ++ [vote]).map VoteRecord.confidence).sum = vote.confidence := by
    rw [List.map_append, List.sum_append, hzero, List.map_singleton, List.sum_singleton, zero_add]
  -- No option has had any weight.
  have hnone : ∀ w,
      (Dict.tally VoteRecord.option VoteRecord.confidence votes).getD w 0 = 0 := by
    intro w
    refine (hzero ▸ getD_weights_le votes w).antisymm ?_
    rw [getD_weights]
    exact sum_confidence_nonneg (votesFor votes w)
  have hpos : 0 < ((votes ++ [vote]).map VoteRecord.confidence).sum := hsum ▸ hvote
  obtain ⟨hmap, htotal⟩ := weights_of_sum_pos hpos
  rw [hmap, htotal, hsum, Dict.tally_concat, hnone, zero_add]
  refine ⟨Dict.leads_set_of_lt fun w x hx => ?_, rfl⟩
  rw [← (Dict.get?_tally_eq_some_iff.mp hx).2, hnone]
  exact hvote

/-- A vote for the leading option leaves it leading. The weights of the vote and its share of the
total are those of the confidences, or of the counts in the fallback, if it does not end it. -/
theorem leads_same_weight {x : ℚ} (hleads : (weightMap votes).Leads vote.option x)
    (hsame : (votes.map VoteRecord.confidence).sum = 0 → vote.confidence = 0) :
    ∃ y, 0 ≤ y ∧ (weightMap (votes ++ [vote])).Leads vote.option (x + y) ∧
      totalWeight (votes ++ [vote]) = totalWeight votes + y := by
  have hsum : ((votes ++ [vote]).map VoteRecord.confidence).sum =
      (votes.map VoteRecord.confidence).sum + vote.confidence := by
    rw [List.map_append, List.sum_append, List.map_singleton, List.sum_singleton]
  rcases (sum_confidence_nonneg votes).lt_or_eq with hpos | hzero
  · obtain ⟨hmap, htotal⟩ := weights_of_sum_pos hpos
    have hpos' : 0 < ((votes ++ [vote]).map VoteRecord.confidence).sum :=
      hsum ▸ add_pos_of_pos_of_nonneg hpos vote.confidence_nonneg
    obtain ⟨hmap', htotal'⟩ := weights_of_sum_pos hpos'
    rw [hmap] at hleads
    rw [hmap', htotal', hsum, htotal]
    exact ⟨vote.confidence, vote.confidence_nonneg, hleads.tally_concat vote.confidence_nonneg,
      rfl⟩
  · obtain ⟨hmap, htotal⟩ := weights_of_sum_eq_zero hzero.symm
    have hzero' : ((votes ++ [vote]).map VoteRecord.confidence).sum = 0 := by
      rw [hsum, ← hzero, hsame hzero.symm, zero_add]
    obtain ⟨hmap', htotal'⟩ := weights_of_sum_eq_zero hzero'
    have hvotes : votes ≠ [] := by
      rintro rfl
      cases hleads.1
    -- The option that leads by weight leads the counter.
    obtain ⟨w, n, hcounts⟩ := exists_leads hvotes
    rw [hmap] at hleads
    obtain ⟨rfl, rfl⟩ := hleads.unique (hcounts.mapValues Nat.strictMono_cast)
    refine ⟨1, zero_le_one, ?_, ?_⟩
    · have hafter : (countOptions (votes ++ [vote])).Leads vote.option (n + 1) :=
        hcounts.tally_concat (Nat.zero_le 1)
      rw [hmap', ← Nat.cast_add_one]
      exact hafter.mapValues Nat.strictMono_cast
    · rw [htotal', htotal, List.length_append, List.length_singleton]
      push_cast
      rfl

/-- `ConfidenceWeighted` keeps its winner, in or out of the fallback. -/
theorem ConfidenceWeighted.keeps (protocol : ConfidenceWeighted) (decidedAt decidedAt' : ℚ)
    (h : vote.option = (protocol.resolve decidedAt votes).winningOption) :
    Keeps (protocol.resolve decidedAt votes)
      (protocol.resolve decidedAt' (votes ++ [vote])) := by
  have hvotes : votes ≠ [] := by
    rintro rfl
    exact vote.option_ne_empty h
  have hafter : votes ++ [vote] ≠ [] := List.append_ne_nil_of_right_ne_nil _ (List.cons_ne_nil _ _)
  have htotal := totalWeight_pos hvotes
  obtain ⟨w, x, hleads⟩ := exists_leads_weightMap hvotes
  have hbefore := protocol.resolve_of_leads decidedAt hvotes hleads
  rw [hbefore] at h ⊢
  dsimp only at h
  subst h
  by_cases hfirst : (votes.map VoteRecord.confidence).sum = 0 ∧ vote.confidence ≠ 0
  · -- The vote ends the fallback, and the ratio is one.
    have hpos : 0 < vote.confidence := vote.confidence_nonneg.lt_of_ne' hfirst.2
    obtain ⟨hleads', htotal'⟩ := leads_first_weight hfirst.1 hpos
    rw [protocol.resolve_of_leads decidedAt' hafter hleads', htotal', if_pos hpos,
      div_self hfirst.2]
    exact ⟨rfl, fun _ => decide_eq_true protocol.minRatio_le_one⟩
  · have hsame : (votes.map VoteRecord.confidence).sum = 0 → vote.confidence = 0 := fun hzero =>
      of_not_not fun hne => hfirst ⟨hzero, hne⟩
    obtain ⟨y, hy, hleads', htotal'⟩ := leads_same_weight hleads hsame
    rw [protocol.resolve_of_leads decidedAt' hafter hleads', htotal', if_pos htotal,
      if_pos (add_pos_of_pos_of_nonneg htotal hy)]
    refine ⟨rfl, fun hreached => decide_eq_true ?_⟩
    exact (of_decide_eq_true hreached).trans
      (div_le_add_div_add htotal (le_totalWeight_of_leads hleads) hy)

/-! ## Hierarchical vote -/

/-- `Hierarchical` keeps its winner, whether the authority had voted, votes now or does not. -/
theorem Hierarchical.keeps (protocol : Hierarchical) (decidedAt decidedAt' : ℚ)
    (h : vote.option = (protocol.resolve decidedAt votes).winningOption) :
    Keeps (protocol.resolve decidedAt votes)
      (protocol.resolve decidedAt' (votes ++ [vote])) := by
  have hvotes : votes ≠ [] := by
    rintro rfl
    exact vote.option_ne_empty h
  have hafter : votes ++ [vote] ≠ [] := List.append_ne_nil_of_right_ne_nil _ (List.cons_ne_nil _ _)
  by_cases hvote : vote.agentId = protocol.authorityAgentId
  · have hlast : (protocol.authorityVotes (votes ++ [vote])).getLast? = some vote := by
      simp [Hierarchical.authorityVotes, hvote]
    rw [protocol.resolve_of_authority decidedAt' hlast]
    exact ⟨h, fun _ => rfl⟩
  · have hsame : protocol.authorityVotes (votes ++ [vote]) = protocol.authorityVotes votes := by
      simp [Hierarchical.authorityVotes, hvote]
    cases hlast : (protocol.authorityVotes votes).getLast? with
    | some v =>
      rw [protocol.resolve_of_authority decidedAt hlast,
        protocol.resolve_of_authority decidedAt' (hsame ▸ hlast)]
      exact ⟨rfl, fun _ => rfl⟩
    | none =>
      rw [protocol.resolve_of_no_authority decidedAt hvotes hlast] at h ⊢
      rw [protocol.resolve_of_no_authority decidedAt' hafter (hsame ▸ hlast)]
      have hkeeps := MajorityVote.keeps { requireMajority := false } decidedAt decidedAt' h
      exact ⟨hkeeps.winningOption, hkeeps.reachedConsensus⟩

/-- For every list of votes, protocol and one more vote, of any agent and with any confidence, for
the option that wins: it wins again, and consensus that was reached is still reached. -/
theorem support_keeps_winner (decidedAt decidedAt' : ℚ) (votes : List VoteRecord)
    (vote : VoteRecord) :
    (∀ protocol : MajorityVote, vote.option = (protocol.resolve decidedAt votes).winningOption →
        Keeps (protocol.resolve decidedAt votes)
          (protocol.resolve decidedAt' (votes ++ [vote]))) ∧
      (∀ protocol : ConfidenceWeighted,
        vote.option = (protocol.resolve decidedAt votes).winningOption →
          Keeps (protocol.resolve decidedAt votes)
            (protocol.resolve decidedAt' (votes ++ [vote]))) ∧
      ∀ protocol : Hierarchical, vote.option = (protocol.resolve decidedAt votes).winningOption →
        Keeps (protocol.resolve decidedAt votes)
          (protocol.resolve decidedAt' (votes ++ [vote])) :=
  ⟨fun protocol => protocol.keeps decidedAt decidedAt',
    fun protocol => protocol.keeps decidedAt decidedAt',
    fun protocol => protocol.keeps decidedAt decidedAt'⟩

/-- One more vote of the second agent, for the option that two of three votes are for. -/
theorem support_keeps_winner_voteTwice :
    Keeps (MajorityVote.resolve { requireMajority := true } 0 voteTwice)
      (MajorityVote.resolve { requireMajority := true } 1
        (voteTwice ++ [⟨"b", "yes", 1, b_nonblank, yes_nonblank, full_nonneg, full_le_one⟩])) := by
  refine (support_keeps_winner 0 1 voteTwice _).1 { requireMajority := true } ?_
  decide +kernel

end MeshRouter.Consensus
