import MeshRouter.Consensus.Support

/-!
# Votes of one confidence

If every vote has the same confidence, weighing the votes is counting them. Where that confidence is
zero no option has any weight, and `ConfidenceWeighted` falls back to the counts. Otherwise the
weights are the counts times the confidence, so that the same option leads, with the same share of
the total (`leads_equal_confidence`).
-/

namespace MeshRouter.Consensus

open Lib
open ConfidenceWeighted (weightMap totalWeight)

variable {votes : List VoteRecord} {c : ℚ} {w : String} {n : ℕ}

/-- The confidences of the votes add up to a multiple of the common one. -/
theorem sum_equal_confidence (h : ∀ v ∈ votes, v.confidence = c) :
    (votes.map VoteRecord.confidence).sum = votes.length • c := by
  rw [List.map_congr_left h, List.map_const', List.sum_replicate]

/-- The option with the most votes has the greatest weight, and its share of the total weight is its
share of the votes. -/
theorem leads_equal_confidence (hvotes : votes ≠ []) (h : ∀ v ∈ votes, v.confidence = c)
    (hleads : (countOptions votes).Leads w n) :
    ∃ x, (weightMap votes).Leads w x ∧ x / totalWeight votes = (n : ℚ) / votes.length := by
  have hlength : 0 < votes.length := List.length_pos_iff.mpr hvotes
  obtain ⟨v, hv⟩ := List.exists_mem_of_ne_nil votes hvotes
  have hc : 0 ≤ c := h v hv ▸ v.confidence_nonneg
  rcases hc.eq_or_lt with rfl | hpos
  · have hzero : (votes.map VoteRecord.confidence).sum = 0 := by
      rw [sum_equal_confidence h, nsmul_zero]
    obtain ⟨hmap, htotal⟩ := weights_of_sum_eq_zero hzero
    rw [hmap, htotal]
    exact ⟨n, hleads.mapValues Nat.strictMono_cast, rfl⟩
  · have hsum : 0 < (votes.map VoteRecord.confidence).sum := by
      rw [sum_equal_confidence h]
      exact nsmul_pos hpos hlength.ne'
    obtain ⟨hmap, htotal⟩ := weights_of_sum_pos hsum
    rw [hmap, htotal, sum_equal_confidence h]
    refine ⟨n • c, ?_, ?_⟩
    · have hscaled := hleads.mapValues (nsmul_left_strictMono hpos)
      exact hscaled.congr fun k => (Dict.get?_tally_of_const h k).symm
    · rw [nsmul_eq_mul, nsmul_eq_mul, mul_div_mul_right _ _ hpos.ne']

/-- For every list of at least one vote in which all confidences are equal, zero included:
`ConfidenceWeighted`, whatever share it asks for, and `MajorityVote` without a required majority
agree on the winner, the counts, the number of votes and the ratio. -/
theorem equal_confidence_is_plurality (protocol : ConfidenceWeighted) (decidedAt decidedAt' : ℚ)
    (hvotes : votes ≠ []) (h : ∀ v ∈ votes, v.confidence = c) :
    let weighted := protocol.resolve decidedAt votes
    let plurality := MajorityVote.resolve { requireMajority := false } decidedAt' votes
    weighted.winningOption = plurality.winningOption ∧
      weighted.voteCounts = plurality.voteCounts ∧
      weighted.totalVotes = plurality.totalVotes ∧
      weighted.agreementRatio = plurality.agreementRatio := by
  intro weighted plurality
  obtain ⟨w, n, hleads⟩ := exists_leads hvotes
  obtain ⟨x, hweight, hshare⟩ := leads_equal_confidence hvotes h hleads
  have hweighted := protocol.resolve_of_leads decidedAt hvotes hweight
  have hplurality := MajorityVote.resolve_of_leads { requireMajority := false } decidedAt' hleads
  rw [if_pos (totalWeight_pos hvotes), hshare] at hweighted
  dsimp only [weighted, plurality]
  rw [hweighted, hplurality]
  exact ⟨rfl, rfl, rfl, rfl⟩

/-- Three votes of full confidence, two of them of one agent. -/
theorem equal_confidence_is_plurality_voteTwice :
    let weighted := ConfidenceWeighted.resolve ⟨0, le_refl 0, zero_le_one⟩ 0 voteTwice
    let plurality := MajorityVote.resolve { requireMajority := false } 0 voteTwice
    weighted.winningOption = plurality.winningOption ∧
      weighted.agreementRatio = plurality.agreementRatio := by
  have hvotes : voteTwice ≠ [] := List.cons_ne_nil _ _
  have hfull : ∀ v ∈ voteTwice, v.confidence = 1 := by
    decide +kernel
  obtain ⟨hwinner, -, -, hratio⟩ :=
    equal_confidence_is_plurality ⟨0, le_refl 0, zero_le_one⟩ 0 0 hvotes hfull
  exact ⟨hwinner, hratio⟩

end MeshRouter.Consensus
