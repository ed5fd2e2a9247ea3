import Mathlib.Algebra.BigOperators.Group.Finset.Basic
import Mathlib.Algebra.Order.BigOperators.Group.Finset
import Mathlib.Algebra.Order.Field.Basic
import Mathlib.Data.Finset.Card
import Mathlib.Tactic.Linarith
import MeshRouter.Consensus.Protocol

/-!
# One agent, one vote

The ratio of a result is documented as the fraction of the voters that voted for the winning option.
`MajorityVote` computes the fraction of the votes, and an agent that votes twice counts twice in it.

What this does to a result depends on how often the agents vote. If they all vote equally often, it
does nothing, however they vote; if they do not, there is a way for them to vote that it spoils
(`always_oneAgentOneVote_iff`). A given list of votes it spoils exactly if some option is voted for
by agents that repeat themselves more than the agents of the list do on average, and no other option
beats it (`oneAgentOneVote_iff_beaten`).
-/

namespace MeshRouter.Consensus

open Lib

/-- The agents that cast the votes. -/
def voters (votes : List VoteRecord) : Finset String := (votes.map VoteRecord.agentId).toFinset

/-- How many of the votes an agent cast. -/
def castBy (votes : List VoteRecord) (agentId : String) : ℕ :=
  (votes.map VoteRecord.agentId).count agentId

/-- How many of the votes its voters cast, on average. -/
def averageCast (votes : List VoteRecord) : ℚ :=
  ((∑ agentId ∈ voters votes, castBy votes agentId : ℕ) : ℚ) / (voters votes).card

/-- Another option has more votes, or as many and comes before in the order of the options. -/
def Beaten (votes : List VoteRecord) (w : String) : Prop :=
  ∃ v ∈ votes, (votesFor votes w).length < (votesFor votes v.option).length ∨
    (votesFor votes w).length = (votesFor votes v.option).length ∧ v.option < w

/-- Consensus is a majority of the agents that voted, and the ratio does not exceed the fraction of
them that voted for the winning option. -/
structure OneAgentOneVote (votes : List VoteRecord) (result : ConsensusResult) : Prop where
  majority : result.reachedConsensus = true →
    (voters votes).card < 2 * (voters (votesFor votes result.winningOption)).card
  ratio : result.agreementRatio ≤
    ((voters (votesFor votes result.winningOption)).card : ℚ) / (voters votes).card

/-- The option has the most votes, and is the least that has. -/
def MostVoted (votes : List VoteRecord) (w : String) : Prop :=
  votesFor votes w ≠ [] ∧ ∀ v ∈ votes,
    (votesFor votes v.option).length < (votesFor votes w).length ∨
      (votesFor votes v.option).length = (votesFor votes w).length ∧ w ≤ v.option

variable {votes : List VoteRecord} {w : String}

/-- The option with the most votes leads the counter. -/
theorem mostVoted_iff :
    MostVoted votes w ↔ (countOptions votes).Leads w (votesFor votes w).length := by
  unfold MostVoted Dict.Leads
  rw [get?_countOptions]
  refine and_congr (by simp) ⟨fun h j n hj => ?_, fun h v hv => ?_⟩
  · obtain ⟨hfor, rfl⟩ := get?_countOptions.mp hj
    obtain ⟨v, hv⟩ := List.exists_mem_of_ne_nil _ hfor
    obtain ⟨hmem, hoption⟩ := List.mem_filter.mp hv
    have hv := h v hmem
    rwa [of_decide_eq_true hoption] at hv
  · have hfor : v ∈ votesFor votes v.option := List.mem_filter.mpr ⟨hv, decide_eq_true rfl⟩
    exact h v.option _ (get?_countOptions.mpr ⟨List.ne_nil_of_mem hfor, rfl⟩)

/-- What leads is not beaten. -/
theorem MostVoted.not_beaten (h : MostVoted votes w) : ¬ Beaten votes w := by
  rintro ⟨v, hv, hmore | ⟨heq, hlt⟩⟩
  · rcases h.2 v hv with hless | ⟨hsame, -⟩
    · exact absurd hmore hless.le.not_gt
    · exact absurd hmore hsame.le.not_gt
  · rcases h.2 v hv with hless | ⟨-, hle⟩
    · exact absurd heq hless.ne'
    · exact absurd hlt hle.not_gt

/-- What is voted for and not beaten leads. -/
theorem mostVoted_of_not_beaten {v : VoteRecord} (hv : v ∈ votes)
    (h : ¬ Beaten votes v.option) : MostVoted votes v.option := by
  have hfor : v ∈ votesFor votes v.option := List.mem_filter.mpr ⟨hv, decide_eq_true rfl⟩
  refine ⟨List.ne_nil_of_mem hfor, fun u hu => ?_⟩
  rcases Nat.lt_trichotomy (votesFor votes u.option).length (votesFor votes v.option).length with
    hless | hsame | hmore
  · exact .inl hless
  · exact .inr ⟨hsame, not_lt.mp fun hlt => h ⟨u, hu, .inr ⟨hsame.symm, hlt⟩⟩⟩
  · exact absurd ⟨u, hu, .inl hmore⟩ h

/-- Each vote is cast by one of the voters. -/
theorem sum_castBy (votes : List VoteRecord) :
    ∑ agentId ∈ voters votes, castBy votes agentId = votes.length := by
  have hsum := List.sum_toFinset_count_eq_length (votes.map VoteRecord.agentId)
  rwa [List.length_map] at hsum

/-- Where there are votes there are voters. -/
theorem voters_card_pos (h : votes ≠ []) : 0 < (voters votes).card := by
  obtain ⟨v, hv⟩ := List.exists_mem_of_ne_nil votes h
  exact Finset.card_pos.mpr ⟨v.agentId, List.mem_toFinset.mpr (List.mem_map_of_mem hv)⟩

/-- The fraction of the votes exceeds the fraction of the voters where these repeat themselves more
than the others do. -/
theorem ratio_le_iff {l : List VoteRecord} (hl : l ≠ []) (hvotes : votes ≠ []) :
    (l.length : ℚ) / votes.length ≤ ((voters l).card : ℚ) / (voters votes).card ↔
      averageCast l ≤ averageCast votes := by
  have hlength : (0 : ℚ) < votes.length := by exact_mod_cast List.length_pos_iff.mpr hvotes
  have hcard : (0 : ℚ) < (voters votes).card := by exact_mod_cast voters_card_pos hvotes
  have hcard' : (0 : ℚ) < (voters l).card := by exact_mod_cast voters_card_pos hl
  unfold averageCast
  rw [sum_castBy, sum_castBy, div_le_div_iff₀ hlength hcard, div_le_div_iff₀ hcard' hcard,
    mul_comm ((voters l).card : ℚ)]

/-- A majority of the votes, where the fraction of the voters is not below that of the votes, is a
majority of the voters. -/
theorem majority_of_ratio_le {n total a b : ℕ} (hn : 0 < n) (hle : n ≤ total) (hb : 0 < b)
    (hratio : (n : ℚ) / total ≤ (a : ℚ) / b)
    (hreached : ¬ ((n : ℚ) / total ≤ 1 / 2 ∧ 1 < total)) : b < 2 * a := by
  have htotal : (0 : ℚ) < total := by exact_mod_cast hn.trans_le hle
  have hhalf : (1 : ℚ) / 2 < (n : ℚ) / total := by
    by_contra hnot
    -- A single vote is a majority.
    have hone : total ≤ 1 := not_lt.mp fun hlt => hreached ⟨not_lt.mp hnot, hlt⟩
    have hn1 : n = total := by omega
    rw [hn1, div_self htotal.ne'] at hnot
    norm_num at hnot
  have hfraction := hhalf.trans_le hratio
  rw [div_lt_div_iff₀ two_pos (by exact_mod_cast hb)] at hfraction
  have : b < a * 2 := by exact_mod_cast (one_mul (b : ℚ)) ▸ hfraction
  omega

/-- Where an option leads, one agent has one vote exactly if its voters repeat themselves no more
than the agents of the list on average. -/
theorem oneAgentOneVote_of_mostVoted (decidedAt : ℚ) (hmost : MostVoted votes w) :
    OneAgentOneVote votes (MajorityVote.resolve { requireMajority := true } decidedAt votes) ↔
      averageCast (votesFor votes w) ≤ averageCast votes := by
  have hleads := mostVoted_iff.mp hmost
  have hvotes : votes ≠ [] := fun hnil => hmost.1 (by rw [hnil]; rfl)
  rw [← ratio_le_iff hmost.1 hvotes, MajorityVote.resolve_of_leads _ decidedAt hleads]
  refine ⟨fun h => h.ratio, fun hratio => ⟨fun hreached => ?_, hratio⟩⟩
  dsimp only at hreached
  rw [Bool.true_and, Bool.not_eq_true', decide_eq_false_iff_not] at hreached
  exact majority_of_ratio_le (List.length_pos_iff.mpr hmost.1) (List.length_filter_le _ _)
    (voters_card_pos hvotes) hratio hreached

/-- No votes, no consensus. -/
theorem oneAgentOneVote_nil (decidedAt : ℚ) :
    OneAgentOneVote [] (MajorityVote.resolve { requireMajority := true } decidedAt []) where
  majority := fun hreached => nomatch hreached
  ratio := div_nonneg (Nat.cast_nonneg _) (Nat.cast_nonneg _)

/-- One option leads, where there are votes. -/
theorem exists_mostVoted (hvotes : votes ≠ []) : ∃ v ∈ votes, MostVoted votes v.option := by
  obtain ⟨w, n, hleads⟩ := exists_leads hvotes
  obtain ⟨hfor, rfl⟩ := get?_countOptions.mp hleads.1
  obtain ⟨v, hv⟩ := List.exists_mem_of_ne_nil _ hfor
  obtain ⟨hmem, hoption⟩ := List.mem_filter.mp hv
  obtain rfl : v.option = w := of_decide_eq_true hoption
  exact ⟨v, hmem, mostVoted_iff.mpr hleads⟩

/-- One agent has one vote exactly if every option is beaten whose voters repeat themselves more
than the agents of the list on average. -/
theorem oneAgentOneVote_iff_beaten (decidedAt : ℚ) (votes : List VoteRecord) :
    OneAgentOneVote votes (MajorityVote.resolve { requireMajority := true } decidedAt votes) ↔
      ∀ v ∈ votes, averageCast votes < averageCast (votesFor votes v.option) →
        Beaten votes v.option := by
  by_cases hvotes : votes = []
  · subst hvotes
    exact iff_of_true (oneAgentOneVote_nil decidedAt) fun v hv => nomatch hv
  obtain ⟨u, hu, hmost⟩ := exists_mostVoted hvotes
  rw [oneAgentOneVote_of_mostVoted decidedAt hmost]
  constructor
  · intro hle v hv hlt
    by_contra hnot
    -- Only one option leads.
    have hsame : v.option = u.option :=
      (Dict.Leads.unique (mostVoted_iff.mp (mostVoted_of_not_beaten hv hnot))
        (mostVoted_iff.mp hmost)).1
    rw [hsame] at hlt
    exact absurd hle hlt.not_ge
  · intro h
    by_contra hlt
    exact hmost.not_beaten (h u hu (not_le.mp hlt))

/-- The votes that agents cast if each votes for itself. -/
def selfVotes (votes : List VoteRecord) : List VoteRecord :=
  votes.map fun v => { v with option := v.agentId, option_nonblank := v.agentId_nonblank }

/-- They are cast by the same agents. -/
theorem map_agentId_selfVotes (votes : List VoteRecord) :
    (selfVotes votes).map VoteRecord.agentId = votes.map VoteRecord.agentId := by
  unfold selfVotes
  rw [List.map_map]
  rfl

/-- An agent that votes for itself gets the votes that it casts. -/
theorem map_agentId_votesFor_selfVotes (votes : List VoteRecord) (a : String) :
    (votesFor (selfVotes votes) a).map VoteRecord.agentId = List.replicate (castBy votes a) a := by
  unfold votesFor selfVotes castBy
  rw [List.filter_map, List.map_map]
  have hfilter : (votes.filter ((fun v => decide (v.option = a)) ∘ fun v =>
      ({ v with option := v.agentId, option_nonblank := v.agentId_nonblank } : VoteRecord))).map
        VoteRecord.agentId = (votes.map VoteRecord.agentId).filter (· = a) := by
    rw [List.filter_map]
    rfl
  exact hfilter.trans (List.filter_eq _)

/-- However agents vote that cast equally many votes each, one agent has one vote. -/
theorem oneAgentOneVote_of_castBy_eq (decidedAt : ℚ)
    (h : ∀ a ∈ voters votes, ∀ b ∈ voters votes, castBy votes a = castBy votes b) :
    OneAgentOneVote votes (MajorityVote.resolve { requireMajority := true } decidedAt votes) := by
  by_cases hvotes : votes = []
  · subst hvotes
    exact oneAgentOneVote_nil decidedAt
  obtain ⟨u, hu, hmost⟩ := exists_mostVoted hvotes
  rw [oneAgentOneVote_of_mostVoted decidedAt hmost]
  have hmem : ∀ v ∈ votes, v.agentId ∈ voters votes := fun v hv =>
    List.mem_toFinset.mpr (List.mem_map_of_mem hv)
  -- Each agent casts as many votes as `u`'s, and no more of them for an option.
  have hall : ∀ a ∈ voters votes, castBy votes a = castBy votes u.agentId := fun a ha =>
    h a ha _ (hmem u hu)
  have hfor : ∀ a ∈ voters (votesFor votes u.option),
      castBy (votesFor votes u.option) a ≤ castBy votes u.agentId := by
    intro a ha
    have hsublist := (List.filter_sublist (l := votes)
      (p := fun v => decide (v.option = u.option))).map VoteRecord.agentId
    have hvoter : a ∈ voters votes :=
      List.mem_toFinset.mpr (hsublist.subset (List.mem_toFinset.mp ha))
    rw [← hall a hvoter]
    exact hsublist.count_le a
  have hsum : ∑ a ∈ voters votes, castBy votes a =
      (voters votes).card * castBy votes u.agentId := Finset.sum_const_nat hall
  have hsumFor : ∑ a ∈ voters (votesFor votes u.option), castBy (votesFor votes u.option) a ≤
      (voters (votesFor votes u.option)).card * castBy votes u.agentId :=
    Finset.sum_le_card_nsmul _ _ _ hfor
  have hcard : (0 : ℚ) < (voters votes).card := by exact_mod_cast voters_card_pos hvotes
  have hcard' : (0 : ℚ) < (voters (votesFor votes u.option)).card := by
    exact_mod_cast voters_card_pos hmost.1
  calc averageCast (votesFor votes u.option)
      ≤ castBy votes u.agentId := by
        unfold averageCast
        rw [div_le_iff₀ hcard', mul_comm]
        exact_mod_cast hsumFor
    _ = averageCast votes := by
        unfold averageCast
        rw [hsum, Nat.cast_mul, mul_div_cancel_left₀ _ hcard.ne']

/-- One agent has one vote, however the agents of a list vote, exactly if they cast equally many of
the votes. Otherwise it is spoiled where each agent votes for itself. -/
theorem always_oneAgentOneVote_iff (decidedAt : ℚ) (votes : List VoteRecord) :
    (∀ votes', votes'.map VoteRecord.agentId = votes.map VoteRecord.agentId →
        OneAgentOneVote votes'
          (MajorityVote.resolve { requireMajority := true } decidedAt votes')) ↔
      ∀ a ∈ voters votes, ∀ b ∈ voters votes, castBy votes a = castBy votes b := by
  constructor
  · intro h
    by_cases hvotes : votes = []
    · subst hvotes
      exact fun a ha => nomatch ha
    have hself := map_agentId_selfVotes votes
    have hne : selfVotes votes ≠ [] := fun hnil => hvotes (List.map_eq_nil_iff.mp hnil)
    obtain ⟨u, hu, hmost⟩ := exists_mostVoted hne
    have hle := (oneAgentOneVote_of_mostVoted decidedAt hmost).mp (h _ hself)
    have hagents := map_agentId_votesFor_selfVotes votes
    have hlength : ∀ a, (votesFor (selfVotes votes) a).length = castBy votes a := fun a => by
      have hlen := congrArg List.length (hagents a)
      rwa [List.length_map, List.length_replicate] at hlen
    -- The winner is its only voter, and casts the most votes.
    have hmax : ∀ a ∈ voters votes, castBy votes a ≤ castBy votes u.option := by
      intro a ha
      obtain ⟨v, hv, rfl⟩ := List.mem_map.mp (List.mem_toFinset.mp ha)
      have hv' := hmost.2 _ (List.mem_map_of_mem hv)
      rw [hlength, hlength] at hv'
      exact hv'.elim le_of_lt fun hsame => hsame.1.le
    have hwinner : averageCast (votesFor (selfVotes votes) u.option) = castBy votes u.option := by
      have hpos : 0 < castBy votes u.option := by
        rw [← hlength]
        exact List.length_pos_iff.mpr hmost.1
      have hvoter : voters (votesFor (selfVotes votes) u.option) = {u.option} := by
        unfold voters
        rw [hagents, List.toFinset_replicate_of_ne_zero hpos.ne']
      unfold averageCast
      rw [sum_castBy, hlength, hvoter, Finset.card_singleton, Nat.cast_one, div_one]
    have haverage : averageCast (selfVotes votes) = averageCast votes := by
      unfold averageCast voters castBy
      rw [hself]
    have hcard : (0 : ℚ) < (voters votes).card := by exact_mod_cast voters_card_pos hvotes
    rw [hwinner, haverage, averageCast, le_div_iff₀ hcard] at hle
    have hsum : ∑ _a ∈ voters votes, castBy votes u.option ≤
        ∑ a ∈ voters votes, castBy votes a := by
      rw [Finset.sum_const_nat fun _ _ => rfl, mul_comm]
      exact_mod_cast hle
    have hall := (Finset.sum_eq_sum_iff_of_le hmax).mp
      (le_antisymm (Finset.sum_le_sum hmax) hsum)
    exact fun a ha b hb => (hall a ha).trans (hall b hb).symm
  · intro h votes' hagents
    refine oneAgentOneVote_of_castBy_eq decidedAt ?_
    unfold voters castBy at h ⊢
    rwa [hagents]

/-- For every list of votes, with `require_majority`: consensus is a majority of the agents that
voted, and the ratio does not exceed the fraction of them that voted for the winner, exactly if
every option is beaten whose voters repeat themselves more than the agents of the list on average.
This is so however these agents vote exactly if they cast equally many of the votes. -/
theorem oneAgentOneVote_iff (decidedAt : ℚ) (votes : List VoteRecord) :
    (OneAgentOneVote votes (MajorityVote.resolve { requireMajority := true } decidedAt votes) ↔
      ∀ v ∈ votes, averageCast votes < averageCast (votesFor votes v.option) →
        Beaten votes v.option) ∧
    ((∀ votes', votes'.map VoteRecord.agentId = votes.map VoteRecord.agentId →
        OneAgentOneVote votes'
          (MajorityVote.resolve { requireMajority := true } decidedAt votes')) ↔
      ∀ a ∈ voters votes, ∀ b ∈ voters votes, castBy votes a = castBy votes b) :=
  ⟨oneAgentOneVote_iff_beaten decidedAt votes, always_oneAgentOneVote_iff decidedAt votes⟩

/-- What the checks of the votes below ask for. -/
theorem a_nonblank : ¬ Blank "a" := by decide

theorem b_nonblank : ¬ Blank "b" := by decide

theorem yes_nonblank : ¬ Blank "yes" := by decide

theorem no_nonblank : ¬ Blank "no" := by decide

theorem full_nonneg : (0 : ℚ) ≤ 1 := zero_le_one

theorem full_le_one : (1 : ℚ) ≤ 1 := le_rfl

/-- One of two agents votes twice. -/
def voteTwice : List VoteRecord :=
  [⟨"a", "yes", 1, a_nonblank, yes_nonblank, full_nonneg, full_le_one⟩,
    ⟨"a", "yes", 1, a_nonblank, yes_nonblank, full_nonneg, full_le_one⟩,
    ⟨"b", "no", 1, b_nonblank, no_nonblank, full_nonneg, full_le_one⟩]

/-- Two votes of three make a majority, and are cast by one agent of two. -/
theorem voteTwice_reached :
    (MajorityVote.resolve { requireMajority := true } 0 voteTwice).reachedConsensus = true ∧
      (MajorityVote.resolve { requireMajority := true } 0 voteTwice).winningOption = "yes" ∧
      (MajorityVote.resolve { requireMajority := true } 0 voteTwice).agreementRatio = 2 / 3 ∧
      (voters voteTwice).card = 2 ∧ (voters (votesFor voteTwice "yes")).card = 1 ∧
      ¬ OneAgentOneVote voteTwice
        (MajorityVote.resolve { requireMajority := true } 0 voteTwice) := by
  have hresolve : (MajorityVote.resolve { requireMajority := true } 0 voteTwice).reachedConsensus =
      true ∧ (MajorityVote.resolve { requireMajority := true } 0 voteTwice).winningOption = "yes" ∧
      (MajorityVote.resolve { requireMajority := true } 0 voteTwice).agreementRatio = 2 / 3 := by
    decide +kernel
  have hvoters : (voters voteTwice).card = 2 ∧ (voters (votesFor voteTwice "yes")).card = 1 := by
    decide +kernel
  refine ⟨hresolve.1, hresolve.2.1, hresolve.2.2, hvoters.1, hvoters.2, fun hone => ?_⟩
  have hmajority := hone.majority hresolve.1
  rw [hresolve.2.1, hvoters.1, hvoters.2] at hmajority
  exact lt_irrefl 2 hmajority

end MeshRouter.Consensus
