import MeshRouter.Consensus.Order
import MeshRouter.Lib.Corruption

/-!
# How many faulty votes a majority vote tolerates

Agents of a mesh may be faulty: votes may be lost on the way, and arrive as others than the honest
agents would have cast. Does the result depend on them? A corruption of `k` votes lowers the count
of the winner by at most `k` and raises that of another option by at most `k`, and the worst one,
which turns `k` votes for the winner into votes for the other, does both. So a winner stands, with
whatever happens to `k` votes, exactly if it is ahead of every other option by `2 k`, and a majority
exactly if it is one without `k` of its votes (`tolerance_exact`).

With this any two agents that resolve the votes, of which they have seen no more than `k` in
another way than they were cast, decide the same.
-/

namespace MeshRouter.Consensus

open Lib

variable {votes votes' : List VoteRecord} {w u : String} {k : ℕ}

/-- The number of votes for an option. -/
theorem length_votesFor (votes : List VoteRecord) (w : String) :
    (votesFor votes w).length = votes.countP fun v => v.option = w := by
  unfold votesFor
  rw [List.countP_eq_length_filter]

/-- The option is ahead of another by `n` votes, or by a tie that it wins. -/
def AheadBy (votes : List VoteRecord) (n : ℕ) (w u : String) : Prop :=
  (votesFor votes u).length + n < (votesFor votes w).length ∨
    (votesFor votes u).length + n = (votesFor votes w).length ∧ w < u

/-- Where an option has the most votes, there are votes. -/
theorem MostVoted.votes_ne_nil (hmost : MostVoted votes w) : votes ≠ [] := by
  rintro rfl
  exact hmost.1 rfl

/-- There is another option to vote for. -/
theorem exists_other_option (w : String) : ∃ u, ¬ Blank u ∧ u ≠ w := by
  by_cases h : w = "yes"
  · exact ⟨"no", no_nonblank, by rw [h]; decide⟩
  · exact ⟨"yes", yes_nonblank, Ne.symm h⟩

/-- What the worst corruption does to the votes for `w` and for another option. -/
theorem exists_corrupted_votes (k : ℕ) (votes : List VoteRecord) (hu : ¬ Blank u) (hne : u ≠ w) :
    ∃ votes', Corrupts k votes votes' ∧ votes'.length = votes.length ∧
      (votesFor votes' w).length = (votesFor votes w).length - k ∧
      (votesFor votes' u).length =
        (votesFor votes u).length + min k (votesFor votes w).length := by
  obtain ⟨votes', hcorrupts, hlength, hcount, hothers⟩ :=
    exists_corrupts k votes (p := fun v => decide (v.option = w))
      (b := (⟨"a", u, 1, a_nonblank, hu, full_nonneg, full_le_one⟩ : VoteRecord))
      (decide_eq_false hne)
  refine ⟨votes', hcorrupts, hlength, ?_, ?_⟩
  · rw [length_votesFor, length_votesFor]
    exact hcount
  · rw [length_votesFor, length_votesFor, length_votesFor]
    refine hothers _ (fun v hv => ?_) (decide_eq_true rfl)
    rw [of_decide_eq_true hv]
    exact decide_eq_false (Ne.symm hne)

/-- A winner by `2 k` votes has a vote left when `k` are corrupted. -/
theorem lt_length_votesFor (hvotes : votes ≠ [])
    (hahead : ∀ u, ¬ Blank u → u ≠ w → AheadBy votes (2 * k) w u) :
    k < (votesFor votes w).length := by
  unfold AheadBy at hahead
  obtain ⟨u, hu, hne⟩ := exists_other_option w
  have hmargin := hahead u hu hne
  obtain ⟨v, hv⟩ := List.exists_mem_of_ne_nil votes hvotes
  have hpos : 0 < (votesFor votes v.option).length :=
    List.length_pos_of_mem (List.mem_filter.mpr ⟨hv, decide_eq_true rfl⟩)
  by_cases hvw : v.option = w
  · rw [hvw] at hpos
    omega
  · have hmargin' := hahead v.option v.option_nonblank hvw
    omega

/-- The winner stands if it is ahead of every other option by `2 k`. -/
theorem mostVoted_of_corrupts (hvotes : votes ≠ [])
    (hahead : ∀ u, ¬ Blank u → u ≠ w → AheadBy votes (2 * k) w u)
    (hcorrupts : Corrupts k votes votes') : MostVoted votes' w := by
  have hleft := lt_length_votesFor hvotes hahead
  have hw := hcorrupts.le_countP fun v => decide (v.option = w)
  rw [← length_votesFor, ← length_votesFor] at hw
  refine ⟨List.length_pos_iff.mp (by omega), fun v _ => ?_⟩
  by_cases hvw : v.option = w
  · exact Or.inr ⟨by rw [hvw], hvw.symm.le⟩
  · have hmargin := hahead v.option v.option_nonblank hvw
    have hu := hcorrupts.countP_le fun v' => decide (v'.option = v.option)
    rw [← length_votesFor, ← length_votesFor] at hu
    unfold AheadBy at hmargin
    rcases hmargin with hmargin | ⟨hmargin, hlt⟩
    · exact Or.inl (by omega)
    · rcases Nat.lt_or_ge (votesFor votes' v.option).length (votesFor votes' w).length with h | h
      · exact Or.inl h
      · exact Or.inr ⟨by omega, hlt.le⟩

/-- If the winner stands whatever happens to `k` votes, it is ahead by `2 k`. -/
theorem aheadBy_of_mostVoted (hu : ¬ Blank u) (hne : u ≠ w)
    (hwins : ∀ votes', Corrupts k votes votes' → MostVoted votes' w) :
    AheadBy votes (2 * k) w u := by
  obtain ⟨votes', hcorrupts, -, hw, hother⟩ := exists_corrupted_votes k votes hu hne
  obtain ⟨hsome, hmost⟩ := hwins votes' hcorrupts
  have hpos := List.length_pos_iff.mpr hsome
  unfold AheadBy
  rcases Nat.eq_zero_or_pos (votesFor votes' u).length with hzero | hvoted
  · exact Or.inl (by omega)
  · obtain ⟨v, hv⟩ := List.exists_mem_of_length_pos hvoted
    obtain ⟨hmem, hoption⟩ := List.mem_filter.mp hv
    have hlead := hmost v hmem
    rw [of_decide_eq_true hoption] at hlead
    rcases hlead with hlead | ⟨hlead, hle⟩
    · exact Or.inl (by omega)
    · exact Or.inr ⟨by omega, lt_of_le_of_ne hle (Ne.symm hne)⟩

/-- A text that is not empty wins exactly if it has the most votes, also where there are none. -/
theorem MajorityVote.wins_iff (protocol : MajorityVote) (decidedAt : ℚ) (hw : w ≠ "") :
    (protocol.resolve decidedAt votes).winningOption = w ↔ MostVoted votes w := by
  by_cases hvotes : votes = []
  · subst hvotes
    exact iff_of_false hw.symm fun hmost => hmost.votes_ne_nil rfl
  · exact protocol.winningOption_eq_iff decidedAt hvotes

/-- What wins has been voted for, so that it is not empty. -/
theorem MajorityVote.ne_empty_of_wins (protocol : MajorityVote) (decidedAt : ℚ)
    (hvotes : votes ≠ []) (hwins : (protocol.resolve decidedAt votes).winningOption = w) :
    w ≠ "" := by
  rintro rfl
  obtain ⟨hsome, -⟩ := (protocol.winningOption_eq_iff decidedAt hvotes).mp hwins
  obtain ⟨v, hv⟩ := List.exists_mem_of_ne_nil _ hsome
  have hoption : v.option = "" := of_decide_eq_true (List.mem_filter.mp hv).2
  exact v.option_nonblank (by rw [hoption]; decide)

/-- A majority that is one without `k` of its votes stands whatever happens to `k` votes. -/
theorem hasMajority_of_corrupts (hcorrupts : Corrupts k votes votes')
    (hmajority : votes.length < 2 * ((votesFor votes w).length - k)) : HasMajority votes' w := by
  have hlength := hcorrupts.length_le
  have hw := hcorrupts.le_countP fun v => decide (v.option = w)
  rw [← length_votesFor, ← length_votesFor] at hw
  unfold HasMajority
  omega

/-- For every vote, every option and every number `k`, where any `k` votes may be lost or replaced
by any others: without `require_majority` the option wins whatever happens to them exactly if it is
ahead of every other option by `2 k` votes, or ties so and comes first; and with it the option wins
and consensus is reached whatever happens exactly if it has a majority without `k` of its votes. -/
theorem tolerance_exact (decidedAt : ℚ) (k : ℕ) (w : String) (hvotes : votes ≠ []) :
    ((∀ votes', Corrupts k votes votes' →
        (MajorityVote.resolve { requireMajority := false } decidedAt votes').winningOption = w) ↔
      ∀ u, ¬ Blank u → u ≠ w → AheadBy votes (2 * k) w u) ∧
    ((∀ votes', Corrupts k votes votes' →
        (MajorityVote.resolve { requireMajority := true } decidedAt votes').winningOption = w ∧
        (MajorityVote.resolve { requireMajority := true } decidedAt votes').reachedConsensus =
          true) ↔
      votes.length < 2 * ((votesFor votes w).length - k)) := by
  constructor
  · constructor
    · intro hwins u hu hne
      have hw := MajorityVote.ne_empty_of_wins _ decidedAt hvotes (hwins votes (.refl k votes))
      refine aheadBy_of_mostVoted hu hne fun votes' hcorrupts => ?_
      exact (MajorityVote.wins_iff _ decidedAt hw).mp (hwins votes' hcorrupts)
    · intro hahead votes' hcorrupts
      have hmost := mostVoted_of_corrupts hvotes hahead hcorrupts
      exact (MajorityVote.winningOption_eq_iff _ decidedAt hmost.votes_ne_nil).mpr hmost
  · constructor
    · intro hwins
      obtain ⟨u, hu, hne⟩ := exists_other_option w
      obtain ⟨votes', hcorrupts, hlength, hcount, -⟩ := exists_corrupted_votes k votes hu hne
      have hvotes' : votes' ≠ [] := by
        rw [← List.length_pos_iff, hlength]
        exact List.length_pos_iff.mpr hvotes
      obtain ⟨hwin, hreached⟩ := hwins votes' hcorrupts
      obtain ⟨x, hx⟩ := (MajorityVote.reachedConsensus_iff decidedAt hvotes').mp hreached
      -- The option with the majority is the one that wins.
      obtain rfl : x = w := by
        rw [← hwin]
        exact ((MajorityVote.winningOption_eq_iff _ decidedAt hvotes').mpr hx.mostVoted).symm
      unfold HasMajority at hx
      omega
    · intro hmajority votes' hcorrupts
      have hhas := hasMajority_of_corrupts hcorrupts hmajority
      have hmost := hhas.mostVoted
      exact ⟨(MajorityVote.winningOption_eq_iff _ decidedAt hmost.votes_ne_nil).mpr hmost,
        (MajorityVote.reachedConsensus_iff decidedAt hmost.votes_ne_nil).mpr ⟨w, hhas⟩⟩

theorem c_nonblank : ¬ Blank "c" := by decide

/-- Three agents that agree. -/
def unanimous : List VoteRecord :=
  [⟨"a", "yes", 1, a_nonblank, yes_nonblank, full_nonneg, full_le_one⟩,
    ⟨"b", "yes", 1, b_nonblank, yes_nonblank, full_nonneg, full_le_one⟩,
    ⟨"c", "yes", 1, c_nonblank, yes_nonblank, full_nonneg, full_le_one⟩]

/-- The same votes, of which the first has become another. -/
def oneFaulty : List VoteRecord :=
  ⟨"a", "no", 1, a_nonblank, no_nonblank, full_nonneg, full_le_one⟩ :: unanimous.tail

/-- `tolerance_exact` for three agents that agree, of which one is faulty. -/
theorem tolerance_exact_oneFaulty :
    (MajorityVote.resolve { requireMajority := true } 0 oneFaulty).winningOption = "yes" ∧
      (MajorityVote.resolve { requireMajority := true } 0 oneFaulty).reachedConsensus = true :=
  (tolerance_exact 0 1 "yes" (show unanimous ≠ [] from List.cons_ne_nil _ _)).2.mpr (by decide)
    oneFaulty ((Corrupts.refl 0 unanimous.tail).replace _ _)

end MeshRouter.Consensus
