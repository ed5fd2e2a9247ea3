import MeshRouter.Lib.History
import MeshRouter.Resilience.RecoveryTester

/-!
# The evidence of a recovery test

`success_threshold` of a `RecoveryTester` is documented as the number of consecutive successes that
it takes to recommend closing. The loop counts successes and does not start again at a failure, so a
tester that goes on after failures can recommend closing without them. `shouldClose_earned_iff` says
for which services it does not.
-/

namespace MeshRouter.Resilience

open Lib

/-- The probe succeeded. -/
def CallOutcome.succeeded : CallOutcome → Bool
  | .returned => true
  | .raised | .interrupted => false

/-- The first probes of a service, so many. -/
def probesMade (outcomes : ℕ → CallOutcome) (n : ℕ) : List CallOutcome :=
  (List.range n).map outcomes

namespace RecoveryTester

/-- The last probes up to the success threshold were all successes, whenever a test run recommends
closing. -/
def ShouldCloseEarned (tester : RecoveryTester) (outcomes : ℕ → CallOutcome) (elapsedMs : NNRat) :
    Prop :=
  ∀ result calls, tester.testRecovery outcomes elapsedMs = some (result, calls) →
    result.shouldClose = true →
      EndsWith CallOutcome.succeeded tester.successThreshold (probesMade outcomes calls)

/-- With the call number `n` the service has succeeded as often as the threshold says, within the
calls that the tester makes, and none of the calls was interrupted. -/
def ReachedBy (tester : RecoveryTester) (outcomes : ℕ → CallOutcome) (n : ℕ) : Prop :=
  n < tester.maxTestRequests ∧ outcomes n = .returned ∧
    (probesMade outcomes (n + 1)).countP CallOutcome.succeeded = tester.successThreshold ∧
    .interrupted ∉ probesMade outcomes (n + 1)

variable {tester : RecoveryTester} {outcomes : ℕ → CallOutcome} {turns : ℕ} {p p' : TestProgress}

theorem probesMade_succ (outcomes : ℕ → CallOutcome) (n : ℕ) :
    probesMade outcomes (n + 1) = probesMade outcomes n ++ [outcomes n] := by
  unfold probesMade
  rw [List.range_succ, List.map_append]
  rfl

/-- The progress of a test run counts the successes of the probes made, and none was interrupted. -/
structure Counted (outcomes : ℕ → CallOutcome) (p : TestProgress) : Prop where
  successes : p.successes = (probesMade outcomes p.calls).countP CallOutcome.succeeded
  ended : .interrupted ∉ probesMade outcomes p.calls

theorem counted_start (outcomes : ℕ → CallOutcome) : Counted outcomes {} :=
  ⟨rfl, List.not_mem_nil⟩

/-- One more probe that succeeds. -/
theorem Counted.returned (h : Counted outcomes p) (houtcome : outcomes p.calls = .returned) :
    Counted outcomes ⟨p.calls + 1, p.successes + 1, p.failures⟩ where
  successes := by
    rw [probesMade_succ, houtcome, List.countP_append, ← h.successes]
    rfl
  ended := by
    rw [probesMade_succ, houtcome, List.mem_append, not_or]
    exact ⟨h.ended, by decide⟩

/-- One more probe that fails. -/
theorem Counted.raised (h : Counted outcomes p) (houtcome : outcomes p.calls = .raised) :
    Counted outcomes ⟨p.calls + 1, p.successes, p.failures + 1⟩ where
  successes := by
    rw [probesMade_succ, houtcome, List.countP_append, ← h.successes]
    rfl
  ended := by
    rw [probesMade_succ, houtcome, List.mem_append, not_or]
    exact ⟨h.ended, by decide⟩

/-- A test run that reaches the threshold ends with the success that reaches it. -/
theorem reached_of_probe (hcounted : Counted outcomes p)
    (hbelow : p.successes < tester.successThreshold)
    (h : tester.probe outcomes turns p = some p')
    (hreached : tester.successThreshold ≤ p'.successes) :
    ∃ n, n < p.calls + turns ∧ p'.calls = n + 1 ∧ outcomes n = .returned ∧
      Counted outcomes p' ∧ p'.successes = tester.successThreshold := by
  induction turns generalizing p with
  | zero =>
    obtain rfl := Option.some.inj h
    exact absurd hreached (not_le.mpr hbelow)
  | succ turns ih =>
    rcases probe_succ_cases h with
      ⟨houtcome, ⟨hthreshold, rfl⟩ | ⟨hmore, hrest⟩⟩ | ⟨houtcome, ⟨-, rfl⟩ | ⟨-, hrest⟩⟩
    · have hexact : p.successes + 1 = tester.successThreshold := le_antisymm hbelow hthreshold
      exact ⟨p.calls, by omega, rfl, houtcome, hcounted.returned houtcome, hexact⟩
    · obtain ⟨n, hlt, hlast⟩ := ih (hcounted.returned houtcome) hmore hrest
      dsimp only at hlt
      exact ⟨n, by omega, hlast⟩
    · exact absurd hreached (not_le.mpr hbelow)
    · obtain ⟨n, hlt, hlast⟩ := ih (hcounted.raised houtcome) hbelow hrest
      dsimp only at hlt
      exact ⟨n, by omega, hlast⟩

/-- A tester that stops on a failure reaches the threshold without one. -/
theorem failures_of_stop (hstop : tester.stopOnFirstFailure = true)
    (hbelow : p.successes < tester.successThreshold)
    (h : tester.probe outcomes turns p = some p')
    (hreached : tester.successThreshold ≤ p'.successes) : p'.failures = p.failures := by
  induction turns generalizing p with
  | zero =>
    obtain rfl := Option.some.inj h
    rfl
  | succ turns ih =>
    rcases probe_succ_cases h with
      ⟨-, ⟨-, rfl⟩ | ⟨hmore, hrest⟩⟩ | ⟨-, ⟨-, rfl⟩ | ⟨hgoesOn, -⟩⟩
    · rfl
    · exact (ih hmore hrest :)
    · exact absurd hreached (not_le.mpr hbelow)
    · rw [hstop] at hgoesOn
      cases hgoesOn

theorem countP_probesMade_le (outcomes : ℕ → CallOutcome) {i j : ℕ} (hle : i ≤ j) :
    (probesMade outcomes i).countP CallOutcome.succeeded ≤
      (probesMade outcomes j).countP CallOutcome.succeeded := by
  induction j, hle using Nat.le_induction with
  | base => exact Nat.le_refl _
  | succ j hle ih =>
    rw [probesMade_succ, List.countP_append]
    exact ih.trans (Nat.le_add_right _ _)

/-- A tester that goes on after failures reaches the threshold with the call that does. -/
theorem probe_of_reached (hgoesOn : tester.stopOnFirstFailure = false)
    (hcounted : Counted outcomes p) (hbelow : p.successes < tester.successThreshold) {n : ℕ}
    (hle : p.calls ≤ n) (hlt : n < p.calls + turns) (hreturned : outcomes n = .returned)
    (hcount : (probesMade outcomes (n + 1)).countP CallOutcome.succeeded =
      tester.successThreshold)
    (hended : .interrupted ∉ probesMade outcomes (n + 1)) :
    ∃ p', tester.probe outcomes turns p = some p' ∧ p'.calls = n + 1 ∧
      tester.successThreshold ≤ p'.successes := by
  induction turns generalizing p with
  | zero => omega
  | succ turns ih =>
    unfold probe
    cases houtcome : outcomes p.calls with
    | returned =>
      have hnext := (hcounted.returned houtcome).successes
      dsimp only at hnext ⊢
      rcases hle.eq_or_lt with rfl | hlater
      · rw [if_pos (hcount.symm.trans hnext.symm).le]
        exact ⟨_, rfl, rfl, (hcount.symm.trans hnext.symm).le⟩
      · -- The call `n` is one more success.
        have hmore : (probesMade outcomes (p.calls + 1)).countP CallOutcome.succeeded ≤
            (probesMade outcomes n).countP CallOutcome.succeeded :=
          countP_probesMade_le outcomes hlater
        rw [probesMade_succ outcomes n, hreturned, List.countP_append] at hcount
        have hone : [CallOutcome.returned].countP CallOutcome.succeeded = 1 := rfl
        rw [hone] at hcount
        rw [if_neg (by omega)]
        refine ih (hcounted.returned houtcome) ?_ hlater ?_
        · dsimp only
          omega
        · dsimp only
          omega
    | raised =>
      have hlater : p.calls < n := by
        refine hle.lt_of_ne ?_
        rintro rfl
        cases houtcome.symm.trans hreturned
      dsimp only
      rw [hgoesOn, if_neg Bool.false_ne_true]
      refine ih (hcounted.raised houtcome) hbelow hlater ?_
      dsimp only
      omega
    | interrupted =>
      refine absurd (List.mem_map.mpr ⟨p.calls, ?_, houtcome⟩) hended
      exact List.mem_range.mpr (Nat.lt_succ_of_le hle)

/-- The successes so far are the last probes exactly if no probe failed after the first of them. -/
theorem endsWith_countP_iff {probes : List CallOutcome} {n : ℕ}
    (hcount : probes.countP CallOutcome.succeeded = n) :
    EndsWith CallOutcome.succeeded n probes ↔
      ∀ x ∈ probes.dropWhile (fun x => !x.succeeded), x.succeeded = true := by
  have hle := streak_le_countP CallOutcome.succeeded probes
  rw [endsWith_iff, ← streak_eq_countP_iff, ← hcount]
  exact ⟨fun h => le_antisymm hle h, fun h => h.ge⟩

/-- A recommendation to close is earned by consecutive successes exactly if the tester stops on the
first failure, or the service does not fail between its first success and the success that reaches
the threshold. -/
theorem shouldClose_earned_iff (tester : RecoveryTester) (outcomes : ℕ → CallOutcome)
    (elapsedMs : NNRat) :
    tester.ShouldCloseEarned outcomes elapsedMs ↔
      tester.stopOnFirstFailure = true ∨
        ∀ n, tester.ReachedBy outcomes n →
          ∀ x ∈ (probesMade outcomes (n + 1)).dropWhile (fun x => !x.succeeded),
            x.succeeded = true := by
  have hpos : ({} : TestProgress).successes < tester.successThreshold :=
    tester.successThreshold_pos
  constructor
  · intro hearned
    cases hstop : tester.stopOnFirstFailure with
    | true => exact .inl rfl
    | false =>
      refine .inr fun n ⟨hlt, hreturned, hcount, hended⟩ => ?_
      obtain ⟨p', hprobe, hcalls, hreached⟩ := probe_of_reached hstop (counted_start outcomes)
        hpos (Nat.zero_le n) (by simpa using hlt) hreturned hcount hended
      have hends := hearned _ p'.calls (Option.map_eq_some_iff.mpr ⟨p', hprobe, rfl⟩)
        (decide_eq_true hreached)
      rw [hcalls] at hends
      exact (endsWith_countP_iff hcount).mp hends
  · intro hcondition result calls htest hclose
    obtain ⟨p', hprobe, heq⟩ := Option.map_eq_some_iff.mp htest
    obtain ⟨rfl, rfl⟩ := Prod.mk.inj heq
    have hreached : tester.successThreshold ≤ p'.successes := of_decide_eq_true hclose
    obtain ⟨n, hlt, hcalls, hreturned, hcounted, hsuccesses⟩ :=
      reached_of_probe (counted_start outcomes) hpos hprobe hreached
    have hcount := hcounted.successes.symm.trans hsuccesses
    refine (endsWith_countP_iff hcount).mpr ?_
    rcases hcondition with hstop | hearned
    · have hfailures : p'.failures = 0 := failures_of_stop hstop hpos hprobe hreached
      have hall := calls_of_probe hprobe rfl
      have hlength : (probesMade outcomes p'.calls).length = p'.calls := by simp [probesMade]
      have hsucceeded : ∀ x ∈ probesMade outcomes p'.calls, x.succeeded = true := by
        refine List.countP_eq_length.mp ?_
        rw [hcount, hlength, hall, hsuccesses, hfailures, Nat.add_zero]
      exact fun x hx => hsucceeded x (List.dropWhile_suffix _ |>.subset hx)
    · rw [hcalls] at hcount ⊢
      refine hearned n ⟨by simpa using hlt, hreturned, hcount, ?_⟩
      exact hcalls ▸ hcounted.ended

/-- The threshold of `goesOn` is in range. -/
theorem goesOn_pos : 1 ≤ 2 := Nat.le_succ 1

/-- A tester that makes up to three probes, and goes on after failures. -/
def goesOn : RecoveryTester :=
  { maxTestRequests := 3, successThreshold := 2, stopOnFirstFailure := false,
    successThreshold_pos := goesOn_pos, successThreshold_le := two_le_three }

/-- A service that fails its second call only. -/
def failsOnce (n : ℕ) : CallOutcome := if n = 1 then .raised else .returned

/-- A success, a failure, and a success make the tester recommend closing. -/
theorem shouldClose_after_failure : ¬ goesOn.ShouldCloseEarned failsOnce 0 := by
  intro hearned
  have htest : (goesOn.testRecovery failsOnce 0).map (fun r => (r.1.shouldClose, r.2)) =
      some (true, 3) := by decide +kernel
  obtain ⟨⟨result, calls⟩, hresult, heq⟩ := Option.map_eq_some_iff.mp htest
  obtain ⟨hclose, rfl⟩ := Prod.mk.inj heq
  have hends := hearned result _ hresult hclose
  rw [endsWith_iff] at hends
  revert hends
  decide

end RecoveryTester

end MeshRouter.Resilience
