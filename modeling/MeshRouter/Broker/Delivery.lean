import MeshRouter.Broker.FanOut
import Mathlib.Data.List.OfFn

/-!
# Delivery to one target

`_deliver_to` makes up to `max_delivery_attempts` attempts, and at least one. Each attempt looks the
handler up again, so that other tasks may have removed or replaced it since. `outcomeAt` is how the
call of the `k`-th lookup ends if all calls before it raise, or `none` when there is no handler, and
`delivered_deliverTo` says where the attempts end: at the first lookup that finds no handler, at the
first call that does not raise, or at the last attempt. The exception of the last attempt is turned
into a text before anything is pushed, so that a delivery can end without a success and without a
dead-letter entry (`deliverTo_one_outcome_iff`).
-/

namespace MeshRouter.Broker.FanOut

open Messages

/-- How a call of a handler ended. -/
def outcome? (handlers : ℕ → String → Option HandlerCall) (c : Invocation) :
    Option HandlerOutcome :=
  (handlers c.lookup c.agentId).map fun handler => (handler c.seen).1

/-- How the call of the `k`-th lookup ends, or `none` when a lookup up to it finds no handler. -/
def outcomeAt (handlers : ℕ → String → Option HandlerCall) (agentId : String) (s : FanOut) :
    ℕ → Option HandlerOutcome
  | 0 => (handlers s.lookups agentId).map fun handler => (handler s.object).1
  | k + 1 =>
    match handlers s.lookups agentId with
    | none => none
    | some handler => outcomeAt handlers agentId (s.invoke agentId (handler s.object).2) k

/-- The call raised an `Exception`. -/
def Raised (outcome : Option HandlerOutcome) : Prop :=
  ∃ message, outcome = some (.raised message)

/-- What a delivery adds to the calls of handlers and to the dead-letter queue. -/
structure Adds (s t : FanOut) (calls : List Invocation) (letters : List DeadLetterRef) : Prop where
  invocations_eq : t.invocations = s.invocations ++ calls
  deadLetters_eq : t.deadLetters = s.deadLetters ++ letters

/-- The ways in which the attempts from the given one on end at the `k`-th lookup: the number of
calls that have been made, and what is dead-lettered. -/
inductive EndsAt (handlers : ℕ → String → Option HandlerCall) (maxDeliveryAttempts : ℤ)
    (agentId : String) (attempt : ℕ) (s : FanOut) (k : ℕ) : ℕ → List DeadLetterRef → Prop where
  | disappeared : outcomeAt handlers agentId s k = none →
      EndsAt handlers maxDeliveryAttempts agentId attempt s k k
        [{ reason := "handler_disappeared", attemptCount := attempt + k }]
  | returned : outcomeAt handlers agentId s k = some .returned →
      EndsAt handlers maxDeliveryAttempts agentId attempt s k (k + 1) []
  | cancelled : outcomeAt handlers agentId s k = some .cancelledError →
      EndsAt handlers maxDeliveryAttempts agentId attempt s k (k + 1) []
  | gaveUp {message : String} : outcomeAt handlers agentId s k = some (.raised (some message)) →
      maxDeliveryAttempts ≤ attempt + k →
      EndsAt handlers maxDeliveryAttempts agentId attempt s k (k + 1)
        [{ reason := "handler_error", errorDetail := message, attemptCount := attempt + k }]
  | unprintable : outcomeAt handlers agentId s k = some (.raised none) →
      maxDeliveryAttempts ≤ attempt + k →
      EndsAt handlers maxDeliveryAttempts agentId attempt s k (k + 1) []

/-- A delivery from an attempt on: all calls up to the `k`-th lookup raise, and it ends there. -/
structure Delivered (handlers : ℕ → String → Option HandlerCall) (maxDeliveryAttempts : ℤ)
    (agentId : String) (attempt : ℕ) (s t : FanOut) (k : ℕ) (calls : List Invocation)
    (letters : List DeadLetterRef) : Prop where
  adds : Adds s t calls letters
  agentId_eq : ∀ c ∈ calls, c.agentId = agentId
  outcomes_eq :
    calls.map (outcome? handlers) = (List.range calls.length).map (outcomeAt handlers agentId s)
  raised : ∀ j < k, Raised (outcomeAt handlers agentId s j)
  attempts : k = 0 ∨ attempt + k ≤ maxDeliveryAttempts
  endsAt : EndsAt handlers maxDeliveryAttempts agentId attempt s k calls.length letters

variable {handlers : ℕ → String → Option HandlerCall} {maxDeliveryAttempts : ℤ} {agentId : String}
  {attempt k : ℕ} {s t : FanOut} {calls : List Invocation} {letters : List DeadLetterRef}

section Call

variable {handler : HandlerCall} {outcome : HandlerOutcome} {object : MessageEnvelope}
  (hhandler : handlers s.lookups agentId = some handler)
  (hcall : handler s.object = (outcome, object))

include hhandler hcall

/-- How the call of the first lookup ends. -/
theorem outcomeAt_zero : outcomeAt handlers agentId s 0 = some outcome := by
  rw [outcomeAt, hhandler, Option.map_some, hcall]

/-- The lookups after a call are the later ones of those before it. -/
theorem outcomeAt_invoke :
    outcomeAt handlers agentId (s.invoke agentId object) =
      fun k => outcomeAt handlers agentId s (k + 1) := by
  funext k
  rw [outcomeAt, hhandler]
  dsimp only
  rw [hcall]

end Call

/-- An attempt that is retried, and then the attempts from the next one on. -/
theorem Delivered.retry {handler : HandlerCall} {message : Option String} {object : MessageEnvelope}
    (hhandler : handlers s.lookups agentId = some handler)
    (hcall : handler s.object = (.raised message, object)) (hlt : attempt < maxDeliveryAttempts)
    (h : Delivered handlers maxDeliveryAttempts agentId (attempt + 1) (s.invoke agentId object) t k
      calls letters) :
    Delivered handlers maxDeliveryAttempts agentId attempt s t (k + 1)
      (⟨s.lookups, agentId, s.object⟩ :: calls) letters := by
  obtain ⟨⟨hinvocations, hletters⟩, hagent, houtcomes, hbefore, hattempts, hends⟩ := h
  have hshift := outcomeAt_invoke hhandler hcall
  have hfirst := outcomeAt_zero hhandler hcall
  rw [hshift] at houtcomes hbefore
  refine ⟨⟨?_, hletters⟩, ?_, ?_, ?_, .inr ?_, ?_⟩
  · rw [hinvocations, invoke]
    simp
  · exact List.forall_mem_cons.mpr ⟨rfl, hagent⟩
  · rw [List.map_cons, houtcomes, List.length_cons, List.range_succ_eq_map, List.map_cons,
      List.map_map]
    rfl
  · intro j hj
    cases j with
    | zero => exact ⟨message, hfirst⟩
    | succ j => exact hbefore j (by omega)
  · omega
  · have hcount : attempt + 1 + k = attempt + (k + 1) := by omega
    rw [List.length_cons]
    generalize calls.length = n at hends ⊢
    cases hends with
    | disappeared hnone => exact hcount ▸ .disappeared (congrFun hshift k ▸ hnone)
    | returned hreturned => exact .returned (congrFun hshift k ▸ hreturned)
    | cancelled hcancelled => exact .cancelled (congrFun hshift k ▸ hcancelled)
    | gaveUp hlast hmax =>
      exact hcount ▸ .gaveUp (congrFun hshift k ▸ hlast) (by push_cast at hmax ⊢; omega)
    | unprintable hlast hmax =>
      exact .unprintable (congrFun hshift k ▸ hlast) (by push_cast at hmax ⊢; omega)

/-- An attempt that is the last one. -/
theorem Delivered.last
    (hinvocations : t.invocations = s.invocations ++ [⟨s.lookups, agentId, s.object⟩])
    (hletters : t.deadLetters = s.deadLetters ++ letters)
    (hends : EndsAt handlers maxDeliveryAttempts agentId attempt s 0 1 letters) :
    Delivered handlers maxDeliveryAttempts agentId attempt s t 0 [⟨s.lookups, agentId, s.object⟩]
      letters :=
  ⟨⟨hinvocations, hletters⟩, by simp, rfl, by simp, .inl rfl, hends⟩

/-- Every delivery ends. -/
theorem delivered_deliverTo (handlers : ℕ → String → Option HandlerCall) (maxDeliveryAttempts : ℤ)
    (agentId : String) (attempt : ℕ) (s : FanOut) :
    ∃ k calls letters, Delivered handlers maxDeliveryAttempts agentId attempt s
      (deliverTo handlers maxDeliveryAttempts agentId attempt s) k calls letters := by
  fun_induction deliverTo handlers maxDeliveryAttempts agentId attempt s with
  | case1 attempt s hnone =>
    have houtcome : outcomeAt handlers agentId s 0 = none := by
      rw [outcomeAt, hnone, Option.map_none]
    exact ⟨0, [], _, ⟨(List.append_nil _).symm, rfl⟩, by simp, rfl, by simp, .inl rfl,
      .disappeared houtcome⟩
  | case2 attempt s handler hhandler object s₁ hcall =>
    have hreturned := outcomeAt_zero hhandler hcall
    exact ⟨0, _, [], .last rfl (List.append_nil _).symm (.returned hreturned)⟩
  | case3 attempt s handler hhandler object s₁ hcall =>
    have hcancelled := outcomeAt_zero hhandler hcall
    exact ⟨0, _, [], .last rfl (List.append_nil _).symm (.cancelled hcancelled)⟩
  | case4 attempt s handler hhandler object s₁ message hlt hcall ih =>
    obtain ⟨k, calls, letters, hdelivered⟩ := ih
    exact ⟨k + 1, _, letters, hdelivered.retry hhandler hcall hlt⟩
  | case5 attempt s handler hhandler object s₁ hge message hcall =>
    have hraised := outcomeAt_zero hhandler hcall
    exact ⟨0, _, _, .last rfl rfl (.gaveUp hraised (by push_cast; omega))⟩
  | case6 attempt s handler hhandler object s₁ hge hcall =>
    have hraised := outcomeAt_zero hhandler hcall
    exact ⟨0, _, [], .last rfl (List.append_nil _).symm
      (.unprintable hraised (by push_cast; omega))⟩

/-- What a delivery adds is determined. -/
theorem Adds.unique {calls' : List Invocation} {letters' : List DeadLetterRef}
    (h : Adds s t calls letters) (h' : Adds s t calls' letters') :
    calls = calls' ∧ letters = letters' :=
  ⟨List.append_cancel_left (h.invocations_eq.symm.trans h'.invocations_eq),
    List.append_cancel_left (h.deadLetters_eq.symm.trans h'.deadLetters_eq)⟩

/-- One call a lookup. -/
theorem EndsAt.calls_le {n : ℕ}
    (h : EndsAt handlers maxDeliveryAttempts agentId attempt s k n letters) : n ≤ k + 1 := by
  cases h <;> omega

/-- Attempts that end at a call that raised were the last ones. -/
theorem EndsAt.of_raised {n : ℕ}
    (h : EndsAt handlers maxDeliveryAttempts agentId attempt s k n letters)
    (hraised : Raised (outcomeAt handlers agentId s k)) : maxDeliveryAttempts ≤ attempt + k := by
  obtain ⟨message, hraised⟩ := hraised
  cases h with
  | disappeared hnone => simp [hraised] at hnone
  | returned hreturned => simp [hraised] at hreturned
  | cancelled hcancelled => simp [hraised] at hcancelled
  | gaveUp _ hmax => exact hmax
  | unprintable _ hmax => exact hmax

/-- Attempts that end at a lookup that finds nothing have made one call less than is counted. -/
theorem EndsAt.of_none {n : ℕ}
    (h : EndsAt handlers maxDeliveryAttempts agentId attempt s k n letters)
    (hnone : outcomeAt handlers agentId s k = none) :
    n = k ∧ letters = [{ reason := "handler_disappeared", attemptCount := attempt + k }] := by
  cases h with
  | disappeared _ => exact ⟨rfl, rfl⟩
  | returned hreturned => simp [hnone] at hreturned
  | cancelled hcancelled => simp [hnone] at hcancelled
  | gaveUp hraised _ => simp [hnone] at hraised
  | unprintable hraised _ => simp [hnone] at hraised

namespace Delivered

variable (h : Delivered handlers maxDeliveryAttempts agentId attempt s t k calls letters)

include h

/-- The calls end as the lookups tell. -/
theorem outcome_of_mem {c : Invocation} (hc : c ∈ calls) :
    ∃ j < calls.length, outcomeAt handlers agentId s j = outcome? handlers c := by
  have hmem : outcome? handlers c ∈ calls.map (outcome? handlers) := List.mem_map_of_mem hc
  rw [h.outcomes_eq] at hmem
  obtain ⟨j, hj, heq⟩ := List.mem_map.mp hmem
  exact ⟨j, List.mem_range.mp hj, heq⟩

/-- Where there is a last lookup with a handler, its call is the last one. -/
theorem calls_eq_concat (hlength : calls.length = k + 1) :
    ∃ before c, calls = before ++ [c] ∧ outcome? handlers c = outcomeAt handlers agentId s k ∧
      ∀ d ∈ before, Raised (outcome? handlers d) := by
  obtain rfl | ⟨before, c, rfl⟩ := List.eq_nil_or_concat' calls
  · simp at hlength
  · have houtcomes := h.outcomes_eq
    rw [hlength, List.range_succ, List.map_append, List.map_append] at houtcomes
    obtain ⟨hbefore, hlast⟩ := List.append_inj' houtcomes rfl
    refine ⟨before, c, rfl, (List.cons.inj hlast).1, fun d hd => ?_⟩
    have hmem : outcome? handlers d ∈ before.map (outcome? handlers) := List.mem_map_of_mem hd
    rw [hbefore] at hmem
    obtain ⟨j, hj, heq⟩ := List.mem_map.mp hmem
    exact heq ▸ h.raised j (List.mem_range.mp hj)

/-- The attempts end at a lookup that finds nothing, if they come to it. -/
theorem lookup_eq_of_none {j : ℕ} (hj : j = 0 ∨ attempt + j ≤ maxDeliveryAttempts)
    (hbefore : ∀ i < j, Raised (outcomeAt handlers agentId s i))
    (hnone : outcomeAt handlers agentId s j = none) : j = k := by
  refine le_antisymm (not_lt.mp fun hlt => ?_) (not_lt.mp fun hlt => ?_)
  · have hmax := h.endsAt.of_raised (hbefore k hlt)
    omega
  · obtain ⟨message, hraised⟩ := h.raised j hlt
    simp [hnone] at hraised

/-- Where the attempts that may be made all raise, they end at the last of them. -/
theorem lookup_eq_of_raised {j : ℕ} (hlast : maxDeliveryAttempts ≤ attempt + j)
    (hbefore : ∀ i ≤ j, Raised (outcomeAt handlers agentId s i))
    (hneeded : j = 0 ∨ attempt + j ≤ maxDeliveryAttempts) : j = k := by
  have hattempts := h.attempts
  refine le_antisymm (not_lt.mp fun hlt => ?_) (by omega)
  have hmax := h.endsAt.of_raised (hbefore k hlt.le)
  omega

end Delivered

/-- A delivery whose calls each return or raise an `Exception`, with how the calls end that the
handlers make of it. It ends in one of two ways: its last call is the only one that succeeds and
nothing is dead-lettered, or every call raises, a lookup finds no handler or the attempts are used
up, and one entry is dead-lettered. It makes at most `max 1 max_delivery_attempts` calls. -/
def OneOutcome (handlers : ℕ → String → Option HandlerCall) (maxDeliveryAttempts : ℤ)
    (agentId : String) (s t : FanOut) : Prop :=
  ∃ calls letters, Adds s t calls letters ∧ (∀ c ∈ calls, c.agentId = agentId) ∧
    calls.map (outcome? handlers) = (List.range calls.length).map (outcomeAt handlers agentId s) ∧
    calls.length ≤ max 1 maxDeliveryAttempts ∧
    ((∃ before c, calls = before ++ [c] ∧ outcome? handlers c = some .returned ∧
        (∀ d ∈ before, Raised (outcome? handlers d)) ∧ letters = []) ∨
      (∀ c ∈ calls, Raised (outcome? handlers c)) ∧
        (outcomeAt handlers agentId s calls.length = none ∨
          max 1 maxDeliveryAttempts ≤ calls.length) ∧
        ∃ letter, letters = [letter])

/-- A delivery whose calls each return or raise an `Exception` ends in one of the two ways exactly
when the exception of the last attempt has a text, if all attempts raise. -/
theorem deliverTo_one_outcome_iff (handlers : ℕ → String → Option HandlerCall)
    (maxDeliveryAttempts : ℤ) (agentId : String) (s : FanOut)
    (hraise : ∀ lookup handler object, handlers lookup agentId = some handler →
      (handler object).1 ≠ .cancelledError) :
    OneOutcome handlers maxDeliveryAttempts agentId s
        (deliverTo handlers maxDeliveryAttempts agentId 1 s) ↔
      ∀ k : ℕ, k + 1 = max 1 maxDeliveryAttempts →
        (∀ j < k, Raised (outcomeAt handlers agentId s j)) →
        outcomeAt handlers agentId s k ≠ some (.raised none) := by
  obtain ⟨k₀, calls₀, letters₀, h⟩ :=
    delivered_deliverTo handlers maxDeliveryAttempts agentId 1 s
  have hattempts := h.attempts
  have hends := h.endsAt
  have hlength : (calls₀.length : ℤ) ≤ max 1 maxDeliveryAttempts := by
    have hcalls := hends.calls_le
    omega
  -- Where the last attempt raises what has no text, the delivery ends there.
  have hlast : ∀ k : ℕ, k + 1 = max 1 maxDeliveryAttempts →
      (∀ j < k, Raised (outcomeAt handlers agentId s j)) →
      outcomeAt handlers agentId s k = some (.raised none) → k = k₀ := by
    intro k hk hbefore hnone
    refine h.lookup_eq_of_raised (by omega) (fun j hj => ?_) (by omega)
    rcases hj.lt_or_eq with hlt | rfl
    · exact hbefore j hlt
    · exact ⟨none, hnone⟩
  generalize hn : calls₀.length = n at hends
  cases hends with
  | disappeared hnone =>
    refine iff_of_true ⟨calls₀, _, h.adds, h.agentId_eq, h.outcomes_eq, hlength, .inr ⟨?_, ?_, _,
      rfl⟩⟩ fun k hk hbefore hunprintable => ?_
    · intro c hc
      obtain ⟨j, hj, heq⟩ := h.outcome_of_mem hc
      exact heq ▸ h.raised j (hn ▸ hj)
    · exact .inl (hn ▸ hnone)
    · obtain rfl := hlast k hk hbefore hunprintable
      simp [hnone] at hunprintable
  | returned hreturned =>
    obtain ⟨before, c, hcalls, hc, hbefore⟩ := h.calls_eq_concat hn
    refine iff_of_true ⟨calls₀, _, h.adds, h.agentId_eq, h.outcomes_eq, hlength,
      .inl ⟨before, c, hcalls, hc.trans hreturned, hbefore, rfl⟩⟩ fun k hk hfirst hunprintable => ?_
    obtain rfl := hlast k hk hfirst hunprintable
    simp [hreturned] at hunprintable
  | cancelled hcancelled =>
    obtain ⟨before, c, hcalls, hc, -⟩ := h.calls_eq_concat hn
    obtain ⟨handler, hhandler, heq⟩ := Option.map_eq_some_iff.mp (hc.trans hcancelled)
    rw [h.agentId_eq c (by simp [hcalls])] at hhandler
    exact absurd heq (hraise _ _ _ hhandler)
  | gaveUp hraised hmax =>
    obtain ⟨before, c, hcalls, hc, hbefore⟩ := h.calls_eq_concat hn
    refine iff_of_true ⟨calls₀, _, h.adds, h.agentId_eq, h.outcomes_eq, hlength, .inr ⟨?_, ?_, _,
      rfl⟩⟩ fun k hk hfirst hunprintable => ?_
    · intro d hd
      rw [hcalls] at hd
      rcases List.mem_append.mp hd with hd | hd
      · exact hbefore d hd
      · rw [List.mem_singleton.mp hd, hc, hraised]
        exact ⟨_, rfl⟩
    · exact .inr (by rw [hn]; push_cast at hmax ⊢; omega)
    · obtain rfl := hlast k hk hfirst hunprintable
      simp [hraised] at hunprintable
  | unprintable hraised hmax =>
    obtain ⟨before, c, hcalls, hc, -⟩ := h.calls_eq_concat hn
    have hk₀ : (k₀ + 1 : ℤ) = max 1 maxDeliveryAttempts := by push_cast at hmax; omega
    refine iff_of_false ?_ fun hprintable => hprintable k₀ hk₀ h.raised hraised
    -- The last call raised, and nothing was pushed.
    rintro ⟨calls, letters, hadds, -, -, -, hone⟩
    obtain ⟨rfl, rfl⟩ := h.adds.unique hadds
    rcases hone with ⟨before', c', hcalls', hreturned, -, -⟩ | ⟨-, -, letter, hletter⟩
    · obtain ⟨-, hsame⟩ := List.append_inj' (hcalls.symm.trans hcalls') rfl
      obtain rfl := List.singleton_injective hsame
      simp [hc, hraised] at hreturned
    · simp at hletter

/-- The first call raises; another handler is subscribed meanwhile. -/
def replaced (lookup : ℕ) (_ : String) : Option HandlerCall :=
  if lookup = 0 then some fun envelope => (.raised (some "boom"), envelope)
  else some fun envelope => (.returned, envelope)

/-- A delivery whose handler is replaced between two attempts. -/
theorem deliverTo_one_outcome_replaced :
    (∀ lookup handler object, replaced lookup "agent-b" = some handler →
        (handler object).1 ≠ .cancelledError) ∧
      OneOutcome replaced 3 "agent-b" { object := announcement }
        (deliverTo replaced 3 "agent-b" 1 { object := announcement }) := by
  have hraise : ∀ lookup handler object, replaced lookup "agent-b" = some handler →
      (handler object).1 ≠ .cancelledError := by
    intro lookup handler object hhandler
    unfold replaced at hhandler
    split_ifs at hhandler
    · obtain rfl := Option.some.inj hhandler
      simp
    · obtain rfl := Option.some.inj hhandler
      simp
  refine ⟨hraise, (deliverTo_one_outcome_iff replaced 3 "agent-b" { object := announcement }
    hraise).mpr fun k hk hbefore => ?_⟩
  -- The second call returns, so that the last attempt is not made.
  have hsecond := hbefore 1 (by omega)
  obtain ⟨message, hsecond⟩ := hsecond
  simp [outcomeAt, replaced, invoke] at hsecond

/-- Every call raises an exception whose `str` raises. -/
def unprintable (_ : ℕ) (_ : String) : Option HandlerCall :=
  some fun envelope => (.raised none, envelope)

/-- One call, no success, and nothing is dead-lettered. -/
theorem unprintable_lost :
    (deliverTo unprintable 1 "agent-b" 1 { object := announcement }).deadLetters = [] ∧
      ((deliverTo unprintable 1 "agent-b" 1 { object := announcement }).invocations.map
        (outcome? unprintable)) = [some (.raised none)] ∧
      ¬ OneOutcome unprintable 1 "agent-b" { object := announcement }
        (deliverTo unprintable 1 "agent-b" 1 { object := announcement }) := by
  have hrun : deliverTo unprintable 1 "agent-b" 1 { object := announcement } =
      { object := announcement, lookups := 1, invocations := [⟨0, "agent-b", announcement⟩]
        escaped := true } := by
    simp [deliverTo, unprintable, invoke]
  rw [hrun]
  refine ⟨rfl, rfl, ?_⟩
  rintro ⟨calls, letters, ⟨hcalls, hletters⟩, -, -, -, hone⟩
  obtain rfl : calls = [⟨0, "agent-b", announcement⟩] := hcalls.symm
  obtain rfl : letters = [] := hletters.symm
  rcases hone with ⟨before, c, hsplit, hreturned, -, -⟩ | ⟨-, -, letter, hletter⟩
  · have hc : c = ⟨0, "agent-b", announcement⟩ := by
      have hlast := congrArg List.getLast? hsplit
      simpa using hlast.symm
    simp [hc, outcome?, unprintable] at hreturned
  · simp at hletter

/-! ## Attempt counts -/

/-- The dead-letter entry of a delivery counts the calls that the delivery has made exactly when
every lookup of the handler finds one: the first, and each later one up to `max_delivery_attempts`
whose predecessors all found a handler that raised. -/
theorem attemptCount_eq_calls_iff (handlers : ℕ → String → Option HandlerCall)
    (maxDeliveryAttempts : ℤ) (agentId : String) (s : FanOut) :
    (∃ calls letters, Adds s (deliverTo handlers maxDeliveryAttempts agentId 1 s) calls letters ∧
        ∀ letter ∈ letters, letter.attemptCount = calls.length) ↔
      ∀ k : ℕ, k < max 1 maxDeliveryAttempts →
        (∀ j < k, Raised (outcomeAt handlers agentId s j)) →
        outcomeAt handlers agentId s k ≠ none := by
  obtain ⟨k₀, calls₀, letters₀, h⟩ :=
    delivered_deliverTo handlers maxDeliveryAttempts agentId 1 s
  constructor
  · rintro ⟨calls, letters, hadds, hcount⟩ k hk hbefore hnone
    obtain ⟨rfl, rfl⟩ := h.adds.unique hadds
    obtain rfl := h.lookup_eq_of_none (by omega) hbefore hnone
    obtain ⟨hcalls, hletters⟩ := h.endsAt.of_none hnone
    have hone := hcount _ (hletters ▸ List.mem_cons_self)
    dsimp only at hone
    omega
  · intro hfound
    have hends := h.endsAt
    generalize hn : calls₀.length = n at hends
    refine ⟨calls₀, letters₀, h.adds, fun letter hletter => ?_⟩
    cases hends with
    | disappeared hnone =>
      have hattempts := h.attempts
      exact absurd hnone (hfound k₀ (by omega) h.raised)
    | returned _ => simp at hletter
    | cancelled _ => simp at hletter
    | unprintable _ _ => simp at hletter
    | gaveUp _ _ =>
      rw [List.mem_singleton.mp hletter, hn, Nat.add_comm]

/-- The only handler raises, and is unsubscribed before the second attempt. -/
def vanishing (lookup : ℕ) (_ : String) : Option HandlerCall :=
  if lookup = 0 then some fun envelope => (.raised (some "boom"), envelope) else none

/-- One call is counted as two. -/
theorem vanishing_counts_two :
    ((deliverTo vanishing 2 "agent-b" 1 { object := announcement }).deadLetters.map fun letter =>
        (letter.reason, letter.attemptCount)) = [("handler_disappeared", 2)] ∧
      ((deliverTo vanishing 2 "agent-b" 1 { object := announcement }).invocations.map fun c =>
        c.agentId) = ["agent-b"] ∧
      ¬ ∃ calls letters, Adds { object := announcement }
          (deliverTo vanishing 2 "agent-b" 1 { object := announcement }) calls letters ∧
        ∀ letter ∈ letters, letter.attemptCount = calls.length := by
  have hrun : deliverTo vanishing 2 "agent-b" 1 { object := announcement } =
      { object := announcement, lookups := 2, invocations := [⟨0, "agent-b", announcement⟩]
        deadLetters := [{ reason := "handler_disappeared", attemptCount := 2 }] } := by
    simp [deliverTo, vanishing, invoke, deadLetter]
  rw [hrun]
  refine ⟨rfl, rfl, ?_⟩
  rintro ⟨calls, letters, ⟨hcalls, hletters⟩, hcount⟩
  obtain rfl : calls = [⟨0, "agent-b", announcement⟩] := hcalls.symm
  obtain rfl : letters = [{ reason := "handler_disappeared", attemptCount := 2 }] := hletters.symm
  exact absurd (hcount _ List.mem_cons_self) (by decide)

end MeshRouter.Broker.FanOut
