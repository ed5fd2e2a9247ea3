import MeshRouter.Quotas.Cap

/-!
# The methods statement by statement

`check`, `record` and `check_and_record` as programs that change the enforcer as they go and may
raise at any point, with what was changed before still changed. `check` and `check_and_record` each
loop over the dimensions, and `record` and `check_and_record` each add to the counters one dimension
after the other.

Each method does what the function of its name in `ResourceQuota.lean` says (`call_check`,
`call_record`, `call_checkAndRecord`): what it raises, it raises before it changes anything.
`checkAndRecord_atomic` puts together what this comes to in every state of a run.
-/

namespace MeshRouter.Quotas

open Lib

/-- A program of the enforcer. -/
abbrev Method (α : Type) := ExceptT QuotaError (StateM QuotaEnforcer) α

namespace Method

variable {α β : Type} {agentId : String} {quota : ResourceQuota} {current requests : Amounts}
  {e : QuotaEnforcer}

/-- What a call returns or raises, and the enforcer after it. -/
def call (method : Method α) (e : QuotaEnforcer) : Except QuotaError α × QuotaEnforcer :=
  StateT.run (ExceptT.run method) e

@[simp]
theorem call_throw (err : QuotaError) (e : QuotaEnforcer) :
    call (throw err : Method α) e = (.error err, e) := rfl

/-- A statement, and what follows it if it returns. -/
theorem call_bind (x : Method α) (f : α → Method β) (e : QuotaEnforcer) :
    call (x >>= f) e =
      match call x e with
      | (.ok a, e') => call (f a) e'
      | (.error err, e') => (.error err, e') := by
  unfold call ExceptT.run StateT.run
  simp only [bind, ExceptT.bind, ExceptT.mk, StateT.bind, ExceptT.bindCont]
  cases x e with
  | mk result e' => cases result <;> rfl

/-! ## The statements -/

/-- The quota and the usage of an agent. -/
def lookUp (agentId : String) : Method (ResourceQuota × Amounts) := do
  let e ← get
  match e.quotas.get? agentId with
  | none => throw (.notRegistered agentId)
  | some quota =>
    match e.usage.get? agentId with
    | none => throw (.keyError agentId)
    | some current => return (quota, current)

/-- The loop over the requests: whether none exceeds what remains of its limit. -/
def checkLoop (agentId : String) (quota : ResourceQuota) (current requests : Amounts)
    (raiseOnViolation : Bool) : List Dimension → Method Bool
  | [] => return true
  | dimension :: rest =>
    if requests.get dimension ≤ 0 then
      checkLoop agentId quota current requests raiseOnViolation rest
    else
      match quota.dimensions dimension with
      | none => checkLoop agentId quota current requests raiseOnViolation rest
      | some limit =>
        let remaining := max 0 (limit - current.get dimension)
        if remaining < requests.get dimension then
          if raiseOnViolation then
            throw (.violation ⟨agentId, dimension, requests.get dimension, remaining, limit⟩)
          else
            return false
        else
          checkLoop agentId quota current requests raiseOnViolation rest

/-- The loop over the amounts that refuses a negative one. -/
def refuseNegative (amounts : Amounts) : List Dimension → Method Unit
  | [] => return ()
  | dimension :: rest =>
    if amounts.get dimension < 0 then
      throw (.negative dimension (amounts.get dimension))
    else
      refuseNegative amounts rest

/-- `current[dimension] += value`, where `current` is the usage record of the agent. -/
def increase (agentId : String) (update : Amounts → Amounts) : Method Unit :=
  modify fun e =>
    match e.usage.get? agentId with
    | none => e
    | some current => { e with usage := e.usage.set agentId (update current) }

/-- The additions, one dimension after the other. -/
def increaseAll (agentId : String) (m : Amounts) : Method Unit := do
  increase agentId fun current => { current with tokens := current.tokens + m.tokens }
  increase agentId fun current => { current with memoryMb := current.memoryMb + m.memoryMb }
  increase agentId fun current => { current with cpuSeconds := current.cpuSeconds + m.cpuSeconds }
  increase agentId fun current => { current with apiCalls := current.apiCalls + m.apiCalls }

/-! ## The methods -/

/-- `check`. -/
def check (agentId : String) (requests : Amounts) (raiseOnViolation : Bool) : Method Bool := do
  let (quota, current) ← lookUp agentId
  checkLoop agentId quota current requests raiseOnViolation Dimension.all

/-- `record`. -/
def record (agentId : String) (amounts : Amounts) : Method Unit := do
  refuseNegative amounts Dimension.all
  let _ ← lookUp agentId
  increaseAll agentId amounts

/-- `check_and_record`. -/
def checkAndRecord (agentId : String) (requests : Amounts) (raiseOnViolation : Bool) :
    Method Bool := do
  let (quota, current) ← lookUp agentId
  let fits ← checkLoop agentId quota current requests raiseOnViolation Dimension.all
  if fits then
    increaseAll agentId requests
    return true
  else
    return false

/-! ## What the statements do -/

theorem call_lookUp (agentId : String) (e : QuotaEnforcer) :
    call (lookUp agentId) e = (e.entry agentId, e) := by
  unfold lookUp QuotaEnforcer.entry
  rw [call_bind]
  change call _ e = _
  cases e.quotas.get? agentId with
  | none => rfl
  | some quota =>
    dsimp only
    cases e.usage.get? agentId <;> rfl

/-- A turn of the loop. -/
theorem checkLoop_cons (raiseOnViolation : Bool) (dimension : Dimension) (rest : List Dimension) :
    checkLoop agentId quota current requests raiseOnViolation (dimension :: rest) =
      match exceeds agentId quota current requests dimension with
      | none => checkLoop agentId quota current requests raiseOnViolation rest
      | some violation =>
        if raiseOnViolation then throw (.violation violation) else return false := by
  rw [checkLoop, exceeds]
  dsimp only
  by_cases hpos : requests.get dimension ≤ 0
  · rw [if_pos hpos, if_pos hpos]
  · rw [if_neg hpos, if_neg hpos]
    cases quota.dimensions dimension with
    | none => rfl
    | some limit =>
      dsimp only
      by_cases hover : max 0 (limit - current.get dimension) < requests.get dimension
      · rw [if_pos hover, if_pos hover]
      · rw [if_neg hover, if_neg hover]

/-- What the loop comes to. -/
def verdict (raiseOnViolation : Bool) : Option QuotaViolation → Except QuotaError Bool
  | none => .ok true
  | some violation => if raiseOnViolation then .error (.violation violation) else .ok false

/-- The loop changes nothing, and stops at the first violation. -/
theorem call_checkLoop (raiseOnViolation : Bool) (dimensions : List Dimension) :
    call (checkLoop agentId quota current requests raiseOnViolation dimensions) e =
      (verdict raiseOnViolation (dimensions.findSome? (exceeds agentId quota current requests)),
        e) := by
  induction dimensions with
  | nil => rfl
  | cons dimension rest ih =>
    rw [checkLoop_cons, List.findSome?_cons]
    cases exceeds agentId quota current requests dimension with
    | none => exact ih
    | some violation => cases raiseOnViolation <;> rfl

theorem call_refuseNegative (amounts : Amounts) (dimensions : List Dimension) :
    call (refuseNegative amounts dimensions) e =
      (match dimensions.find? fun d => amounts.get d < 0 with
        | none => .ok ()
        | some dimension => .error (.negative dimension (amounts.get dimension)), e) := by
  induction dimensions with
  | nil => rfl
  | cons dimension rest ih =>
    rw [refuseNegative, List.find?_cons]
    split_ifs with hneg
    · simp [hneg]
    · simp [hneg, ih]

/-- One addition. -/
theorem call_increase (update : Amounts → Amounts) (h : e.usage.get? agentId = some current) :
    call (increase agentId update) e =
      (.ok (), { e with usage := e.usage.set agentId (update current) }) := by
  unfold increase
  change (Except.ok (), match e.usage.get? agentId with
    | none => e
    | some current => { e with usage := e.usage.set agentId (update current) }) = _
  rw [h]

/-- The four additions are one. -/
theorem call_increaseAll (m : Amounts) (h : e.usage.get? agentId = some current) :
    call (increaseAll agentId m) e =
      (.ok (), { e with usage := e.usage.set agentId (current.add m) }) := by
  have hget : ∀ m', (e.usage.set agentId m').get? agentId = some m' := fun m' => by simp
  unfold increaseAll
  rw [call_bind, call_increase _ h]
  dsimp only
  rw [call_bind, call_increase _ (hget _), Dict.set_set]
  dsimp only
  rw [call_bind, call_increase _ (hget _), Dict.set_set]
  dsimp only
  rw [call_increase _ (hget _), Dict.set_set]
  rfl

/-! ## What the methods do -/

/-- `check` of an agent with an entry. -/
theorem check_of_entry (h : e.entry agentId = .ok (quota, current)) (raiseOnViolation : Bool) :
    e.check agentId requests raiseOnViolation =
      verdict raiseOnViolation (firstViolation agentId quota current requests) := by
  unfold QuotaEnforcer.check
  rw [h]
  change (match firstViolation agentId quota current requests with
    | none => _
    | some violation => _) = _
  cases firstViolation agentId quota current requests with
  | none => rfl
  | some violation => cases raiseOnViolation <;> rfl

/-- `check_and_record` of an agent with an entry. -/
theorem checkAndRecord_of_entry (h : e.entry agentId = .ok (quota, current))
    (raiseOnViolation : Bool) :
    e.checkAndRecord agentId requests raiseOnViolation =
      (verdict raiseOnViolation (firstViolation agentId quota current requests)).map fun fits =>
        (fits, if fits then { e with usage := e.usage.set agentId (current.add requests) } else e)
    := by
  unfold QuotaEnforcer.checkAndRecord
  rw [h]
  change (match firstViolation agentId quota current requests with
    | none => _
    | some violation => _) = _
  cases firstViolation agentId quota current requests with
  | none => rfl
  | some violation => cases raiseOnViolation <;> rfl

/-- `check` changes nothing. -/
theorem call_check (agentId : String) (requests : Amounts) (raiseOnViolation : Bool)
    (e : QuotaEnforcer) :
    call (check agentId requests raiseOnViolation) e =
      (e.check agentId requests raiseOnViolation, e) := by
  unfold check
  rw [call_bind, call_lookUp]
  cases hentry : e.entry agentId with
  | error err =>
    unfold QuotaEnforcer.check
    rw [hentry]
    rfl
  | ok entry =>
    dsimp only
    rw [call_checkLoop, check_of_entry hentry]
    rfl

/-- The enforcer after a call that returns a new one, or raises and leaves it. -/
def outcome {α : Type} (e : QuotaEnforcer) :
    Except QuotaError (α × QuotaEnforcer) → Except QuotaError α × QuotaEnforcer
  | .ok (a, e') => (.ok a, e')
  | .error err => (.error err, e)

/-- `record` raises before it adds anything. -/
theorem call_record (agentId : String) (amounts : Amounts) (e : QuotaEnforcer) :
    call (record agentId amounts) e =
      outcome e ((e.record agentId amounts).map fun e' => ((), e')) := by
  unfold record QuotaEnforcer.record
  rw [call_bind, call_refuseNegative]
  cases Dimension.all.find? fun d => amounts.get d < 0 with
  | some dimension => rfl
  | none =>
    dsimp only
    rw [call_bind, call_lookUp]
    cases hentry : e.entry agentId with
    | error err => rfl
    | ok entry => exact call_increaseAll amounts (QuotaEnforcer.entry_eq_ok.mp hentry).2

/-- `check_and_record` raises before it adds anything. -/
theorem call_checkAndRecord (agentId : String) (requests : Amounts) (raiseOnViolation : Bool)
    (e : QuotaEnforcer) :
    call (checkAndRecord agentId requests raiseOnViolation) e =
      outcome e (e.checkAndRecord agentId requests raiseOnViolation) := by
  unfold checkAndRecord
  rw [call_bind, call_lookUp]
  cases hentry : e.entry agentId with
  | error err =>
    unfold QuotaEnforcer.checkAndRecord
    rw [hentry]
    rfl
  | ok entry =>
    have hadd := call_increaseAll requests (QuotaEnforcer.entry_eq_ok.mp hentry).2
    dsimp only
    rw [call_bind, call_checkLoop, checkAndRecord_of_entry hentry]
    unfold firstViolation
    cases Dimension.all.findSome? (exceeds agentId entry.1 entry.2 requests) with
    | none =>
      dsimp only [verdict]
      rw [if_pos rfl, call_bind, hadd]
      rfl
    | some violation => cases raiseOnViolation <;> rfl

/-! ### Agents with an entry -/

theorem verdict_some_ne (raiseOnViolation : Bool) (violation : QuotaViolation) :
    verdict raiseOnViolation (some violation) ≠ .ok true := by
  cases raiseOnViolation <;> simp [verdict]

section Entry

variable (hentry : e.entry agentId = .ok (quota, current))

include hentry

theorem call_check_of_entry (raiseOnViolation : Bool) :
    call (check agentId requests raiseOnViolation) e =
      (verdict raiseOnViolation (firstViolation agentId quota current requests), e) := by
  rw [call_check, check_of_entry hentry]

/-- A request that fits is added. -/
theorem call_checkAndRecord_of_fits (raiseOnViolation : Bool)
    (hfits : firstViolation agentId quota current requests = none) :
    call (checkAndRecord agentId requests raiseOnViolation) e =
      (.ok true, { e with usage := e.usage.set agentId (current.add requests) }) := by
  rw [call_checkAndRecord, checkAndRecord_of_entry hentry, hfits]
  rfl

/-- Another request is not. -/
theorem call_checkAndRecord_of_violation (raiseOnViolation : Bool) {violation : QuotaViolation}
    (hviolation : firstViolation agentId quota current requests = some violation) :
    call (checkAndRecord agentId requests raiseOnViolation) e =
      (verdict raiseOnViolation (some violation), e) := by
  rw [call_checkAndRecord, checkAndRecord_of_entry hentry, hviolation]
  cases raiseOnViolation <;> rfl

/-- Amounts of which none is negative are added. -/
theorem call_record_of_entry {amounts : Amounts} (hamounts : ∀ d, 0 ≤ amounts.get d) :
    call (record agentId amounts) e =
      (.ok (), { e with usage := e.usage.set agentId (current.add amounts) }) := by
  have hnonneg : (Dimension.all.find? fun d => amounts.get d < 0) = none := by
    simpa using fun d _ => hamounts d
  rw [call_record, QuotaEnforcer.record, hnonneg, hentry]
  rfl

end Entry

end Method

/-! ## The first violation -/

/-- The violation is about the first dimension in which the request does not fit, and has what
remains of its limit. -/
structure FirstViolated (agentId : String) (quota : ResourceQuota) (current requests : Amounts)
    (violation : QuotaViolation) : Prop where
  agentId_eq : violation.agentId = agentId
  requested_eq : violation.requested = requests.get violation.dimension
  limit_eq : quota.dimensions violation.dimension = some violation.limit
  remaining_eq :
    violation.remaining = max 0 (violation.limit - current.get violation.dimension)
  exceeded : violation.remaining < violation.requested
  first : ∃ before after, Dimension.all = before ++ violation.dimension :: after ∧
    ∀ d ∈ before, Fits quota current requests d

section Violation

variable {agentId : String} {quota : ResourceQuota} {current requests : Amounts}
  {violation : QuotaViolation}

/-- What the first violation says. -/
theorem firstViolated_of_eq_some
    (h : firstViolation agentId quota current requests = some violation) :
    FirstViolated agentId quota current requests violation := by
  obtain ⟨before, d, after, hsplit, hd, hbefore⟩ := List.findSome?_eq_some_iff.mp h
  have hfirst : ∀ d' ∈ before, Fits quota current requests d' := fun d' hd' =>
    exceeds_eq_none_iff.mp (hbefore d' hd')
  unfold exceeds at hd
  dsimp only at hd
  split at hd
  · cases hd
  · split at hd
    · cases hd
    · rename_i limit hlimit
      split_ifs at hd with hover
      obtain rfl := Option.some.inj hd
      exact ⟨rfl, rfl, hlimit, rfl, hover, before, after, hsplit, hfirst⟩

end Violation

namespace Ledger

variable {s : Ledger} {calls : List QuotaCall} {agentId : String} {requests : Amounts}

/-- In every state of a run, for a registered agent and a request without a negative amount,
`check_and_record` returns `True` exactly when `check` does, and then leaves the enforcer as
`record` does. Otherwise it returns `False` or raises a violation of the first dimension in which
the request does not fit, and leaves the enforcer as it was. `check` never changes it. -/
theorem checkAndRecord_atomic (h : run step {} calls = some s)
    (hregistered : agentId ∈ s.enforcer.quotas.keys) (hrequests : ∀ d, 0 ≤ requests.get d)
    (raiseOnViolation : Bool) :
    let e := s.enforcer
    let result := (Method.checkAndRecord agentId requests raiseOnViolation).call e
    (∀ raises, result.1 = .ok true ↔ ((Method.check agentId requests raises).call e).1 = .ok true) ∧
    (result.1 = .ok true →
      (Method.record agentId requests).call e = (.ok (), result.2)) ∧
    (result.1 ≠ .ok true → result.2 = e ∧
      ∃ quota current violation, e.quotas.get? agentId = some quota ∧
        e.usage.get? agentId = some current ∧
        FirstViolated agentId quota current requests violation ∧
        result.1 = if raiseOnViolation then .error (.violation violation) else .ok false) ∧
    ∀ raises, ((Method.check agentId requests raises).call e).2 = e := by
  obtain ⟨quota, current, hentry⟩ :=
    QuotaEnforcer.entry_of_mem (accounted_of_run h).keys hregistered
  obtain ⟨hquota, hcurrent⟩ := QuotaEnforcer.entry_eq_ok.mp hentry
  have hcheck : ∀ raises, (Method.check agentId requests raises).call s.enforcer =
      (Method.verdict raises (firstViolation agentId quota current requests), s.enforcer) :=
    Method.call_check_of_entry hentry
  dsimp only
  cases hv : firstViolation agentId quota current requests with
  | none =>
    rw [hv] at hcheck
    rw [Method.call_checkAndRecord_of_fits hentry raiseOnViolation hv]
    refine ⟨fun raises => ?_, fun _ => Method.call_record_of_entry hentry hrequests,
      fun hne => absurd rfl hne, fun raises => ?_⟩
    · rw [hcheck]
      exact iff_of_true rfl rfl
    · rw [hcheck]
  | some violation =>
    rw [hv] at hcheck
    have hrefused := fun raises => Method.verdict_some_ne raises violation
    rw [Method.call_checkAndRecord_of_violation hentry raiseOnViolation hv]
    refine ⟨fun raises => ?_, fun hok => absurd hok (hrefused _), fun _ => ⟨rfl, quota, current,
      violation, hquota, hcurrent, firstViolated_of_eq_some hv, rfl⟩, fun raises => ?_⟩
    · rw [hcheck]
      exact iff_of_false (hrefused _) (hrefused _)
    · rw [hcheck]

/-- `checkAndRecord_atomic` after 200 of a thousand tokens: 900 more do not fit. -/
theorem checkAndRecord_atomic_thousandTokens :
    ∃ s, run step {} [.register thousandTokens, .record "agent_a" { tokens := 200 }] = some s ∧
      "agent_a" ∈ s.enforcer.quotas.keys ∧ (∀ d, 0 ≤ Amounts.get { tokens := 900 } d) ∧
      ((Method.checkAndRecord "agent_a" { tokens := 900 } true).call s.enforcer).1 =
        .error (.violation ⟨"agent_a", .tokens, 900, 800, 1000⟩) ∧
      ((Method.checkAndRecord "agent_a" { tokens := 900 } true).call s.enforcer).2 =
        s.enforcer := by
  have hcomputed : (run step {} [.register thousandTokens, .record "agent_a" { tokens := 200 }]).map
      (fun s => (decide ("agent_a" ∈ s.enforcer.quotas.keys),
        ((Method.checkAndRecord "agent_a" { tokens := 900 } true).call s.enforcer).1)) =
      some (true, .error (.violation ⟨"agent_a", .tokens, 900, 800, 1000⟩)) := by decide +kernel
  obtain ⟨s, hs, heq⟩ := Option.map_eq_some_iff.mp hcomputed
  obtain ⟨hregistered, hresult⟩ := Prod.mk.inj heq
  have hrequests : ∀ d, 0 ≤ Amounts.get { tokens := 900 } d := by decide +kernel
  have hrefused := (checkAndRecord_atomic hs (of_decide_eq_true hregistered) hrequests true).2.2.1
  exact ⟨s, hs, of_decide_eq_true hregistered, hrequests, hresult,
    (hrefused (by simp [hresult])).1⟩

end Ledger

end MeshRouter.Quotas
