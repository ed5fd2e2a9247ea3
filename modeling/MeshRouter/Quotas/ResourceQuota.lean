import Mathlib.Algebra.Order.Ring.Rat
import Mathlib.Data.Fintype.Basic
import MeshRouter.Lib.Dict
import MeshRouter.Lib.Text

/-!
# Resource quotas

`ResourceQuota` and `QuotaEnforcer` of `quotas/resource_quota.py`. A quota limits what an agent may
use in four dimensions, and the enforcer keeps what each agent has used. Amounts are exact
rationals. A quota with a blank agent id or a negative limit cannot be built (`postInit`).

Each method of the enforcer runs with its lock held, so it is one function on the enforcer here.
What it raises, it raises before it changes anything; `call` gives an error and no new state then.
-/

namespace MeshRouter.Quotas

open Lib

/-- The four dimensions. -/
inductive Dimension where
  | tokens
  | memoryMb
  | cpuSeconds
  | apiCalls
deriving DecidableEq, Repr

/-- The order in which the loops of the source take the dimensions. -/
def Dimension.all : List Dimension := [.tokens, .memoryMb, .cpuSeconds, .apiCalls]

theorem Dimension.mem_all (d : Dimension) : d ∈ Dimension.all := by
  cases d <;> decide

instance : Fintype Dimension := ⟨⟨Dimension.all, by decide⟩, Dimension.mem_all⟩

/-- An amount in each dimension: what a call asks for, or what an agent has used. -/
structure Amounts where
  tokens : ℚ := 0
  memoryMb : ℚ := 0
  cpuSeconds : ℚ := 0
  apiCalls : ℚ := 0
deriving DecidableEq

namespace Amounts

/-- The amount in a dimension. -/
def get (m : Amounts) : Dimension → ℚ
  | .tokens => m.tokens
  | .memoryMb => m.memoryMb
  | .cpuSeconds => m.cpuSeconds
  | .apiCalls => m.apiCalls

/-- `_zero_usage`. -/
def zero : Amounts := {}

/-- `current[…] += …`, in every dimension. -/
def add (current m : Amounts) : Amounts where
  tokens := current.tokens + m.tokens
  memoryMb := current.memoryMb + m.memoryMb
  cpuSeconds := current.cpuSeconds + m.cpuSeconds
  apiCalls := current.apiCalls + m.apiCalls

@[simp]
theorem get_zero (d : Dimension) : zero.get d = 0 := by
  cases d <;> rfl

@[simp]
theorem get_add (current m : Amounts) (d : Dimension) :
    (current.add m).get d = current.get d + m.get d := by
  cases d <;> rfl

end Amounts

/-- The checks of `ResourceQuota.__post_init__` that fail. -/
inductive QuotaFieldError where
  /-- "agent_id must not be empty." -/
  | emptyAgentId
  /-- "…_limit must be non-negative or None, got …." -/
  | negativeLimit (dimension : Dimension) (got : ℚ)
deriving DecidableEq

/-- Per-agent limits that `__post_init__` accepts; `none` is unlimited. -/
structure ResourceQuota where
  agentId : String
  tokenLimit : Option ℚ := none
  memoryLimitMb : Option ℚ := none
  cpuLimitSeconds : Option ℚ := none
  apiCallLimit : Option ℚ := none
  agentId_nonblank : ¬ Blank agentId
  tokenLimit_nonneg : ∀ limit ∈ tokenLimit, 0 ≤ limit
  memoryLimitMb_nonneg : ∀ limit ∈ memoryLimitMb, 0 ≤ limit
  cpuLimitSeconds_nonneg : ∀ limit ∈ cpuLimitSeconds, 0 ≤ limit
  apiCallLimit_nonneg : ∀ limit ∈ apiCallLimit, 0 ≤ limit
deriving DecidableEq

/-- A dimension without a limit has none that is negative. -/
theorem nonneg_of_unlimited : ∀ limit ∈ (none : Option ℚ), 0 ≤ limit := nofun

/-- One turn of the loop over the limits. -/
def checkLimit (dimension : Dimension) (limit : Option ℚ) :
    Except QuotaFieldError (PLift (∀ value ∈ limit, 0 ≤ value)) :=
  match limit with
  | none => .ok ⟨nonneg_of_unlimited⟩
  | some value =>
    if h : value < 0 then .error (.negativeLimit dimension value) else .ok ⟨by simpa using h⟩

/-- `__post_init__`. -/
def postInit (agentId : String) (tokenLimit memoryLimitMb cpuLimitSeconds apiCallLimit : Option ℚ) :
    Except QuotaFieldError ResourceQuota :=
  if hid : Blank agentId then
    .error .emptyAgentId
  else do
    let htoken ← checkLimit .tokens tokenLimit
    let hmemory ← checkLimit .memoryMb memoryLimitMb
    let hcpu ← checkLimit .cpuSeconds cpuLimitSeconds
    let hcall ← checkLimit .apiCalls apiCallLimit
    return ⟨agentId, tokenLimit, memoryLimitMb, cpuLimitSeconds, apiCallLimit, hid, htoken.down,
      hmemory.down, hcpu.down, hcall.down⟩

/-- `dimensions`: the limit in each dimension. -/
def ResourceQuota.dimensions (quota : ResourceQuota) : Dimension → Option ℚ
  | .tokens => quota.tokenLimit
  | .memoryMb => quota.memoryLimitMb
  | .cpuSeconds => quota.cpuLimitSeconds
  | .apiCalls => quota.apiCallLimit

/-- No limit of a quota is negative. -/
theorem ResourceQuota.dimensions_nonneg (quota : ResourceQuota) {d : Dimension} {limit : ℚ}
    (h : quota.dimensions d = some limit) : 0 ≤ limit := by
  cases d with
  | tokens => exact quota.tokenLimit_nonneg limit h
  | memoryMb => exact quota.memoryLimitMb_nonneg limit h
  | cpuSeconds => exact quota.cpuLimitSeconds_nonneg limit h
  | apiCalls => exact quota.apiCallLimit_nonneg limit h

/-- `QuotaViolation`. -/
structure QuotaViolation where
  agentId : String
  dimension : Dimension
  requested : ℚ
  remaining : ℚ
  limit : ℚ
deriving DecidableEq

/-- What the methods of the enforcer raise. -/
inductive QuotaError where
  /-- `KeyError`: "Agent '…' is not registered." -/
  | notRegistered (agentId : String)
  /-- Python's own `KeyError`, for an agent without a usage record. -/
  | keyError (agentId : String)
  /-- `ValueError`: "… must be non-negative, got …." -/
  | negative (dimension : Dimension) (got : ℚ)
  /-- `QuotaViolation`. -/
  | violation (violation : QuotaViolation)
deriving DecidableEq

/-- The errors that are `KeyError`s. -/
def QuotaError.IsKeyError : QuotaError → Prop
  | .notRegistered _ | .keyError _ => True
  | .negative _ _ | .violation _ => False

/-- One turn of the loop over the requests: a request that exceeds what remains of its limit. -/
def exceeds (agentId : String) (quota : ResourceQuota) (current requests : Amounts)
    (dimension : Dimension) : Option QuotaViolation :=
  let requested := requests.get dimension
  if requested ≤ 0 then
    none
  else
    match quota.dimensions dimension with
    | none => none
    | some limit =>
      let remaining := max 0 (limit - current.get dimension)
      if remaining < requested then
        some ⟨agentId, dimension, requested, remaining, limit⟩
      else
        none

/-- The loop over the requests: the first that exceeds what remains. -/
def firstViolation (agentId : String) (quota : ResourceQuota) (current requests : Amounts) :
    Option QuotaViolation :=
  Dimension.all.findSome? (exceeds agentId quota current requests)

/-- `_quotas` and `_usage`. -/
structure QuotaEnforcer where
  quotas : Dict String ResourceQuota := .empty
  usage : Dict String Amounts := .empty

namespace QuotaEnforcer

/-- The quota and the usage of an agent, as the methods look them up. -/
def entry (e : QuotaEnforcer) (agentId : String) : Except QuotaError (ResourceQuota × Amounts) :=
  match e.quotas.get? agentId with
  | none => .error (.notRegistered agentId)
  | some quota =>
    match e.usage.get? agentId with
    | none => .error (.keyError agentId)
    | some current => .ok (quota, current)

/-- `register`: an agent that is registered again keeps its usage. -/
def register (e : QuotaEnforcer) (quota : ResourceQuota) : QuotaEnforcer where
  quotas := e.quotas.set quota.agentId quota
  usage :=
    if quota.agentId ∈ e.usage.keys then e.usage else e.usage.set quota.agentId Amounts.zero

/-- `unregister`. -/
def unregister (e : QuotaEnforcer) (agentId : String) : Bool × QuotaEnforcer :=
  if agentId ∈ e.quotas.keys then
    (true, { quotas := e.quotas.erase agentId, usage := e.usage.erase agentId })
  else
    (false, e)

/-- `check`. -/
def check (e : QuotaEnforcer) (agentId : String) (requests : Amounts) (raiseOnViolation : Bool) :
    Except QuotaError Bool := do
  let (quota, current) ← e.entry agentId
  match firstViolation agentId quota current requests with
  | none => return true
  | some violation => if raiseOnViolation then throw (.violation violation) else return false

/-- `record`: the amounts are checked before the agent is looked up. -/
def record (e : QuotaEnforcer) (agentId : String) (amounts : Amounts) :
    Except QuotaError QuotaEnforcer :=
  match Dimension.all.find? fun d => amounts.get d < 0 with
  | some dimension => .error (.negative dimension (amounts.get dimension))
  | none => do
    let (_, current) ← e.entry agentId
    return { e with usage := e.usage.set agentId (current.add amounts) }

/-- `check_and_record`. -/
def checkAndRecord (e : QuotaEnforcer) (agentId : String) (requests : Amounts)
    (raiseOnViolation : Bool) : Except QuotaError (Bool × QuotaEnforcer) := do
  let (quota, current) ← e.entry agentId
  match firstViolation agentId quota current requests with
  | none => return (true, { e with usage := e.usage.set agentId (current.add requests) })
  | some violation => if raiseOnViolation then throw (.violation violation) else return (false, e)

/-- `reset`. -/
def reset (e : QuotaEnforcer) (agentId : String) : Except QuotaError QuotaEnforcer :=
  if agentId ∈ e.quotas.keys then
    .ok { e with usage := e.usage.set agentId Amounts.zero }
  else
    .error (.notRegistered agentId)

/-- `reset_all`. -/
def resetAll (e : QuotaEnforcer) : QuotaEnforcer :=
  { e with usage := e.usage.mapValues fun _ => Amounts.zero }

end QuotaEnforcer

/-! ## Calls -/

/-- A call of a public method. -/
inductive QuotaCall where
  | register (quota : ResourceQuota)
  | unregister (agentId : String)
  | check (agentId : String) (requests : Amounts) (raiseOnViolation : Bool)
  | record (agentId : String) (amounts : Amounts)
  | checkAndRecord (agentId : String) (requests : Amounts) (raiseOnViolation : Bool)
  | reset (agentId : String)
  | resetAll
  | usage (agentId : String)
  | quota (agentId : String)
deriving DecidableEq

/-- What a call returns. -/
inductive Reply where
  | done
  | flag (value : Bool)
  | usage (used : Amounts)
  | quota (quota : ResourceQuota)
deriving DecidableEq

/-- What a call returns, with the enforcer after it, or what it raises. -/
def QuotaEnforcer.call (e : QuotaEnforcer) : QuotaCall → Except QuotaError (Reply × QuotaEnforcer)
  | .register quota => .ok (.done, e.register quota)
  | .unregister agentId =>
    let (removed, e') := e.unregister agentId
    .ok (.flag removed, e')
  | .check agentId requests raiseOnViolation => do
    let allowed ← e.check agentId requests raiseOnViolation
    return (.flag allowed, e)
  | .record agentId amounts => do
    let e' ← e.record agentId amounts
    return (.done, e')
  | .checkAndRecord agentId requests raiseOnViolation => do
    let (allowed, e') ← e.checkAndRecord agentId requests raiseOnViolation
    return (.flag allowed, e')
  | .reset agentId => do
    let e' ← e.reset agentId
    return (.done, e')
  | .resetAll => .ok (.done, e.resetAll)
  | .usage agentId => do
    let (_, current) ← e.entry agentId
    return (.usage current, e)
  | .quota agentId =>
    match e.quotas.get? agentId with
    | none => .error (.notRegistered agentId)
    | some quota => .ok (.quota quota, e)

end MeshRouter.Quotas
