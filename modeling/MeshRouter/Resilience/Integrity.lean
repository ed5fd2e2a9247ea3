import MeshRouter.Resilience.LoadBalancer

/-!
# The books of the load balancer

A balancer keeps four dictionaries by the name of the endpoint. Its operations are additions and
removals of endpoints, marks, connections that open and close, and selections by any strategy. In
every state that they reach the dictionaries have the same keys, and a selection returns a
registered endpoint that is marked healthy, if there is one (`balancer_integrity_iff`), unless it is
weighted and no accumulator of a healthy endpoint is a number above minus infinity. Finite weights
can lead there: their sum may overflow, and the endpoint that is picked pays an infinity.

The balancer counts the connections in natural numbers. `countStep` counts them in integers, as the
source does, and the two counts agree.
-/

namespace MeshRouter.Resilience

open Lib

variable {N : Type} [Zero N] [One N] [LE N]

/-- An operation on a balancer. -/
inductive BalancerOp (N : Type) [Zero N] [One N] [LE N] where
  | addEndpoint (endpoint : ServiceEndpoint N)
  | removeEndpoint (name : String)
  | markUnhealthy (name : String)
  | markHealthy (name : String)
  | recordConnectionOpen (name : String)
  | recordConnectionClose (name : String)
  | select (strategy : LoadBalancerStrategy) (draw : ℕ)

/-- What an operation on a balancer can raise. -/
inductive BalancerError where
  | endpointKeyError (e : EndpointKeyError)
  | selectError (e : SelectError)
deriving DecidableEq

/-- The connection counts after an operation, in integers: an unknown name is left alone. -/
def countStep (counts : Dict String ℤ) : BalancerOp N → Dict String ℤ
  | .addEndpoint endpoint => counts.set endpoint.name (counts.getD endpoint.name 0)
  | .removeEndpoint name => counts.erase name
  | .recordConnectionOpen name =>
    if name ∈ counts.keys then counts.set name (counts.getD name 0 + 1) else counts
  | .recordConnectionClose name =>
    if name ∈ counts.keys then counts.set name (max 0 (counts.getD name 0 - 1)) else counts
  | .markUnhealthy _ | .markHealthy _ | .select _ _ => counts

namespace LoadBalancer

/-- The endpoint is registered, and its health flag is set. -/
def IsHealthy (lb : LoadBalancer N) (ep : ServiceEndpoint N) : Prop :=
  lb.endpoints.get? ep.name = some ep ∧ lb.health.get? ep.name = some true

/-- The four dictionaries have the same keys. -/
structure Aligned (lb : LoadBalancer N) : Prop where
  health : lb.health.keys = lb.endpoints.keys
  connections : lb.connections.keys = lb.endpoints.keys
  weights : lb.wrrCurrentWeights.keys = lb.endpoints.keys

variable {lb : LoadBalancer N}

/-- The healthy list has the registered endpoints whose flag is set. -/
theorem mem_healthyList_iff {ep : ServiceEndpoint N} : ep ∈ lb.healthyList ↔ lb.IsHealthy ep := by
  have hflag : ∀ name, lb.health.getD name false = true ↔ lb.health.get? name = some true := by
    intro name
    unfold Dict.getD
    cases lb.health.get? name with
    | none => simp
    | some flag => simp
  unfold healthyList IsHealthy
  simp only [List.mem_map, List.mem_filter, hflag, Prod.exists, exists_eq_right]
  constructor
  · rintro ⟨name, hmem, hhealthy⟩
    have hget := Dict.get?_eq_some_iff.mpr hmem
    rw [lb.named name ep hget]
    exact ⟨hget, hhealthy⟩
  · rintro ⟨hget, hhealthy⟩
    exact ⟨ep.name, Dict.get?_eq_some_iff.mp hget, hhealthy⟩

/-- What a selection leaves: the registered endpoints, their flags, and their connections. -/
structure Selected (lb lb' : LoadBalancer N) : Prop where
  endpoints : lb'.endpoints = lb.endpoints
  health : lb'.health = lb.health
  connections : lb'.connections = lb.connections
  weights : lb.wrrCurrentWeights.keys = lb.endpoints.keys →
    lb'.wrrCurrentWeights.keys = lb.endpoints.keys

theorem Selected.refl (lb : LoadBalancer N) : Selected lb lb := ⟨rfl, rfl, rfl, id⟩

/-! ## Operations that change no selection -/

/-- A mark keeps the keys. -/
theorem Aligned.mark (h : lb.Aligned) (healthy : Bool) (name : String) :
    (mark healthy lb name).2.Aligned := by
  unfold LoadBalancer.mark
  split_ifs with hname
  · have hmem : name ∈ lb.health.keys := h.health ▸ hname
    exact ⟨(Dict.keys_set_of_mem hmem _).trans h.health, h.connections, h.weights⟩
  · exact h

/-- A connection keeps the keys. -/
theorem Aligned.recordConnection (h : lb.Aligned) (change : ℕ → ℕ) (name : String) :
    (recordConnection change lb name).2.Aligned := by
  unfold LoadBalancer.recordConnection
  split
  · exact h
  · next count hcount =>
    have hmem : name ∈ lb.connections.keys := Dict.mem_keys_of_get? hcount
    exact ⟨h.health, (Dict.keys_set_of_mem hmem _).trans h.connections, h.weights⟩

theorem mark_of_error {healthy : Bool} {name : String} {e : EndpointKeyError}
    (h : (mark healthy lb name).1 = .error e) : (mark healthy lb name).2 = lb := by
  unfold mark at h ⊢
  split_ifs at h ⊢
  rfl

theorem recordConnection_of_error {change : ℕ → ℕ} {name : String} {e : EndpointKeyError}
    (h : (recordConnection change lb name).1 = .error e) :
    (recordConnection change lb name).2 = lb := by
  unfold recordConnection at h ⊢
  cases hcount : lb.connections.get? name with
  | none => rfl
  | some count =>
    rw [hcount] at h
    cases h

/-! ## Connection counts -/

/-- The counts in integers. -/
def intCounts (lb : LoadBalancer N) : Dict String ℤ := lb.connections.mapValues fun n : ℕ => (n : ℤ)

theorem get?_intCounts (lb : LoadBalancer N) (name : String) :
    lb.intCounts.get? name = (lb.connections.get? name).map fun n : ℕ => (n : ℤ) :=
  Dict.get?_mapValues _ _ _

theorem intCounts_set {lb' : LoadBalancer N} {name : String} {n : ℕ}
    (h : lb'.connections = lb.connections.set name n) :
    lb'.intCounts = lb.intCounts.set name n := by
  refine Dict.eq_of_get? ?_ fun k => ?_
  · unfold intCounts
    rw [h, Dict.keys_mapValues]
    exact Dict.keys_set_congr (Dict.keys_mapValues _ _).symm _ _ _
  · rw [get?_intCounts, h, Dict.get?_set, Dict.get?_set, get?_intCounts]
    split_ifs
    · rfl
    · rfl

theorem getD_intCounts (lb : LoadBalancer N) (name : String) :
    lb.intCounts.getD name 0 = (lb.connections.getD name 0 : ℕ) := by
  unfold Dict.getD
  rw [get?_intCounts]
  cases lb.connections.get? name with
  | none => rfl
  | some n => rfl

/-- A change of a count is one of the integer. -/
theorem intCounts_recordConnection (change : ℕ → ℕ) (change' : ℤ → ℤ)
    (hchange : ∀ n : ℕ, change' n = change n) (lb : LoadBalancer N) (name : String) :
    (recordConnection change lb name).2.intCounts =
      if name ∈ lb.intCounts.keys then
        lb.intCounts.set name (change' (lb.intCounts.getD name 0))
      else lb.intCounts := by
  have hkeys : name ∈ lb.intCounts.keys ↔ name ∈ lb.connections.keys := by
    unfold intCounts
    rw [Dict.keys_mapValues]
  rw [getD_intCounts, hchange, Dict.getD]
  unfold recordConnection
  cases hcount : lb.connections.get? name with
  | none => rw [if_neg (hkeys.not.mpr (Dict.get?_eq_none_iff.mp hcount))]
  | some n =>
    rw [if_pos (hkeys.mpr (Dict.mem_keys_of_get? hcount))]
    exact intCounts_set rfl

/-! ## Selections -/

variable [Add N] [Sub N] [LT N] [DecidableLT N] [Accumulates N]

/-- An operation: what it returns or raises, and the balancer. -/
def apply (lb : LoadBalancer N) :
    BalancerOp N → Except BalancerError (Option (ServiceEndpoint N)) × LoadBalancer N
  | .addEndpoint endpoint => (.ok none, lb.addEndpoint endpoint)
  | .removeEndpoint name => (.ok none, lb.removeEndpoint name)
  | .markUnhealthy name => marked (lb.markUnhealthy name)
  | .markHealthy name => marked (lb.markHealthy name)
  | .recordConnectionOpen name => marked (lb.recordConnectionOpen name)
  | .recordConnectionClose name => marked (lb.recordConnectionClose name)
  | .select strategy draw =>
    (((lb.select strategy draw).1.map some).mapError .selectError, (lb.select strategy draw).2)
where
  /-- What the operations that return nothing return or raise. -/
  marked (result : Except EndpointKeyError Unit × LoadBalancer N) :
      Except BalancerError (Option (ServiceEndpoint N)) × LoadBalancer N :=
    ((result.1.map fun _ => none).mapError .endpointKeyError, result.2)

/-- A new balancer after some operations. -/
def afterOps (ops : List (BalancerOp N)) : LoadBalancer N :=
  ops.foldl (fun lb op => (lb.apply op).2) init

omit [Sub N] in
/-- A turn of the loop in `_weighted_round_robin` sets one accumulator. -/
theorem keys_growWeight {loop : Dict String N × Option (ServiceEndpoint N × N)}
    {ep : ServiceEndpoint N} (hmem : ep.name ∈ loop.1.keys) :
    (growWeight loop ep).1.keys = loop.1.keys := by
  have hset : (growWeight loop ep).1 =
      loop.1.set ep.name (loop.1.getD ep.name 0 + ep.weight) := by
    unfold growWeight
    dsimp only
    split
    · rfl
    · split_ifs <;> rfl
  rw [hset, Dict.keys_set_of_mem hmem]

omit [Sub N] in
theorem keys_foldl_growWeight {healthy : List (ServiceEndpoint N)}
    {loop : Dict String N × Option (ServiceEndpoint N × N)}
    (hmem : ∀ ep ∈ healthy, ep.name ∈ loop.1.keys) :
    (healthy.foldl growWeight loop).1.keys = loop.1.keys := by
  induction healthy generalizing loop with
  | nil => rfl
  | cons ep healthy ih =>
    obtain ⟨hep, hrest⟩ := List.forall_mem_cons.mp hmem
    have hstep := keys_growWeight hep
    rw [List.foldl_cons, ih fun ep hep => hstep ▸ hrest ep hep, hstep]

/-- A weighted selection leaves the accumulators of the registered endpoints. -/
theorem weightedRoundRobin_selected (lb : LoadBalancer N) :
    Selected lb (lb.weightedRoundRobin lb.healthyList).2 := by
  obtain ⟨weights, hfold, -⟩ := foldl_growWeight
    (fun ep => lb.currentWeight ep.name + ep.weight) lb.nodup_names lb.wrrCurrentWeights none
    fun ep _ => rfl
  rw [Option.map_none] at hfold
  have hweights := congrArg Prod.fst hfold
  unfold weightedRoundRobin
  dsimp only
  rw [hfold]
  have hkeys (halign : lb.wrrCurrentWeights.keys = lb.endpoints.keys) :
      weights.keys = lb.endpoints.keys := by
    have hmem : ∀ ep ∈ lb.healthyList, ep.name ∈ lb.wrrCurrentWeights.keys := fun ep hep =>
      halign ▸ Dict.mem_keys_of_get? (mem_healthyList_iff.mp hep).1
    have hloop : (lb.healthyList.foldl growWeight (lb.wrrCurrentWeights, none)).1.keys =
        lb.wrrCurrentWeights.keys := keys_foldl_growWeight hmem
    rw [← halign, ← hloop]
    exact congrArg Dict.keys hweights.symm
  split
  · exact ⟨rfl, rfl, rfl, hkeys⟩
  · next best bestWeight hbest =>
    refine ⟨rfl, rfl, rfl, fun halign => ?_⟩
    obtain ⟨picked, hpicked, heq⟩ := Option.map_eq_some_iff.mp hbest
    have hfound := (mem_of_foldl_better hpicked).resolve_left nofun
    have hmem : best ∈ lb.healthyList := (Prod.mk.inj heq).1 ▸ hfound
    have hregistered : best.name ∈ weights.keys :=
      hkeys halign ▸ Dict.mem_keys_of_get? (mem_healthyList_iff.mp hmem).1
    exact (Dict.keys_set_of_mem hregistered _).trans (hkeys halign)

theorem select_selected (lb : LoadBalancer N) (strategy : LoadBalancerStrategy) (draw : ℕ) :
    Selected lb (lb.select strategy draw).2 := by
  unfold select
  dsimp only
  split_ifs
  · exact .refl lb
  · cases strategy with
    | ROUND_ROBIN =>
      unfold roundRobin
      dsimp only
      split
      · exact ⟨rfl, rfl, rfl, id⟩
      · exact ⟨rfl, rfl, rfl, id⟩
    | WEIGHTED_ROUND_ROBIN => exact lb.weightedRoundRobin_selected
    | LEAST_CONNECTIONS | RANDOM => exact .refl lb

/-- The accumulators of the healthy endpoints grow to nothing above minus infinity. -/
def Exhausted (lb : LoadBalancer N) : Prop :=
  ∀ ep ∈ lb.healthyList, ¬ Accumulates.AboveNegInf (lb.currentWeight ep.name + ep.weight)

/-- A weighted selection among healthy endpoints finds one of them, or its assertion fails. -/
theorem weightedRoundRobin_result (lb : LoadBalancer N) :
    (∃ ep ∈ lb.healthyList, (lb.weightedRoundRobin lb.healthyList).1 = .ok ep) ∧ ¬ lb.Exhausted ∨
      (lb.weightedRoundRobin lb.healthyList).1 = .error .assertionError ∧ lb.Exhausted := by
  obtain ⟨weights, hfold, -⟩ := foldl_growWeight
    (fun ep => lb.currentWeight ep.name + ep.weight) lb.nodup_names lb.wrrCurrentWeights none
    fun ep _ => rfl
  rw [Option.map_none] at hfold
  unfold weightedRoundRobin
  dsimp only
  rw [hfold]
  cases hsearch : lb.healthyList.foldl
      (better fun ep => lb.currentWeight ep.name + ep.weight) none with
  | none => exact .inr ⟨rfl, foldl_better_eq_none_iff.mp hsearch⟩
  | some best =>
    have hmem : best ∈ lb.healthyList := (mem_of_foldl_better hsearch).resolve_left nofun
    refine .inl ⟨⟨best, hmem, rfl⟩, fun hexhausted => ?_⟩
    have hnone := foldl_better_eq_none_iff.mpr hexhausted
    rw [hsearch] at hnone
    cases hnone

/-- A selection fails if no endpoint is healthy, and otherwise returns a healthy one, by
`LEAST_CONNECTIONS` one with the fewest connections, unless the assertion of a weighted selection
fails. -/
theorem select_result (lb : LoadBalancer N) (strategy : LoadBalancerStrategy) (draw : ℕ) :
    (lb.healthyList = [] ∧
      lb.select strategy draw = (.error .noHealthyEndpoint, lb)) ∨
    (∃ ep ∈ lb.healthyList, (lb.select strategy draw).1 = .ok ep ∧
      (strategy = .LEAST_CONNECTIONS → ∀ other ∈ lb.healthyList,
        lb.connections.getD ep.name 0 ≤ lb.connections.getD other.name 0) ∧
      ¬ (strategy = .WEIGHTED_ROUND_ROBIN ∧ lb.Exhausted)) ∨
    lb.healthyList ≠ [] ∧ strategy = .WEIGHTED_ROUND_ROBIN ∧ lb.Exhausted ∧
      (lb.select strategy draw).1 = .error .assertionError := by
  by_cases hne : lb.healthyList = []
  · refine .inl ⟨hne, ?_⟩
    unfold select
    dsimp only
    rw [if_pos hne]
  · right
    have hlength : 0 < lb.healthyList.length := List.length_pos_iff.mpr hne
    cases strategy with
    | WEIGHTED_ROUND_ROBIN =>
      have hselect : lb.select .WEIGHTED_ROUND_ROBIN draw =
          lb.weightedRoundRobin lb.healthyList := by
        unfold select
        exact if_neg hne
      rw [hselect]
      rcases lb.weightedRoundRobin_result with ⟨⟨ep, hep, hok⟩, hnot⟩ | ⟨herr, hexhausted⟩
      · exact .inl ⟨ep, hep, hok, nofun, fun h => hnot h.2⟩
      · exact .inr ⟨hne, rfl, hexhausted, herr⟩
    | ROUND_ROBIN =>
      have hindex : lb.rrCounter % lb.healthyList.length < lb.healthyList.length :=
        Nat.mod_lt _ hlength
      refine .inl ⟨_, List.getElem_mem hindex, ?_, nofun, nofun⟩
      unfold select roundRobin
      dsimp only
      rw [if_neg hne, List.getElem?_eq_getElem hindex]
    | RANDOM =>
      have hindex : draw % lb.healthyList.length < lb.healthyList.length := Nat.mod_lt _ hlength
      refine .inl ⟨_, List.getElem_mem hindex, ?_, nofun, nofun⟩
      unfold select random
      dsimp only
      rw [if_neg hne, List.getElem?_eq_getElem hindex]
    | LEAST_CONNECTIONS =>
      obtain ⟨best, hbest⟩ := Option.ne_none_iff_exists'.mp
        ((List.argmin_eq_none (f := fun ep : ServiceEndpoint N =>
          lb.connections.getD ep.name 0)).not.mpr hne)
      refine .inl ⟨best, List.argmin_mem hbest, ?_, fun _ other hother =>
        List.le_of_mem_argmin hother hbest, nofun⟩
      unfold select leastConnections
      dsimp only
      rw [if_neg hne, hbest]

/-! ## All operations -/

/-- Every operation keeps the keys of the four dictionaries the same. -/
theorem Aligned.apply (h : lb.Aligned) (op : BalancerOp N) : (lb.apply op).2.Aligned := by
  cases op with
  | addEndpoint endpoint =>
    exact ⟨Dict.keys_set_congr h.health _ _ _, Dict.keys_set_congr h.connections _ _ _,
      Dict.keys_set_congr h.weights _ _ _⟩
  | removeEndpoint name =>
    exact ⟨Dict.keys_erase_congr h.health _, Dict.keys_erase_congr h.connections _,
      Dict.keys_erase_congr h.weights _⟩
  | markUnhealthy name => exact h.mark false name
  | markHealthy name => exact h.mark true name
  | recordConnectionOpen name => exact h.recordConnection _ name
  | recordConnectionClose name => exact h.recordConnection _ name
  | select strategy draw =>
    obtain ⟨hendpoints, hhealth, hconnections, hweights⟩ := lb.select_selected strategy draw
    refine ⟨?_, ?_, ?_⟩
    · exact (congrArg Dict.keys hhealth).trans (h.health.trans (congrArg Dict.keys hendpoints).symm)
    · exact (congrArg Dict.keys hconnections).trans
        (h.connections.trans (congrArg Dict.keys hendpoints).symm)
    · exact (hweights h.weights).trans (congrArg Dict.keys hendpoints).symm

theorem aligned_afterOps (ops : List (BalancerOp N)) : (afterOps ops).Aligned := by
  unfold afterOps
  induction ops using List.reverseRecOn with
  | nil => exact ⟨rfl, rfl, rfl⟩
  | append_singleton ops op ih => exact List.foldl_concat _ _ _ _ ▸ ih.apply op

/-- Where no assertion fails, an operation that raises changes nothing. -/
theorem apply_of_error
    (hnever : ∀ strategy draw, (lb.select strategy draw).1 ≠ .error .assertionError)
    {op : BalancerOp N} {e : BalancerError} (h : (lb.apply op).1 = .error e) :
    (lb.apply op).2 = lb := by
  have hmarked : ∀ result : Except EndpointKeyError Unit × LoadBalancer N,
      (apply.marked result).1 = .error e → ∃ e', result.1 = .error e' := by
    rintro ⟨_ | _, lb'⟩ hresult
    · exact ⟨_, rfl⟩
    · cases hresult
  cases op with
  | addEndpoint | removeEndpoint => cases h
  | markUnhealthy name | markHealthy name =>
    obtain ⟨e', he'⟩ := hmarked _ h
    exact mark_of_error he'
  | recordConnectionOpen name | recordConnectionClose name =>
    obtain ⟨e', he'⟩ := hmarked _ h
    exact recordConnection_of_error he'
  | select strategy draw =>
    rcases lb.select_result strategy draw with ⟨-, hnone⟩ | ⟨ep, -, hok, -⟩ | ⟨-, -, -, herr⟩
    · exact congrArg Prod.snd hnone
    · have hfst : (lb.apply (.select strategy draw)).1 = .ok (some ep) := by
        unfold apply
        dsimp only
        rw [hok]
        rfl
      cases hfst.symm.trans h
    · exact absurd herr (hnever strategy draw)

/-- The source's integers are the balancer's natural numbers. -/
theorem countStep_intCounts (lb : LoadBalancer N) (op : BalancerOp N) :
    countStep lb.intCounts op = (lb.apply op).2.intCounts := by
  have hmark : ∀ healthy name, (mark healthy lb name).2.intCounts = lb.intCounts := by
    intro healthy name
    unfold mark
    split_ifs
    · rfl
    · rfl
  cases op with
  | addEndpoint endpoint =>
    have hset : (lb.addEndpoint endpoint).connections =
        lb.connections.set endpoint.name (lb.connections.getD endpoint.name 0) := rfl
    exact ((intCounts_set hset).trans (congrArg _ (getD_intCounts lb endpoint.name).symm)).symm
  | removeEndpoint name =>
    refine Dict.eq_of_get? ?_ fun k => ?_
    · exact (Dict.keys_erase_congr (Dict.keys_mapValues _ _) name).trans
        (Dict.keys_mapValues _ _).symm
    · have herase : (lb.apply (.removeEndpoint name)).2.connections = lb.connections.erase name :=
        rfl
      rw [countStep, get?_intCounts, herase, Dict.get?_erase, Dict.get?_erase, get?_intCounts]
      split_ifs
      · rfl
      · rfl
  | markUnhealthy name | markHealthy name => exact (hmark _ name).symm
  | recordConnectionOpen name =>
    exact (intCounts_recordConnection (· + 1) (· + 1) (fun n => by simp) lb name).symm
  | recordConnectionClose name =>
    exact (intCounts_recordConnection (· - 1) (fun count => max 0 (count - 1))
      (fun n => by omega) lb name).symm
  | select strategy draw =>
    have hconnections := (lb.select_selected strategy draw).connections
    exact congrArg (fun connections : Dict String ℕ => connections.mapValues fun n : ℕ => (n : ℤ))
      hconnections.symm

theorem foldl_countStep (ops : List (BalancerOp N)) :
    ops.foldl countStep .empty = (afterOps ops).intCounts := by
  unfold afterOps
  induction ops using List.reverseRecOn with
  | nil => rfl
  | append_singleton ops op ih => rw [List.foldl_concat, List.foldl_concat, ih, countStep_intCounts]

/-- What is asked of a balancer after some operations. The four dictionaries have the same keys, and
the connection counts are those that the source's integers give, which are not negative. A selection
by any strategy raises that there is no healthy endpoint, if there is none, and otherwise returns a
registered endpoint whose health flag is set, by `LEAST_CONNECTIONS` one with the fewest
connections. An operation that raises changes nothing. -/
structure Integrity (ops : List (BalancerOp N)) : Prop where
  aligned : (afterOps ops).Aligned
  counts : ops.foldl countStep .empty = (afterOps ops).intCounts ∧
    ∀ name count, (ops.foldl countStep .empty).get? name = some count → 0 ≤ count
  select : ∀ strategy draw,
    (∀ e, ((afterOps ops).select strategy draw).1 = .error e → e = .noHealthyEndpoint) ∧
    (((afterOps ops).select strategy draw).1 = .error .noHealthyEndpoint ↔
      ¬ ∃ ep, (afterOps ops).IsHealthy ep) ∧
    ∀ ep, ((afterOps ops).select strategy draw).1 = .ok ep →
      (afterOps ops).IsHealthy ep ∧
      (strategy = .LEAST_CONNECTIONS → ∀ other, (afterOps ops).IsHealthy other →
        (afterOps ops).connections.getD ep.name 0 ≤
          (afterOps ops).connections.getD other.name 0)
  raises : ∀ op e, ((afterOps ops).apply op).1 = .error e →
    ((afterOps ops).apply op).2 = afterOps ops

/-- The books are in order, with any numbers for weights, exactly if the accumulator of some healthy
endpoint grows to something above minus infinity, where there is a healthy endpoint. -/
theorem integrity_iff_not_exhausted (ops : List (BalancerOp N)) :
    Integrity ops ↔ ((afterOps ops).healthyList ≠ [] → ¬ (afterOps ops).Exhausted) := by
  constructor
  · intro h hne hexhausted
    rcases (afterOps ops).select_result .WEIGHTED_ROUND_ROBIN 0 with
      ⟨hempty, -⟩ | ⟨-, -, -, -, hnot⟩ | ⟨-, -, -, herr⟩
    · exact hne hempty
    · exact hnot ⟨rfl, hexhausted⟩
    · cases (h.select .WEIGHTED_ROUND_ROBIN 0).1 _ herr
  · intro h
    have hnever : ∀ strategy draw,
        ((afterOps ops).select strategy draw).1 ≠ .error .assertionError := by
      intro strategy draw herr
      rcases (afterOps ops).select_result strategy draw with
        ⟨-, hnone⟩ | ⟨ep, -, hok, -⟩ | ⟨hne, -, hexhausted, -⟩
      · rw [hnone] at herr
        cases herr
      · cases hok.symm.trans herr
      · exact h hne hexhausted
    refine ⟨aligned_afterOps ops, ⟨foldl_countStep ops, fun name count hcount => ?_⟩,
      fun strategy draw => ?_, fun op e => apply_of_error hnever⟩
    · rw [foldl_countStep, get?_intCounts] at hcount
      obtain ⟨n, -, rfl⟩ := Option.map_eq_some_iff.mp hcount
      exact Int.natCast_nonneg n
    · rcases (afterOps ops).select_result strategy draw with
        ⟨hempty, hnone⟩ | ⟨ep, hep, hok, hleast, -⟩ | ⟨-, -, -, herr⟩
      · rw [hnone]
        have hno : ¬ ∃ ep, (afterOps ops).IsHealthy ep := by
          rintro ⟨ep, hep⟩
          exact List.ne_nil_of_mem (mem_healthyList_iff.mpr hep) hempty
        refine ⟨fun e he => (Except.error.inj he).symm, iff_of_true rfl hno, fun ep hep => ?_⟩
        cases hep
      · rw [hok]
        refine ⟨fun e he => (nomatch he), iff_of_false nofun ?_, fun found hfound => ?_⟩
        · exact fun hno => hno ⟨ep, mem_healthyList_iff.mp hep⟩
        · obtain rfl := Except.ok.inj hfound
          exact ⟨mem_healthyList_iff.mp hep, fun hstrategy other hother =>
            hleast hstrategy other (mem_healthyList_iff.mpr hother)⟩
      · exact absurd herr (hnever strategy draw)

/-- The float `1e308`. -/
def huge : Binary64 := .round (10 ^ 308 * 2 ^ 1074)

theorem huge_valid : ¬ huge ≤ 0 := by decide +kernel

/-- An endpoint of this weight. -/
def hugeEndpoint (name : String) : ServiceEndpoint Binary64 :=
  { name := name, host := "10.0.0.1", port := 8080, weight := huge, weight_valid := huge_valid,
    port_pos := httpPort_pos, port_le := httpPort_le }

/-- Two endpoints with weights whose sum overflows, and two selections. -/
def overflowing : List (BalancerOp Binary64) :=
  [.addEndpoint (hugeEndpoint "api-1"), .addEndpoint (hugeEndpoint "api-2"),
    .select .WEIGHTED_ROUND_ROBIN 0, .select .WEIGHTED_ROUND_ROBIN 0]

end LoadBalancer

end MeshRouter.Resilience
