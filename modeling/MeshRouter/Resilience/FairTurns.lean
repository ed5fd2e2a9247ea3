import Mathlib.Algebra.BigOperators.Group.List.Basic
import MeshRouter.Lib.SmoothWeighted
import MeshRouter.Resilience.LoadBalancer

/-!
# The turns of a weighted round robin

Selections by `WEIGHTED_ROUND_ROBIN`, one after the other, from accumulators that are zero, in exact
arithmetic: the weights are rationals, and no sum is rounded. A selection picks the first endpoint
with the greatest accumulator after all have grown (`select_weighted`). The selections are the
rounds of a smooth weighted selection among the healthy endpoints (`picks`), so that
`weighted_round_robin_fair` follows from the facts about these: an endpoint never has a whole turn
more than its share, and with integer weights the schedule repeats after as many selections as the
weights sum to.
-/

namespace MeshRouter.Resilience

open Lib

/-- Exact arithmetic, in which there is no infinity. -/
instance : Accumulates ℚ where
  total := List.sum
  AboveNegInf _ := True
  decidable _ := inferInstance

/-- The weight of an endpoint is positive. -/
theorem ServiceEndpoint.weight_pos (ep : ServiceEndpoint ℚ) : 0 < ep.weight :=
  not_le.mp ep.weight_valid

namespace LoadBalancer

/-- The search of the loop is the search for the maximum. -/
theorem better_eq_argAux (grown : ServiceEndpoint ℚ → ℚ) :
    better grown = List.argAux fun a b => grown b < grown a := by
  funext best ep
  cases best with
  | none => rfl
  | some b => rfl

/-- What a selection leaves that picked `best`: the accumulators of the healthy endpoints have
grown, the one of `best` has paid the total weight, and nothing else has changed. -/
structure Picked (lb lb' : LoadBalancer ℚ) (best : ServiceEndpoint ℚ) : Prop where
  endpoints : lb'.endpoints = lb.endpoints
  health : lb'.health = lb.health
  grown : ∀ ep ∈ lb.healthyList, lb'.currentWeight ep.name =
    lb.currentWeight ep.name + ep.weight -
      if ep = best then (lb.healthyList.map ServiceEndpoint.weight).sum else 0
  others : ∀ name ∉ lb.healthyList.map ServiceEndpoint.name,
    lb'.currentWeight name = lb.currentWeight name

/-- A selection by `WEIGHTED_ROUND_ROBIN` picks the first healthy endpoint whose accumulator is the
greatest after all have grown. -/
theorem select_weighted (lb : LoadBalancer ℚ) (draw : ℕ) {best : ServiceEndpoint ℚ}
    (hbest : (lb.healthyList.argmax fun ep => lb.currentWeight ep.name + ep.weight) = some best) :
    (lb.select .WEIGHTED_ROUND_ROBIN draw).1 = .ok best ∧
      Picked lb (lb.select .WEIGHTED_ROUND_ROBIN draw).2 best := by
  have hmem : best ∈ lb.healthyList := List.argmax_mem hbest
  obtain ⟨weights, hfold, hgrown, hothers⟩ :=
    foldl_growWeight (fun ep => lb.currentWeight ep.name + ep.weight) lb.nodup_names
      lb.wrrCurrentWeights none fun ep _ => rfl
  -- The search of the loop is the search for the maximum of the list.
  rw [Option.map_none, better_eq_argAux] at hfold
  change lb.healthyList.foldl growWeight (lb.wrrCurrentWeights, none) =
    (weights, (lb.healthyList.argmax fun ep => lb.currentWeight ep.name + ep.weight).map _) at hfold
  rw [hbest, Option.map_some] at hfold
  unfold select weightedRoundRobin
  dsimp only
  rw [if_neg (List.ne_nil_of_mem hmem), hfold]
  refine ⟨rfl, rfl, rfl, fun ep hep => ?_, fun name hname => ?_⟩
  · change (weights.set best.name _).getD ep.name 0 = _
    rw [Dict.getD_set]
    by_cases heq : ep = best
    · rw [if_pos (congrArg _ heq), if_pos heq, ← heq, hgrown ep hep]
      rfl
    · have hne : ep.name ≠ best.name := fun hname =>
        heq (List.inj_on_of_nodup_map lb.nodup_names hep hmem hname)
      rw [if_neg hne, if_neg heq, hgrown ep hep, sub_zero]
  · change (weights.set best.name _).getD name 0 = _
    have hne : name ≠ best.name := fun heq => hname (heq ▸ List.mem_map_of_mem hmem)
    rw [Dict.getD_set, if_neg hne]
    exact hothers name hname

/-- The balancer after some selections by `WEIGHTED_ROUND_ROBIN`, which draw no number. -/
def afterSelections (lb : LoadBalancer ℚ) : ℕ → LoadBalancer ℚ
  | 0 => lb
  | k + 1 => ((lb.afterSelections k).select .WEIGHTED_ROUND_ROBIN 0).2

/-- What a selection returns or raises, after `k` others. -/
def selection (lb : LoadBalancer ℚ) (k : ℕ) : Except SelectError (ServiceEndpoint ℚ) :=
  ((lb.afterSelections k).select .WEIGHTED_ROUND_ROBIN 0).1

/-- How many of the first `k` selections choose the endpoint. -/
def timesChosen (lb : LoadBalancer ℚ) (ep : ServiceEndpoint ℚ) (k : ℕ) : ℕ :=
  Nat.count (fun n => lb.selection n = .ok ep) k

/-- The sum of the weights of the healthy endpoints. -/
def totalWeight (lb : LoadBalancer ℚ) : ℚ := (lb.healthyList.map ServiceEndpoint.weight).sum

variable {lb lb' : LoadBalancer ℚ}

/-- A selection leaves the healthy endpoints. -/
theorem Picked.healthyList {best : ServiceEndpoint ℚ} (h : Picked lb lb' best) :
    lb'.healthyList = lb.healthyList := by
  unfold LoadBalancer.healthyList
  rw [h.endpoints, h.health]

/-- Among healthy endpoints there is one to pick. -/
theorem exists_argmax (hne : lb.healthyList ≠ []) :
    ∃ best, (lb.healthyList.argmax fun ep => lb.currentWeight ep.name + ep.weight) = some best :=
  Option.ne_none_iff_exists'.mp (List.argmax_eq_none.not.mpr hne)

/-- Every selection picks an endpoint, and leaves the healthy endpoints as they were. -/
theorem exists_picked (hne : lb.healthyList ≠ []) (k : ℕ) :
    (lb.afterSelections k).healthyList = lb.healthyList ∧
      ∃ best ∈ lb.healthyList, lb.selection k = .ok best ∧
        ((lb.afterSelections k).healthyList.argmax fun ep =>
          (lb.afterSelections k).currentWeight ep.name + ep.weight) = some best ∧
        Picked (lb.afterSelections k) (lb.afterSelections (k + 1)) best := by
  have hhealthy : (lb.afterSelections k).healthyList = lb.healthyList := by
    induction k with
    | zero => rfl
    | succ k ih =>
      obtain ⟨best, hbest⟩ := exists_argmax (ih ▸ hne : (lb.afterSelections k).healthyList ≠ [])
      exact (select_weighted _ 0 hbest).2.healthyList.trans ih
  obtain ⟨best, hbest⟩ := exists_argmax (hhealthy ▸ hne : (lb.afterSelections k).healthyList ≠ [])
  obtain ⟨hok, hpicked⟩ := select_weighted _ 0 hbest
  exact ⟨hhealthy, best, hhealthy ▸ List.argmax_mem hbest, hok, hbest, hpicked⟩

section Rounds

variable (lb) (hne : lb.healthyList ≠ [])

/-- The endpoint that a selection chooses. -/
noncomputable def chosen (k : ℕ) : ServiceEndpoint ℚ := (exists_picked hne k).2.choose

/-- A selection returns the endpoint that it chooses. -/
theorem selection_eq (k : ℕ) : lb.selection k = .ok (lb.chosen hne k) :=
  (exists_picked hne k).2.choose_spec.2.1

/-- The turns of an endpoint are counted by the choices. -/
theorem timesChosen_eq (ep : ServiceEndpoint ℚ) (k : ℕ) :
    lb.timesChosen ep k = Nat.count (fun n => lb.chosen hne n = ep) k := by
  unfold timesChosen
  simp only [selection_eq lb hne, Except.ok.injEq]

/-- A sum over the healthy endpoints, as a sum over a set. -/
theorem sum_healthy (f : ServiceEndpoint ℚ → ℚ) :
    ∑ ep ∈ lb.healthyList.toFinset, f ep = (lb.healthyList.map f).sum :=
  List.sum_toFinset f (List.Nodup.of_map _ lb.nodup_names)

/-- The selections are the rounds of a smooth weighted selection. -/
theorem picks (k : ℕ) :
    WeightedPick lb.healthyList.toFinset ServiceEndpoint.weight
      (fun ep => (lb.afterSelections k).currentWeight ep.name)
      (fun ep => (lb.afterSelections (k + 1)).currentWeight ep.name) (lb.chosen hne k) := by
  obtain ⟨hhealthy, hexists⟩ := exists_picked hne k
  obtain ⟨hmem, -, hmax, hpicked⟩ := (exists_picked hne k).2.choose_spec
  refine ⟨List.mem_toFinset.mpr hmem, fun ep hep => ?_, fun ep hep => ?_⟩
  · exact List.le_of_mem_argmax (hhealthy ▸ List.mem_toFinset.mp hep) hmax
  · rw [sum_healthy, ← hhealthy]
    exact hpicked.grown ep (hhealthy ▸ List.mem_toFinset.mp hep)

end Rounds

/-- Two balancers that select in the same way. -/
structure SameTurns (lb lb' : LoadBalancer ℚ) : Prop where
  healthyList : lb'.healthyList = lb.healthyList
  currentWeight : lb'.currentWeight = lb.currentWeight

/-- Selections keep two balancers that select in the same way so, and return the same. -/
theorem SameTurns.afterSelections (h : SameTurns lb lb') (hne : lb.healthyList ≠ []) (k : ℕ) :
    SameTurns (lb.afterSelections k) (lb'.afterSelections k) ∧
      lb'.selection k = lb.selection k := by
  have hne' : lb'.healthyList ≠ [] := h.healthyList ▸ hne
  have hsame : SameTurns (lb.afterSelections k) (lb'.afterSelections k) := by
    induction k with
    | zero => exact h
    | succ k ih =>
      obtain ⟨hhealthy, best, -, -, hbest, hpicked⟩ := exists_picked hne k
      obtain ⟨hhealthy', best', -, -, hbest', hpicked'⟩ := exists_picked hne' k
      rw [ih.healthyList, ih.currentWeight, hbest] at hbest'
      obtain rfl := Option.some.inj hbest'
      refine ⟨(hpicked'.healthyList.trans ih.healthyList).trans hpicked.healthyList.symm, ?_⟩
      funext name
      by_cases hname : name ∈ (lb.afterSelections k).healthyList.map ServiceEndpoint.name
      · obtain ⟨ep, hep, rfl⟩ := List.mem_map.mp hname
        rw [hpicked.grown ep hep, hpicked'.grown ep (ih.healthyList ▸ hep), ih.healthyList,
          ih.currentWeight]
      · rw [hpicked.others name hname, hpicked'.others name (ih.healthyList ▸ hname),
          ih.currentWeight]
  refine ⟨hsame, ?_⟩
  obtain ⟨-, best, -, hok, hbest, -⟩ := exists_picked hne k
  obtain ⟨-, best', -, hok', hbest', -⟩ := exists_picked hne' k
  rw [hsame.healthyList, hsame.currentWeight, hbest] at hbest'
  rw [hok, hok', Option.some.inj hbest']

/-- Selections after selections. -/
theorem afterSelections_add (lb : LoadBalancer ℚ) (m k : ℕ) :
    (lb.afterSelections m).afterSelections k = lb.afterSelections (m + k) := by
  induction k with
  | zero => rfl
  | succ k ih =>
    change (((lb.afterSelections m).afterSelections k).select .WEIGHTED_ROUND_ROBIN 0).2 = _
    rw [ih]
    rfl

/-- The accumulators of endpoints that are not healthy stay as they are. -/
theorem currentWeight_of_notMem (hne : lb.healthyList ≠ []) {name : String}
    (hname : name ∉ lb.healthyList.map ServiceEndpoint.name) (k : ℕ) :
    (lb.afterSelections k).currentWeight name = lb.currentWeight name := by
  induction k with
  | zero => rfl
  | succ k ih =>
    obtain ⟨hhealthy, best, -, -, -, hpicked⟩ := exists_picked hne k
    rw [hpicked.others name (hhealthy ▸ hname), ih]

/-- From zero accumulators, with integer weights, the selections come back to where they started
after as many as the weights sum to. -/
theorem sameTurns_period (hne : lb.healthyList ≠ [])
    (hzero : ∀ ep ∈ lb.healthyList, lb.currentWeight ep.name = 0) (n : ServiceEndpoint ℚ → ℕ)
    (hn : ∀ ep ∈ lb.healthyList, ep.weight = n ep) :
    SameTurns lb (lb.afterSelections (lb.healthyList.map n).sum) := by
  have hW : (lb.healthyList.map n).sum = ∑ ep ∈ lb.healthyList.toFinset, n ep :=
    (List.sum_toFinset n (List.Nodup.of_map _ lb.nodup_names)).symm
  refine ⟨(exists_picked hne _).1, ?_⟩
  funext name
  by_cases hname : name ∈ lb.healthyList.map ServiceEndpoint.name
  · obtain ⟨ep, hep, rfl⟩ := List.mem_map.mp hname
    rw [hzero ep hep, hW]
    exact accumulator_eq_zero (lb.picks hne) (fun ep hep => hzero ep (List.mem_toFinset.mp hep)) n
      (fun ep hep => hn ep (List.mem_toFinset.mp hep)) (fun ep _ => ep.weight_pos)
      (List.mem_toFinset.mpr hep)
  · exact currentWeight_of_notMem hne hname _

/-- From zero accumulators, after any number of selections: every selection returns a healthy
endpoint, the accumulators sum to zero and stay above minus the total weight, and an endpoint was
chosen less than once more than its share. With integer weights, the first selections up to their
sum choose every endpoint as often as its weight says and bring the accumulators back to zero, and
the schedule is periodic. -/
theorem weighted_round_robin_fair (lb : LoadBalancer ℚ) (hne : lb.healthyList ≠ [])
    (hzero : ∀ ep ∈ lb.healthyList, lb.currentWeight ep.name = 0) :
    (∀ k, (lb.afterSelections k).healthyList = lb.healthyList ∧
      ∃ ep ∈ lb.healthyList, lb.selection k = .ok ep) ∧
    (∀ k, (lb.healthyList.map fun ep => (lb.afterSelections k).currentWeight ep.name).sum = 0) ∧
    (∀ k, ∀ ep ∈ lb.healthyList,
      -lb.totalWeight < (lb.afterSelections k).currentWeight ep.name ∧
        (lb.timesChosen ep k : ℚ) < k * ep.weight / lb.totalWeight + 1) ∧
    ∀ n : ServiceEndpoint ℚ → ℕ, (∀ ep ∈ lb.healthyList, ep.weight = n ep) →
      (∀ ep ∈ lb.healthyList, lb.timesChosen ep (lb.healthyList.map n).sum = n ep ∧
        (lb.afterSelections (lb.healthyList.map n).sum).currentWeight ep.name = 0) ∧
      ∀ k, lb.selection ((lb.healthyList.map n).sum + k) = lb.selection k ∧
        (lb.afterSelections ((lb.healthyList.map n).sum + k)).currentWeight =
          (lb.afterSelections k).currentWeight := by
  have hpicks := lb.picks hne
  have hstart : ∀ ep ∈ lb.healthyList.toFinset, (lb.afterSelections 0).currentWeight ep.name = 0 :=
    fun ep hep => hzero ep (List.mem_toFinset.mp hep)
  have hpos : ∀ ep ∈ lb.healthyList.toFinset, 0 < ep.weight := fun ep _ => ep.weight_pos
  refine ⟨fun k => ?_, fun k => ?_, fun k ep hep => ⟨?_, ?_⟩, fun n hn => ⟨fun ep hep => ?_, ?_⟩⟩
  · obtain ⟨hhealthy, ep, hep, hok, -⟩ := exists_picked hne k
    exact ⟨hhealthy, ep, hep, hok⟩
  · rw [← sum_healthy]
    exact sum_accumulators hpicks hstart k
  · have hlt := neg_lt_accumulator hpicks hstart hpos k ep (List.mem_toFinset.mpr hep)
    rwa [sum_healthy] at hlt
  · have hlt := count_lt hpicks hstart hpos k (List.mem_toFinset.mpr hep)
    rw [sum_healthy] at hlt
    rwa [timesChosen_eq lb hne]
  · have hperiod := sameTurns_period hne hzero n hn
    refine ⟨?_, ?_⟩
    · rw [timesChosen_eq lb hne, ← List.sum_toFinset n (List.Nodup.of_map _ lb.nodup_names)]
      exact count_eq hpicks hstart n (fun ep hep => hn ep (List.mem_toFinset.mp hep)) hpos
        (List.mem_toFinset.mpr hep)
    · rw [hperiod.currentWeight, hzero ep hep]
  · intro k
    obtain ⟨hsame, hselection⟩ := (sameTurns_period hne hzero n hn).afterSelections hne k
    have hcurrent := hsame.currentWeight
    rw [afterSelections_add] at hcurrent
    refine ⟨?_, hcurrent⟩
    unfold selection at hselection ⊢
    rwa [afterSelections_add] at hselection

/-- An endpoint of weight `weight`. -/
def endpoint (name : String) (weight : ℚ) (hweight : 0 < weight) : ServiceEndpoint ℚ :=
  { name := name, host := "10.0.0.1", port := 8080, weight := weight,
    weight_valid := not_le.mpr hweight, port_pos := httpPort_pos, port_le := httpPort_le }

/-- The weights of `twoToOne` are positive. -/
theorem heavy_pos : (0 : ℚ) < 2.0 := by decide +kernel

theorem light_pos : (0 : ℚ) < 1.0 := by decide +kernel

/-- A balancer with one endpoint of weight two and one of weight one. -/
def twoToOne : LoadBalancer ℚ :=
  (init.addEndpoint (endpoint "api-1" 2.0 heavy_pos)).addEndpoint (endpoint "api-2" 1.0 light_pos)

/-- `weighted_round_robin_fair` on two endpoints. -/
theorem weighted_round_robin_fair_twoToOne :
    (twoToOne.timesChosen (endpoint "api-1" 2.0 heavy_pos) 3 = 2 ∧
      twoToOne.timesChosen (endpoint "api-2" 1.0 light_pos) 3 = 1) ∧
    ∀ k, twoToOne.selection (3 + k) = twoToOne.selection k := by
  obtain ⟨-, -, -, hinteger⟩ :=
    weighted_round_robin_fair twoToOne (by decide +kernel) (by decide +kernel)
  obtain ⟨hturns, hperiod⟩ := hinteger (fun ep => if ep.name = "api-1" then 2 else 1)
    (by decide +kernel)
  have hsum : (twoToOne.healthyList.map fun ep => if ep.name = "api-1" then 2 else 1).sum = 3 := by
    decide +kernel
  rw [hsum] at hturns hperiod
  exact ⟨⟨(hturns _ (by decide +kernel)).1, (hturns _ (by decide +kernel)).1⟩,
    fun k => (hperiod k).1⟩

end LoadBalancer

end MeshRouter.Resilience
