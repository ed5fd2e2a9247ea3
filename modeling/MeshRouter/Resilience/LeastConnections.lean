import Mathlib.Algebra.Order.BigOperators.Group.List
import Mathlib.Algebra.Order.Ring.Nat
import MeshRouter.Lib.Runs
import MeshRouter.Resilience.Integrity

/-!
# How even least connections is

A caller of the load balancer selects an endpoint by `LEAST_CONNECTIONS` and then records that its
connection is open. These are two calls, so that others can select the same endpoint in between, and
connections close and endpoints come, go, and change their health at any time. What keeps an
endpoint from being overloaded is its last selection: it had the fewest connections then, so no more
than an even share of those that were open, and whoever connects to it later had selected it before.
`Capped` says this with the callers that have selected and not connected yet, and
`least_connections_bounded` adds that the healthy endpoints stay even while none is closed.
-/

namespace MeshRouter.Resilience

open Lib

/-- A balancer with its callers. -/
structure BalancerUse where
  lb : LoadBalancer Binary64
  /-- The endpoints of the callers that have selected and not connected yet. -/
  chosen : List String := []

/-- What the callers and the owner of a balancer do. -/
inductive UseAction where
  /-- A caller selects by `LEAST_CONNECTIONS`. -/
  | select
  /-- A caller that has selected records that its connection is open. -/
  | connect (caller : ℕ)
  /-- A caller that has selected gives up. -/
  | leave (caller : ℕ)
  /-- Any other operation than an opened connection. -/
  | manage (op : BalancerOp Binary64)

/-- The operation records an opened connection. -/
def BalancerOp.opens : BalancerOp Binary64 → Bool
  | .recordConnectionOpen _ => true
  | _ => false

/-- The action is none of the callers that select by `LEAST_CONNECTIONS`. -/
def UseAction.manages : UseAction → Bool
  | .manage _ => true
  | _ => false

namespace BalancerUse

/-- A new balancer. -/
def init : BalancerUse := { lb := .init }

/-- The recorded connections of an endpoint. -/
def connections (s : BalancerUse) (name : String) : ℕ := s.lb.connections.getD name 0

/-- The recorded connections of the healthy endpoints together. -/
def openConnections (s : BalancerUse) : ℕ :=
  (s.lb.healthyList.map fun ep => s.connections ep.name).sum

/-- One step. A call that raises changes nothing, and its caller is gone. -/
def step (s : BalancerUse) : UseAction → Option BalancerUse
  | .select =>
    match s.lb.select .LEAST_CONNECTIONS 0 with
    | (.ok ep, lb) => some { lb := lb, chosen := s.chosen ++ [ep.name] }
    | (.error _, lb) => some { s with lb := lb }
  | .connect caller =>
    match s.chosen[caller]? with
    | none => none
    | some name =>
      some { lb := (s.lb.recordConnectionOpen name).2, chosen := s.chosen.eraseIdx caller }
  | .leave caller =>
    if caller < s.chosen.length then some { s with chosen := s.chosen.eraseIdx caller } else none
  | .manage op => if op.opens then none else some { s with lb := (s.lb.apply op).2 }

/-- A selection is made among at least `n` healthy endpoints, which have at most `most` connections
together, and it is one of at most `width` that are not connected yet. -/
def Ample (n most width : ℕ) (s : BalancerUse) : UseAction → Prop
  | .select => n ≤ s.lb.healthyList.length ∧ s.openConnections ≤ most ∧ s.chosen.length < width
  | _ => True

instance (n most width : ℕ) (s : BalancerUse) (a : UseAction) :
    Decidable (Ample n most width s a) := by
  cases a <;> unfold Ample <;> infer_instance

variable {s t : BalancerUse} {n most width : ℕ}

/-! ## The steps -/

/-- What a selection does: it raises, or a caller has chosen a healthy endpoint with the fewest
connections. -/
theorem step_select (hst : s.step .select = some t) :
    t = s ∨ ∃ ep ∈ s.lb.healthyList, t = { s with chosen := s.chosen ++ [ep.name] } ∧
      ∀ other ∈ s.lb.healthyList, s.connections ep.name ≤ s.connections other.name := by
  have hsame : (s.lb.select .LEAST_CONNECTIONS 0).2 = s.lb := by
    unfold LoadBalancer.select
    dsimp only
    split_ifs
    · rfl
    · rfl
  unfold step at hst
  rcases s.lb.select_result .LEAST_CONNECTIONS 0 with
    ⟨-, heq⟩ | ⟨ep, hep, hok, hleast, -⟩ | ⟨-, hweighted, -⟩
  · simp only [heq] at hst
    exact .inl (Option.some.inj hst).symm
  · have heq : s.lb.select .LEAST_CONNECTIONS 0 = (.ok ep, s.lb) := Prod.ext hok hsame
    simp only [heq] at hst
    exact .inr ⟨ep, hep, (Option.some.inj hst).symm, hleast rfl⟩
  · cases hweighted

/-- What a connection does: the caller's endpoint has one more, unless it was removed. -/
theorem step_connect {caller : ℕ} (hst : s.step (.connect caller) = some t) :
    ∃ name, s.chosen.Perm (name :: t.chosen) ∧ t.lb.healthyList = s.lb.healthyList ∧
      ∀ other, s.connections other ≤ t.connections other ∧
        t.connections other ≤ s.connections other + if other = name then 1 else 0 := by
  unfold step at hst
  dsimp only at hst
  split at hst
  · cases hst
  · rename_i name hname
    obtain rfl := Option.some.inj hst
    obtain ⟨hlt, rfl⟩ := List.getElem?_eq_some_iff.mp hname
    refine ⟨_, (List.getElem_cons_eraseIdx_perm hlt).symm, ?_, fun other => ?_⟩
    · unfold LoadBalancer.recordConnectionOpen LoadBalancer.recordConnection
      cases s.lb.connections.get? s.chosen[caller] with
      | none => rfl
      | some => rfl
    · unfold connections LoadBalancer.recordConnectionOpen LoadBalancer.recordConnection
      cases hcount : s.lb.connections.get? s.chosen[caller] with
      | none => exact ⟨Nat.le_refl _, Nat.le_add_right _ _⟩
      | some count =>
        dsimp only
        rw [Dict.getD_set]
        split_ifs with hother
        · have hbefore : s.lb.connections.getD other 0 = count := by
            rw [hother, Dict.getD, hcount]
            rfl
          rw [hbefore]
          exact ⟨Nat.le_succ _, Nat.le_refl _⟩
        · exact ⟨Nat.le_refl _, Nat.le_refl _⟩

/-- A connection that was still to come is one that is open. -/
theorem moved {chosen chosen' : List String} {opened name : String} {count count' : ℕ}
    (hperm : chosen.Perm (opened :: chosen'))
    (hadded : count' ≤ count + if name = opened then 1 else 0) :
    count' + chosen'.count name ≤ count + chosen.count name := by
  have hcount := hperm.count_eq name
  rw [List.count_cons] at hcount
  by_cases hopened : name = opened
  · rw [if_pos hopened] at hadded
    rw [if_pos (by simpa using hopened.symm)] at hcount
    omega
  · rw [if_neg hopened] at hadded
    rw [if_neg (by simpa using Ne.symm hopened)] at hcount
    omega

/-- What a caller that gives up does. -/
theorem step_leave {caller : ℕ} (hst : s.step (.leave caller) = some t) :
    ∃ name, s.chosen.Perm (name :: t.chosen) ∧ t.lb = s.lb := by
  unfold step at hst
  dsimp only at hst
  split_ifs at hst with hlt
  obtain rfl := Option.some.inj hst
  exact ⟨_, (List.getElem_cons_eraseIdx_perm hlt).symm, rfl⟩

/-- No other operation adds a connection. -/
theorem connections_apply_le (lb : LoadBalancer Binary64) {op : BalancerOp Binary64}
    (hop : op.opens = false) (name : String) :
    (lb.apply op).2.connections.getD name 0 ≤ lb.connections.getD name 0 := by
  cases op with
  | addEndpoint endpoint =>
    change (lb.connections.set endpoint.name (lb.connections.getD endpoint.name 0)).getD name 0 ≤ _
    rw [Dict.getD_set]
    split_ifs with hname
    · rw [hname]
    · exact Nat.le_refl _
  | removeEndpoint removed =>
    change (lb.connections.erase removed).getD name 0 ≤ _
    unfold Dict.getD
    rw [Dict.get?_erase]
    split_ifs
    · exact Nat.zero_le _
    · exact Nat.le_refl _
  | markUnhealthy marked | markHealthy marked =>
    change (LoadBalancer.mark _ lb marked).2.connections.getD name 0 ≤ _
    unfold LoadBalancer.mark
    split_ifs
    · exact Nat.le_refl _
    · exact Nat.le_refl _
  | recordConnectionOpen => cases hop
  | recordConnectionClose closed =>
    change (LoadBalancer.recordConnection _ lb closed).2.connections.getD name 0 ≤ _
    unfold LoadBalancer.recordConnection
    cases hcount : lb.connections.get? closed with
    | none => exact Nat.le_refl _
    | some count =>
      dsimp only
      rw [Dict.getD_set]
      split_ifs with hname
      · have hbefore : lb.connections.getD name 0 = count := by
          rw [hname, Dict.getD, hcount]
          rfl
        rw [hbefore]
        exact Nat.sub_le _ _
      · exact Nat.le_refl _
  | select strategy draw =>
    change (lb.select strategy draw).2.connections.getD name 0 ≤ _
    rw [(lb.select_selected strategy draw).connections]

/-! ## The cap -/

/-- The endpoint with the fewest connections has at most an even share of them. -/
theorem le_share (hn : 0 < n) {ep : ServiceEndpoint Binary64}
    (hleast : ∀ other ∈ s.lb.healthyList, s.connections ep.name ≤ s.connections other.name)
    (hlength : n ≤ s.lb.healthyList.length) (hmost : s.openConnections ≤ most) :
    s.connections ep.name ≤ most / n := by
  rw [Nat.le_div_iff_mul_le hn]
  have hsum := List.card_nsmul_le_sum
    (s.lb.healthyList.map fun ep => s.connections ep.name) (s.connections ep.name)
    (fun x hx => by
      obtain ⟨other, hother, rfl⟩ := List.mem_map.mp hx
      exact hleast other hother)
  rw [List.length_map, Nat.nsmul_eq_mul] at hsum
  calc s.connections ep.name * n ≤ s.connections ep.name * s.lb.healthyList.length :=
        Nat.mul_le_mul_left _ hlength
    _ = s.lb.healthyList.length * s.connections ep.name := Nat.mul_comm _ _
    _ ≤ s.openConnections := hsum
    _ ≤ most := hmost

/-- The connections of every endpoint, those still to come included, are within the cap. -/
def Capped (cap : ℕ) (s : BalancerUse) : Prop :=
  ∀ name, s.connections name + s.chosen.count name ≤ cap

/-- Every step keeps to the cap. -/
theorem Capped.step (hn : 0 < n) (h : Capped (most / n + width) s) {a : UseAction}
    (hample : Ample n most width s a) (hst : s.step a = some t) :
    Capped (most / n + width) t := by
  intro name
  have hname := h name
  cases a with
  | select =>
    rcases step_select hst with rfl | ⟨ep, -, rfl, hleast⟩
    · exact hname
    · obtain ⟨hlength, hmost, hwidth⟩ := hample
      change s.connections name + (s.chosen ++ [ep.name]).count name ≤ _
      rw [List.count_append]
      by_cases hep : ep.name = name
      · -- The selected endpoint has its share, and those that have chosen it are not too many.
        have hshare := le_share hn hleast hlength hmost
        have hcount : s.chosen.count name ≤ s.chosen.length := List.count_le_length
        rw [hep] at hshare
        rw [hep, List.count_singleton_self]
        omega
      · rw [List.count_singleton, if_neg (by simpa using hep)]
        exact hname
  | connect caller =>
    obtain ⟨opened, hperm, -, hcounts⟩ := step_connect hst
    exact (moved hperm (hcounts name).2).trans hname
  | leave caller =>
    obtain ⟨left, hperm, hlb⟩ := step_leave hst
    have hcount := hperm.count_eq name
    rw [List.count_cons] at hcount
    have hsame : t.connections name = s.connections name := by
      unfold connections
      rw [hlb]
    omega
  | manage op =>
    unfold BalancerUse.step at hst
    dsimp only at hst
    split_ifs at hst with hop
    obtain rfl := Option.some.inj hst
    have hless := connections_apply_le s.lb (Bool.eq_false_iff.mpr hop) name
    exact (Nat.add_le_add_right hless _).trans hname

/-! ## Even shares -/

/-- The connections of a healthy endpoint, those still to come included, exceed those of another by
no more than the width. -/
def EvenWithin (width : ℕ) (s : BalancerUse) : Prop :=
  ∀ x ∈ s.lb.healthyList, ∀ y ∈ s.lb.healthyList,
    s.connections x.name + s.chosen.count x.name ≤ s.connections y.name + width

/-- The callers keep the healthy endpoints even. -/
theorem EvenWithin.step (h : EvenWithin width s) {a : UseAction} (ha : a.manages = false)
    (hample : Ample n most width s a) (hst : s.step a = some t) : EvenWithin width t := by
  cases a with
  | select =>
    rcases step_select hst with rfl | ⟨ep, -, rfl, hleast⟩
    · exact h
    · intro x hx y hy
      have hxy := h x hx y hy
      change s.connections x.name + (s.chosen ++ [ep.name]).count x.name ≤
        s.connections y.name + width
      rw [List.count_append]
      by_cases hep : ep.name = x.name
      · -- The selected endpoint had the fewest connections.
        have hfewest := hleast y hy
        have hcount : s.chosen.count x.name ≤ s.chosen.length := List.count_le_length
        have hwidth := hample.2.2
        rw [hep] at hfewest
        rw [hep, List.count_singleton_self]
        omega
      · rw [List.count_singleton, if_neg (by simpa using hep)]
        exact hxy
  | connect caller =>
    obtain ⟨opened, hperm, hhealthy, hcounts⟩ := step_connect hst
    intro x hx y hy
    rw [hhealthy] at hx hy
    have hxy := h x hx y hy
    have hmoved := moved hperm (hcounts x.name).2
    have hkept := (hcounts y.name).1
    omega
  | leave caller =>
    obtain ⟨left, hperm, hlb⟩ := step_leave hst
    intro x hx y hy
    rw [hlb] at hx hy
    have hxy := h x hx y hy
    have hcount := hperm.count_eq x.name
    rw [List.count_cons] at hcount
    unfold connections at hxy ⊢
    rw [hlb]
    omega
  | manage => cases ha

/-- A balancer that is used by `LEAST_CONNECTIONS` does not overload an endpoint. Let every
selection be made among at least `n` healthy endpoints that have at most `most` connections
together, and let there never be more than `width` callers that have selected and not connected yet.
Then, in every interleaving of the callers with connections that close and endpoints that come, go,
and change their health, no endpoint has more than `most / n + width` connections, those of the
callers that have selected it included. And from a state in which the healthy endpoints are level
and no caller has selected, their connections differ by at most `width` for as long as none is
closed and no endpoint changes. -/
theorem least_connections_bounded (hn : 0 < n) {as : List UseAction}
    (hample : Along step (Ample n most width) init as) (hrun : run step init as = some s) :
    (∀ name, s.connections name + s.chosen.count name ≤ most / n + width) ∧
      (s.chosen = [] → (∀ x ∈ s.lb.healthyList, ∀ y ∈ s.lb.healthyList,
          s.connections x.name = s.connections y.name) →
        ∀ bs t, (∀ a ∈ bs, a.manages = false) → Along step (Ample n most width) s bs →
          run step s bs = some t → ∀ x ∈ t.lb.healthyList, ∀ y ∈ t.lb.healthyList,
            t.connections x.name ≤ t.connections y.name + width) := by
  constructor
  · have hinit : Capped (most / n + width) init := fun name => Nat.zero_le _
    exact run_induction_along (fun _ _ _ h hok hst => h.step hn hok hst) hinit hample hrun
  · intro hnone hlevel bs t hcallers hample' hrun' x hx y hy
    have hstart : EvenWithin width s := by
      intro x hx y hy
      rw [hnone, hlevel x hx y hy, List.count_nil]
      exact Nat.le_add_right _ _
    have heven : EvenWithin width t := run_induction_along
      (fun _ _ _ h hok hst => EvenWithin.step h hok.1 hok.2 hst) hstart
      (along_and (along_of_actions hcallers s) hample') hrun'
    exact (Nat.le_add_right _ _).trans (heven x hx y hy)

/-- An endpoint of the default weight. -/
def plainEndpoint (name : String) : ServiceEndpoint Binary64 :=
  { name := name, host := "10.0.0.1", port := 8080, weight_valid := one_valid,
    port_pos := httpPort_pos, port_le := httpPort_le }

/-- Three callers connect to two endpoints, one after the other. -/
def threeCallers : List UseAction :=
  [.manage (.addEndpoint (plainEndpoint "api-1")), .manage (.addEndpoint (plainEndpoint "api-2")),
    .select, .connect 0, .select, .connect 0, .select, .connect 0]

/-- `least_connections_bounded` on this run: none of the endpoints has all three connections. -/
theorem least_connections_bounded_threeCallers :
    ∃ s, run step init threeCallers = some s ∧ s.connections "api-1" = 2 ∧
      ∀ name, s.connections name + s.chosen.count name ≤ 2 := by
  obtain ⟨s, hs⟩ := Option.isSome_iff_exists.mp
    (show (run step init threeCallers).isSome by decide +kernel)
  have hfirst : (run step init threeCallers).map (fun s => s.connections "api-1") = some 2 := by
    decide +kernel
  rw [hs] at hfirst
  have hample : Along step (Ample 2 2 1) init threeCallers := by decide +kernel
  exact ⟨s, hs, Option.some.inj hfirst, (least_connections_bounded (by decide) hample hs).1⟩

end BalancerUse

end MeshRouter.Resilience
