import MeshRouter.Backpressure.Monitor
import MeshRouter.Lib.WeightedMean

/-!
# The pressure score

In every state of the monitor the weights, the capacities and the depths are not negative
(`Wellformed`). The score is then the weighted mean of how full the queues are
(`pressureScore_eq`), so that it lies between zero and one and grows with each depth
(`pressureScore_bounded_monotone`).

An unbounded queue is never full, but its weight counts in the mean. Registering one draws the score
down, unless the weight is zero or no other queue is loaded (`register_unbounded_iff`).
-/

namespace MeshRouter.Backpressure

open Lib

/-- How full a queue is. -/
def QueueMetrics.fill (q : QueueMetrics) : ℚ :=
  if q.maxDepth ≤ 0 then 0 else min 1 (q.currentDepth / q.maxDepth)

/-- The fraction is never divided by zero. -/
theorem QueueMetrics.utilization_eq (q : QueueMetrics) : q.utilization = some q.fill := by
  unfold utilization fill
  split_ifs with h
  · rfl
  · have hne : (q.maxDepth : ℚ) ≠ 0 := by
      exact_mod_cast (not_le.mp h).ne'
    rw [div?_of_ne hne, Option.map_some]

namespace BackpressureMonitor

/-- The monitor after a sequence of calls. -/
def after (m : BackpressureMonitor) (calls : List MonitorCall) : BackpressureMonitor :=
  calls.foldl apply m

/-- The weights and the depths are not negative. -/
def Wellformed (m : BackpressureMonitor) : Prop :=
  ∀ q ∈ m.queues.values, 0 ≤ q.weight ∧ 0 ≤ q.currentDepth

variable {m : BackpressureMonitor} {name : String} {q : QueueMetrics}

theorem wellformed_iff : m.Wellformed ↔
    ∀ name q, m.queues.get? name = some q → 0 ≤ q.weight ∧ 0 ≤ q.currentDepth := by
  unfold Wellformed
  constructor
  · exact fun h name q hq => h q (Dict.mem_values_iff.mpr ⟨name, hq⟩)
  · intro h q hq
    obtain ⟨name, hname⟩ := Dict.mem_values_iff.mp hq
    exact h name q hname

/-- A queue that is set keeps the monitor well formed if it is. -/
theorem Wellformed.set (h : m.Wellformed) (hq : 0 ≤ q.weight ∧ 0 ≤ q.currentDepth) :
    Wellformed { m with queues := m.queues.set name q } := by
  rw [wellformed_iff] at h ⊢
  intro name' q' hq'
  dsimp only at hq'
  rw [Dict.get?_set] at hq'
  split_ifs at hq' with hname
  · obtain rfl := Option.some.inj hq'
    exact hq
  · exact h name' q' hq'

/-- Every call keeps the monitor well formed. -/
theorem Wellformed.apply (h : m.Wellformed) (c : MonitorCall) : (m.apply c).Wellformed := by
  cases c with
  | registerQueue name maxDepth weight =>
    unfold BackpressureMonitor.apply registerQueue
    dsimp only
    split_ifs with hweight hmaxDepth
    · exact h
    · exact h
    · exact h.set ⟨not_lt.mp hweight, le_rfl⟩
  | deregisterQueue name =>
    rw [wellformed_iff] at h ⊢
    intro name' q' hq'
    have hget : (m.queues.erase name).get? name' = some q' := hq'
    rw [Dict.get?_erase] at hget
    split_ifs at hget
    exact h name' q' hget
  | updateDepth name depth =>
    unfold BackpressureMonitor.apply updateDepth
    dsimp only
    split_ifs with hdepth
    · exact h
    · cases hq : m.queues.get? name with
      | none => exact h
      | some q =>
        exact h.set ⟨(wellformed_iff.mp h name q hq).1, not_lt.mp hdepth⟩
  | updateDepths depths =>
    unfold BackpressureMonitor.apply updateDepths
    dsimp only
    induction depths.entries generalizing m with
    | nil => exact h
    | cons entry rest ih =>
      rw [List.foldl_cons]
      refine ih ?_
      cases hq : m.queues.get? entry.1 with
      | none => exact h
      | some q => exact h.set ⟨(wellformed_iff.mp h _ q hq).1, le_max_left 0 entry.2⟩

/-- Every sequence of calls keeps the monitor well formed. -/
theorem Wellformed.after (h : m.Wellformed) (calls : List MonitorCall) :
    (m.after calls).Wellformed := by
  induction calls generalizing m with
  | nil => exact h
  | cons c calls ih => exact ih (h.apply c)

/-- A new monitor is well formed. -/
theorem wellformed_new : Wellformed {} := fun _ hq => (List.not_mem_nil hq).elim

/-! ## The score -/

/-- The score is the weighted mean of how full the queues are. -/
theorem pressureScore_eq (m : BackpressureMonitor) :
    m.pressureScore =
      some (weightedMean QueueMetrics.weight QueueMetrics.fill m.queues.values) := by
  have hterms : (m.queues.values.mapM fun q => q.utilization.map (· * q.weight)) =
      some (m.queues.values.map fun q => q.fill * q.weight) := by
    simp only [QueueMetrics.utilization_eq, Option.map_some]
    exact List.mapM_pure
  unfold pressureScore weightedMean
  dsimp only
  split_ifs with hempty htotal
  · simp [hempty]
  · rw [htotal, div_zero]
  · rw [hterms]
    exact div?_of_ne htotal

theorem fill_nonneg (hq : 0 ≤ q.currentDepth) : 0 ≤ q.fill := by
  unfold QueueMetrics.fill
  split_ifs with h
  · exact le_rfl
  · have hdepth : (0 : ℚ) ≤ q.currentDepth := by exact_mod_cast hq
    have hmax : (0 : ℚ) ≤ q.maxDepth := by exact_mod_cast (not_le.mp h).le
    exact le_min zero_le_one (div_nonneg hdepth hmax)

theorem fill_le_one (q : QueueMetrics) : q.fill ≤ 1 := by
  unfold QueueMetrics.fill
  split_ifs
  · exact zero_le_one
  · exact min_le_left _ _

/-- A queue is fuller with more items. -/
theorem fill_le_fill {depth : ℤ} (h : q.currentDepth ≤ depth) :
    q.fill ≤ ({ q with currentDepth := depth } : QueueMetrics).fill := by
  unfold QueueMetrics.fill
  dsimp only
  split_ifs with hmax
  · exact le_rfl
  · have hdepth : (q.currentDepth : ℚ) ≤ depth := by exact_mod_cast h
    have hpos : (0 : ℚ) ≤ q.maxDepth := by exact_mod_cast (not_le.mp hmax).le
    exact min_le_min_left 1 (div_le_div_of_nonneg_right hdepth hpos)

/-- The score with the depth of a queue replaced by a greater one is not smaller. -/
theorem weightedMean_set_le (hm : m.Wellformed) (hq : m.queues.get? name = some q) {depth : ℤ}
    (h : q.currentDepth ≤ depth) :
    weightedMean QueueMetrics.weight QueueMetrics.fill m.queues.values ≤
      weightedMean QueueMetrics.weight QueueMetrics.fill
        (m.queues.set name { q with currentDepth := depth }).values := by
  -- Both means go over the entries of the dictionary.
  have hentry : ∀ e ∈ m.queues.entries, e.1 = name → e.2 = q := by
    rintro ⟨name', q'⟩ he rfl
    exact Option.some.inj ((Dict.get?_eq_some_iff.mpr he).symm.trans hq)
  let replaced : String × QueueMetrics → QueueMetrics := fun e =>
    if e.1 = name then { q with currentDepth := depth } else e.2
  have hreplaced : ∀ e ∈ m.queues.entries,
      (replaced e).weight = e.2.weight ∧ e.2.fill ≤ (replaced e).fill := by
    intro e he
    by_cases hname : e.1 = name
    · obtain rfl : e.2 = q := hentry e he hname
      simp only [replaced, if_pos hname]
      exact ⟨trivial, fill_le_fill h⟩
    · simp only [replaced, if_neg hname]
      exact ⟨trivial, le_rfl⟩
  have hweight : ∀ e ∈ m.queues.entries, 0 ≤ e.2.weight := fun e he =>
    (hm e.2 (List.mem_map_of_mem he)).1
  rw [Dict.values_set_of_mem (Dict.mem_keys_of_get? hq), Dict.values, weightedMean_map,
    weightedMean_map]
  calc weightedMean (QueueMetrics.weight ∘ Prod.snd) (QueueMetrics.fill ∘ Prod.snd) m.queues.entries
      ≤ weightedMean (QueueMetrics.weight ∘ Prod.snd) (QueueMetrics.fill ∘ replaced)
          m.queues.entries := weightedMean_le_weightedMean hweight fun e he => (hreplaced e he).2
    _ = weightedMean (QueueMetrics.weight ∘ replaced) (QueueMetrics.fill ∘ replaced)
          m.queues.entries := weightedMean_congr fun e he => (hreplaced e he).1.symm

/-- In every state the score is computed without a division by zero, lies between zero and one, and
is not smaller after the depth of one queue has grown. -/
theorem pressureScore_bounded_monotone (calls : List MonitorCall) :
    ∃ score, (after {} calls).pressureScore = some score ∧ 0 ≤ score ∧ score ≤ 1 ∧
      ∀ name q depth, (after {} calls).queues.get? name = some q → q.currentDepth ≤ depth →
        ∃ score', ((after {} calls).updateDepth name depth).2.pressureScore = some score' ∧
          score ≤ score' := by
  have hwf : (after {} calls).Wellformed := wellformed_new.after calls
  generalize after {} calls = m at hwf
  refine ⟨_, pressureScore_eq m, weightedMean_nonneg (fun q hq => (hwf q hq).1)
    fun q hq => fill_nonneg (hwf q hq).2, weightedMean_le (fun q hq => (hwf q hq).1) zero_le_one
    fun q _ => fill_le_one q, fun name q depth hq hdepth => ?_⟩
  have hnonneg : 0 ≤ depth := (wellformed_iff.mp hwf name q hq).2.trans hdepth
  refine ⟨_, pressureScore_eq _, ?_⟩
  rw [updateDepth, if_neg (not_lt.mpr hnonneg), hq]
  exact weightedMean_set_le hwf hq hdepth

/-- `pressureScore_bounded_monotone` for a queue of ten that goes from three items to eight. -/
theorem pressureScore_bounded_monotone_ten :
    ∃ score score', (after {} [.registerQueue "inbox" 10 1, .updateDepth "inbox" 3]).pressureScore =
        some score ∧
      ((after {} [.registerQueue "inbox" 10 1, .updateDepth "inbox" 3]).updateDepth "inbox"
        8).2.pressureScore = some score' ∧ score ≤ score' := by
  obtain ⟨score, hscore, -, -, hmono⟩ :=
    pressureScore_bounded_monotone [.registerQueue "inbox" 10 1, .updateDepth "inbox" 3]
  obtain ⟨score', hscore', hle⟩ :=
    hmono "inbox" ⟨"inbox", 3, 10, 1⟩ 8 (by decide +kernel) (by decide)
  exact ⟨score, score', hscore, hscore', hle⟩

/-! ## Unbounded queues -/

/-- A call that updates the depth of this queue and of no other. -/
def UpdatesDepth (name : String) : MonitorCall → Prop
  | .updateDepth name' _ => name' = name
  | .updateDepths depths => ∀ name' ∈ depths.keys, name' = name
  | .registerQueue _ _ _ | .deregisterQueue _ => False

/-- Steps that each set the depth of the queue, one after the other, set it. -/
theorem foldl_setsDepth {α : Type} {f : BackpressureMonitor → α → BackpressureMonitor} {l : List α}
    (hstep : ∀ a ∈ l, ∀ m q, m.queues.get? name = some q →
      ∃ depth, (f m a).queues = m.queues.set name { q with currentDepth := depth })
    (hq : m.queues.get? name = some q) :
    ∃ depth, (l.foldl f m).queues = m.queues.set name { q with currentDepth := depth } := by
  induction l generalizing m q with
  | nil => exact ⟨q.currentDepth, (Dict.set_of_get? hq).symm⟩
  | cons a l ih =>
    obtain ⟨ha, hl⟩ := List.forall_mem_cons.mp hstep
    obtain ⟨depth, hdepth⟩ := ha m q hq
    have hnext : (f m a).queues.get? name = some { q with currentDepth := depth } := by
      simp [hdepth]
    obtain ⟨depth', hdepth'⟩ := ih hl hnext
    refine ⟨depth', ?_⟩
    rw [List.foldl_cons, hdepth', hdepth, Dict.set_set]

/-- Such a call sets the depth of the queue, or changes nothing. -/
theorem UpdatesDepth.queues_apply {c : MonitorCall} (hc : UpdatesDepth name c)
    (hq : m.queues.get? name = some q) :
    ∃ depth, (m.apply c).queues = m.queues.set name { q with currentDepth := depth } := by
  cases c with
  | registerQueue | deregisterQueue => exact hc.elim
  | updateDepth name' depth =>
    obtain rfl : name' = name := hc
    rw [BackpressureMonitor.apply, updateDepth]
    split_ifs
    · exact ⟨q.currentDepth, (Dict.set_of_get? hq).symm⟩
    · rw [hq]
      exact ⟨depth, rfl⟩
  | updateDepths depths =>
    refine foldl_setsDepth (fun entry hentry m q hq => ⟨max 0 entry.2, ?_⟩) hq
    obtain ⟨name', depth⟩ := entry
    obtain rfl : name' = name := hc name' (List.mem_map_of_mem hentry)
    dsimp only
    rw [hq]

/-- A queue is empty as far as the score goes when it is unbounded or has no items. -/
theorem fill_eq_zero_iff : q.fill = 0 ↔ q.maxDepth ≤ 0 ∨ q.currentDepth = 0 := by
  unfold QueueMetrics.fill
  split_ifs with hmax
  · exact iff_of_true rfl (.inl hmax)
  · have hpos : (0 : ℚ) < q.maxDepth := by exact_mod_cast not_le.mp hmax
    rw [or_iff_right hmax]
    constructor
    · intro hmin
      rcases min_choice (1 : ℚ) (q.currentDepth / q.maxDepth) with hone | hquotient
      · exact absurd (hone.symm.trans hmin) one_ne_zero
      · have hzero := (div_eq_zero_iff.mp (hquotient.symm.trans hmin)).resolve_right hpos.ne'
        exact_mod_cast hzero
    · intro hzero
      simp [hzero]

/-- Registering a new queue without a bound, and updating its depth later, leaves the score as it
was exactly when the weight of the queue is zero, or no other queue counts: each has weight zero, or
no bound, or no items. -/
theorem register_unbounded_iff (calls : List MonitorCall) {name : String}
    (hfresh : name ∉ (after {} calls).queues.keys) {weight : ℚ} (hweight : 0 ≤ weight) :
    (∀ updates, (∀ c ∈ updates, UpdatesDepth name c) →
        (((after {} calls).registerQueue name 0 weight).2.after updates).pressureScore =
          (after {} calls).pressureScore) ↔
      weight = 0 ∨ ∀ q ∈ (after {} calls).queues.values,
        q.weight = 0 ∨ q.maxDepth ≤ 0 ∨ q.currentDepth = 0 := by
  have hwf : (after {} calls).Wellformed := wellformed_new.after calls
  generalize after {} calls = m at hfresh hwf
  have hregister : (m.registerQueue name 0 weight).2 =
      { m with queues := m.queues.set name { name := name, weight := weight } } := by
    rw [registerQueue, if_neg (not_lt.mpr hweight), if_neg (lt_irrefl 0)]
  -- Whatever the updates are, the new queue counts with its weight and is not filled.
  have hscore : ∀ updates, (∀ c ∈ updates, UpdatesDepth name c) →
      (((m.registerQueue name 0 weight).2.after updates).pressureScore = m.pressureScore ↔
        weight = 0 ∨ weightedMean QueueMetrics.weight QueueMetrics.fill m.queues.values = 0) := by
    intro updates hupdates
    have hget : (m.queues.set name { name := name, weight := weight }).get? name =
        some { name := name, weight := weight } := by simp
    obtain ⟨depth, hdepth⟩ := foldl_setsDepth
      (m := { m with queues := m.queues.set name { name := name, weight := weight } })
      (fun c hc m q hq => (hupdates c hc).queues_apply hq) hget
    rw [hregister, pressureScore_eq, pressureScore_eq, Option.some.injEq, after, hdepth,
      Dict.set_set, Dict.values_set_of_notMem hfresh]
    exact weightedMean_concat_zero_iff (fun q hq => (hwf q hq).1) hweight rfl
      fun q hq => fill_nonneg (hwf q hq).2
  have hempty : weightedMean QueueMetrics.weight QueueMetrics.fill m.queues.values = 0 ↔
      ∀ q ∈ m.queues.values, q.weight = 0 ∨ q.maxDepth ≤ 0 ∨ q.currentDepth = 0 := by
    rw [weightedMean_eq_zero_iff (fun q hq => (hwf q hq).1) fun q hq => fill_nonneg (hwf q hq).2]
    exact forall₂_congr fun q _ => or_congr_right fill_eq_zero_iff
  rw [← hempty]
  constructor
  · exact fun h => (hscore [] (by simp)).mp (h [] (by simp))
  · exact fun h updates hupdates => (hscore updates hupdates).mpr h

/-- A full queue. -/
def fullInbox : List MonitorCall := [.registerQueue "inbox" 10 1, .updateDepth "inbox" 10]

/-- `register_unbounded_iff` next to a full queue: with the weight zero the score stays. -/
theorem register_unbounded_weightless :
    "audit" ∉ (after {} fullInbox).queues.keys ∧
      (((after {} fullInbox).registerQueue "audit" 0 0).2.after
        [.updateDepth "audit" 7]).pressureScore = (after {} fullInbox).pressureScore := by
  have hfresh : "audit" ∉ (after {} fullInbox).queues.keys := by decide
  refine ⟨hfresh, (register_unbounded_iff fullInbox hfresh le_rfl).mpr (.inl rfl) _ ?_⟩
  intro c hc
  obtain rfl := List.mem_singleton.mp hc
  rfl

/-- Next to a full queue an unbounded queue of weight one halves the score. -/
theorem register_unbounded_halves :
    (after {} fullInbox).pressureScore = some 1 ∧
      ((after {} fullInbox).registerQueue "audit" 0 1).2.pressureScore = some (1 / 2) ∧
      ((after {} fullInbox).registerQueue "audit" 0 1).2.pressureScore ≠
        (after {} fullInbox).pressureScore := by
  decide +kernel

end BackpressureMonitor

end MeshRouter.Backpressure
