import MeshRouter.Operator.MeshController

/-!
# The ticks of a mesh

The periodic reconciliation of one mesh: each tick records a failure or a success and considers a
probe. The recovery timeout is any string, and it is read only when a probe of the open breaker is
considered. So a timeout that cannot be read does no harm while the breaker is closed, and the tick
that opens the breaker is the first that raises.

While the breaker is closed its failure count is the number of the ticks with failed agents, since
successes do not start it again. `ticks_return_iff` says from the number of these ticks whether one
of the ticks raises.
-/

namespace MeshRouter.Operator

open Lib

/-- A tick: how many agents have failed, and the clock when a failure is recorded and when a probe
is considered. -/
structure Tick where
  failedAgents : ℕ
  recordedAt : ℚ
  probedAt : ℚ
deriving DecidableEq

/-- Some agents have failed. -/
def Tick.isFailing (t : Tick) : Bool := decide (0 < t.failedAgents)

/-- The circuit breaker's part of `reconcile_mesh_status`: nothing is done if it is not enabled. -/
def tick (conv : TextConversions) (key : String) (config : CircuitBreakerSpec) (registry : Registry)
    (t : Tick) : Except HandlerError CircuitState × Registry :=
  if config.enabled then
    updateCircuitBreaker conv registry key config t.failedAgents t.recordedAt t.probedAt
  else
    (.ok .closed, registry)

/-- How the ticks end, one after the other. A tick that raises does not stop the later ones. -/
def tickOutcomes (conv : TextConversions) (key : String) (config : CircuitBreakerSpec) :
    Registry → List Tick → List (Except HandlerError CircuitState)
  | _, [] => []
  | registry, t :: ts =>
    let r := tick conv key config registry t
    r.1 :: tickOutcomes conv key config r.2 ts

/-- A reconciliation of valid specs whose queries are answered reports what the tick returns, and
raises what the tick raises. -/
theorem reconcileMeshStatus_eq_tick (conv : TextConversions) (registry : Registry)
    (ns name : String) {meshSpec : AgentMeshSpec} {observed : ℕ → AgentObservation}
    {totals : Rollup} (times : ReconcileTimes) (h : rollUp conv meshSpec observed = .ok totals) :
    reconcileMeshStatus conv registry ns name (some meshSpec) observed times =
      let r := tick conv (meshKey ns name) meshSpec.circuitBreaker registry
        ⟨totals.failedAgents, times.recordedAt, times.probedAt⟩
      (r.1.map fun state =>
        some
          { phase := meshPhase totals.activeAgents totals.failedAgents meshSpec.agents.length
            activeAgents := totals.activeAgents
            circuitBreakerState := state
            totalCost := some totals.costs
            lastUpdated := some times.updatedAt }, r.2) := by
  unfold reconcileMeshStatus
  simp only [h]
  rfl

/-! ## Timeouts that can be read -/

/-- If the timeout ends in "s" or "m", then what stands before denotes an integer. -/
def ReadableTimeout (conv : TextConversions) (config : CircuitBreakerSpec) : Prop :=
  ∀ text, config.recoveryTimeout = text ++ "s" ∨ config.recoveryTimeout = text ++ "m" →
    ∃ n, conv.readInt text = some n

/-- A text is read as an integer if it denotes one. -/
theorem toInt_str_isOk_iff {conv : TextConversions} {text : String} :
    (∃ n, (Value.str text).toInt conv = .ok n) ↔ ∃ n, conv.readInt text = some n := by
  unfold Value.toInt
  dsimp only
  cases conv.readInt text with
  | none => exact iff_of_false (by rintro ⟨n, hn⟩; cases hn) (by rintro ⟨n, hn⟩; cases hn)
  | some n => exact iff_of_true ⟨n, rfl⟩ ⟨n, rfl⟩

/-- How a timeout is read, by its last character. -/
theorem parseTimeoutSeconds_append (conv : TextConversions) {config : CircuitBreakerSpec}
    {text : String} {unit : Char} (h : config.recoveryTimeout = text ++ String.singleton unit) :
    CircuitBreakerState.parseTimeoutSeconds conv { config := config } =
      if unit = 's' then (Value.str text).toInt conv
      else if unit = 'm' then ((Value.str text).toInt conv).map (· * 60)
      else .ok 30 := by
  have hlast : config.recoveryTimeout.toList = text.toList ++ [unit] := by
    rw [h, String.toList_append, String.toList_singleton]
  unfold CircuitBreakerState.parseTimeoutSeconds
  dsimp only
  rw [hlast, List.getLast?_concat, List.dropLast_concat, String.ofList_toList]
  split
  · rename_i heq
    rw [if_pos (Option.some.inj heq)]
  · rename_i heq
    rw [Option.some.inj heq]
    rfl
  · rename_i hs hm
    rw [if_neg fun heq => hs (congrArg some heq), if_neg fun heq => hm (congrArg some heq)]

/-- The timeouts that can be read are those on which `_parse_timeout_seconds` returns. -/
theorem readableTimeout_iff {conv : TextConversions} {config : CircuitBreakerSpec} :
    ReadableTimeout conv config ↔
      ∃ seconds, CircuitBreakerState.parseTimeoutSeconds conv { config := config } =
        .ok seconds := by
  unfold ReadableTimeout
  constructor
  · intro h
    rcases List.eq_nil_or_concat config.recoveryTimeout.toList with hnil | ⟨l, unit, hconcat⟩
    · refine ⟨30, ?_⟩
      unfold CircuitBreakerState.parseTimeoutSeconds
      dsimp only
      rw [hnil]
      rfl
    · have htext : config.recoveryTimeout = String.ofList l ++ String.singleton unit := by
        rw [← String.toList_inj, hconcat, String.toList_append, String.toList_ofList,
          String.toList_singleton, List.concat_eq_append]
      rw [parseTimeoutSeconds_append conv htext]
      split_ifs with hs hm
      · subst hs
        exact toInt_str_isOk_iff.mpr (h _ (.inl htext))
      · subst hm
        obtain ⟨n, hn⟩ := toInt_str_isOk_iff.mpr (h _ (.inr htext))
        rw [hn]
        exact ⟨n * 60, rfl⟩
      · exact ⟨30, rfl⟩
  · rintro ⟨seconds, hseconds⟩ text (h | h)
    · have hunit : config.recoveryTimeout = text ++ String.singleton 's' := h
      have hparse := parseTimeoutSeconds_append conv hunit
      rw [hseconds, if_pos rfl] at hparse
      exact toInt_str_isOk_iff.mp ⟨seconds, hparse.symm⟩
    · have hunit : config.recoveryTimeout = text ++ String.singleton 'm' := h
      have hparse := parseTimeoutSeconds_append conv hunit
      rw [hseconds, if_neg (by decide), if_pos rfl] at hparse
      refine toInt_str_isOk_iff.mp ?_
      cases hint : (Value.str text).toInt conv with
      | error e =>
        rw [hint] at hparse
        cases hparse
      | ok n => exact ⟨n, rfl⟩

/-- The timeout is read from the spec alone. -/
theorem parseTimeoutSeconds_congr (conv : TextConversions) (cb : CircuitBreakerState) :
    cb.parseTimeoutSeconds conv =
      CircuitBreakerState.parseTimeoutSeconds conv { config := cb.config } := rfl

/-- With a timeout that can be read, considering a probe does not raise. -/
theorem maybeProbe_of_readable {conv : TextConversions} {cb : CircuitBreakerState}
    (h : ReadableTimeout conv cb.config) (now : ℚ) : ∃ r, cb.maybeProbe conv now = .ok r := by
  obtain ⟨seconds, hseconds⟩ := readableTimeout_iff.mp h
  rw [← parseTimeoutSeconds_congr] at hseconds
  unfold CircuitBreakerState.maybeProbe
  split
  · rename_i openedAt _ _
    rw [hseconds]
    by_cases hdue : (seconds : ℚ) ≤ now - openedAt
    · exact ⟨_, if_pos hdue⟩
    · exact ⟨_, if_neg hdue⟩
  · exact ⟨_, rfl⟩

/-- With another timeout, considering a probe of a breaker that was opened raises. -/
theorem maybeProbe_of_unreadable {conv : TextConversions} {cb : CircuitBreakerState}
    (h : ¬ ReadableTimeout conv cb.config) (hopen : cb.state = .opened) {openedAt : ℚ}
    (hat : cb.openedAt = some openedAt) (now : ℚ) : ∃ e, cb.maybeProbe conv now = .error e := by
  cases hparse : cb.parseTimeoutSeconds conv with
  | ok seconds => exact absurd (readableTimeout_iff.mpr ⟨seconds, hparse⟩) h
  | error e =>
    unfold CircuitBreakerState.maybeProbe
    rw [hopen, hat]
    dsimp only
    rw [hparse]
    exact ⟨e, rfl⟩

/-! ## The breaker of the mesh -/

variable {conv : TextConversions} {key : String} {config : CircuitBreakerSpec} {registry : Registry}

/-- The breaker that the next tick uses. -/
def breakerOf (registry : Registry) (key : String) (config : CircuitBreakerSpec) :
    CircuitBreakerState :=
  (getOrCreateCircuitBreaker registry key config).1

/-- The breaker that was stored last. -/
theorem breakerOf_set (registry : Registry) (key : String) (config : CircuitBreakerSpec)
    (cb : CircuitBreakerState) : breakerOf (registry.set key cb) key config = cb := by
  unfold breakerOf getOrCreateCircuitBreaker
  rw [Dict.get?_set, if_pos rfl]

/-- The breaker after a tick has recorded a failure or a success. -/
def recordedBreaker (cb : CircuitBreakerState) (t : Tick) : CircuitBreakerState :=
  if 0 < t.failedAgents then cb.recordFailure t.recordedAt else cb.recordSuccess

/-- A tick of an enabled breaker: it records, and then a probe is considered. -/
theorem tick_cases (conv : TextConversions) (key : String) (henabled : config.enabled = true)
    (registry : Registry) (t : Tick) :
    (∃ e, (recordedBreaker (breakerOf registry key config) t).maybeProbe conv t.probedAt =
        .error e ∧
      (tick conv key config registry t).1 = .error (.timeout e) ∧
      breakerOf (tick conv key config registry t).2 key config =
        recordedBreaker (breakerOf registry key config) t) ∨
    (∃ probes cb, (recordedBreaker (breakerOf registry key config) t).maybeProbe conv t.probedAt =
        .ok (probes, cb) ∧
      (tick conv key config registry t).1 = .ok cb.state ∧
      breakerOf (tick conv key config registry t).2 key config = cb) := by
  cases hprobe : (recordedBreaker (breakerOf registry key config) t).maybeProbe conv t.probedAt with
  | error e =>
    have htick : tick conv key config registry t = (.error (.timeout e),
        (getOrCreateCircuitBreaker registry key config).2.set key
          (recordedBreaker (breakerOf registry key config) t)) := by
      unfold recordedBreaker breakerOf at hprobe ⊢
      unfold tick updateCircuitBreaker
      rw [if_pos henabled]
      dsimp only
      rw [hprobe]
    rw [htick]
    exact .inl ⟨e, rfl, rfl, breakerOf_set _ _ _ _⟩
  | ok r =>
    have htick : tick conv key config registry t = (.ok r.2.state,
        (getOrCreateCircuitBreaker registry key config).2.set key r.2) := by
      unfold recordedBreaker breakerOf at hprobe
      unfold tick updateCircuitBreaker
      rw [if_pos henabled]
      dsimp only
      rw [hprobe]
    rw [htick]
    exact .inr ⟨r.1, r.2, rfl, rfl, breakerOf_set _ _ _ _⟩

/-- What is recorded does not change the spec of a breaker. -/
theorem config_recordedBreaker (cb : CircuitBreakerState) (t : Tick) :
    (recordedBreaker cb t).config = cb.config := by
  unfold recordedBreaker
  split_ifs
  · exact config_recordFailure cb t.recordedAt
  · exact config_recordSuccess cb

/-- With a timeout that can be read no tick raises. -/
theorem ticks_return_of_readable (henabled : config.enabled = true)
    (hreadable : ReadableTimeout conv config) (ticks : List Tick)
    (hconfig : (breakerOf registry key config).config = config) :
    ∀ outcome ∈ tickOutcomes conv key config registry ticks, ∃ state, outcome = .ok state := by
  induction ticks generalizing registry with
  | nil => exact fun outcome houtcome => absurd houtcome List.not_mem_nil
  | cons t ts ih =>
    have hrecorded : (recordedBreaker (breakerOf registry key config) t).config = config :=
      (config_recordedBreaker _ t).trans hconfig
    rcases tick_cases conv key henabled registry t with
      ⟨e, hprobe, -⟩ | ⟨probes, cb, hprobe, hok, hnext⟩
    · obtain ⟨r, hr⟩ := maybeProbe_of_readable (hrecorded.symm ▸ hreadable) t.probedAt
      cases hprobe.symm.trans hr
    · intro outcome houtcome
      rcases List.mem_cons.mp houtcome with rfl | hrest
      · exact ⟨cb.state, hok⟩
      · refine ih ?_ outcome hrest
        rw [hnext]
        exact (config_maybeProbe hprobe).trans hrecorded

/-! ## Timeouts that cannot be read -/

/-- The closed breaker with `n` failures. -/
def closedWith (config : CircuitBreakerSpec) (n : ℕ) : CircuitBreakerState :=
  { config := config, failureCount := n }

/-- A tick without failed agents leaves the closed breaker as it is. -/
theorem tick_calm (conv : TextConversions) (henabled : config.enabled = true) {n : ℕ}
    (hbreaker : breakerOf registry key config = closedWith config n) {t : Tick}
    (ht : t.isFailing = false) :
    (tick conv key config registry t).1 = .ok .closed ∧
      breakerOf (tick conv key config registry t).2 key config = closedWith config n := by
  have hrecorded : recordedBreaker (breakerOf registry key config) t = closedWith config n := by
    rw [hbreaker, recordedBreaker, if_neg (of_decide_eq_false ht)]
    rfl
  rcases tick_cases conv key henabled registry t with
    ⟨e, hprobe, -⟩ | ⟨probes, cb, hprobe, hok, hnext⟩
  · rw [hrecorded] at hprobe
    cases hprobe
  · rw [hrecorded] at hprobe
    obtain ⟨-, rfl⟩ := Prod.mk.inj (Except.ok.inj hprobe)
    exact ⟨hok, hnext⟩

/-- A tick with failed agents adds one to the failures. It raises if they reach the threshold. -/
theorem tick_failing (henabled : config.enabled = true)
    (hunreadable : ¬ ReadableTimeout conv config) {n : ℕ}
    (hbreaker : breakerOf registry key config = closedWith config n) {t : Tick}
    (ht : t.isFailing = true) :
    config.failureThreshold ≤ n + 1 ∧ (∃ e, (tick conv key config registry t).1 = .error e) ∨
      (n : ℤ) + 1 < config.failureThreshold ∧
        (tick conv key config registry t).1 = .ok .closed ∧
        breakerOf (tick conv key config registry t).2 key config = closedWith config (n + 1) := by
  have hrecorded : recordedBreaker (breakerOf registry key config) t =
      (closedWith config n).recordFailure t.recordedAt := by
    rw [hbreaker, recordedBreaker, if_pos (of_decide_eq_true ht)]
  by_cases hreached : config.failureThreshold ≤ n + 1
  · -- The breaker opens, and the timeout is read in the same tick.
    have hopened : (closedWith config n).recordFailure t.recordedAt =
        { closedWith config (n + 1) with state := .opened, openedAt := some t.recordedAt } := by
      have hle : config.failureThreshold ≤ ((n + 1 : ℕ) : ℤ) := by exact_mod_cast hreached
      unfold CircuitBreakerState.recordFailure closedWith
      dsimp only
      rw [if_pos hle]
    refine .inl ⟨hreached, ?_⟩
    have hraises : ∃ e, CircuitBreakerState.maybeProbe conv t.probedAt
        { closedWith config (n + 1) with state := .opened, openedAt := some t.recordedAt } =
          .error e :=
      maybeProbe_of_unreadable hunreadable rfl rfl t.probedAt
    obtain ⟨e, he⟩ := hraises
    rw [← hopened, ← hrecorded] at he
    rcases tick_cases conv key henabled registry t with
      ⟨e', hprobe, herr, -⟩ | ⟨probes, cb, hprobe, -⟩
    · exact ⟨.timeout e', herr⟩
    · cases he.symm.trans hprobe
  · have hclosed : (closedWith config n).recordFailure t.recordedAt =
        closedWith config (n + 1) := by
      have hlt : ¬ config.failureThreshold ≤ ((n + 1 : ℕ) : ℤ) := by exact_mod_cast hreached
      unfold CircuitBreakerState.recordFailure closedWith
      dsimp only
      rw [if_neg hlt]
    refine .inr ⟨not_le.mp hreached, ?_⟩
    rcases tick_cases conv key henabled registry t with
      ⟨e, hprobe, -⟩ | ⟨probes, cb, hprobe, hok, hnext⟩
    · rw [hrecorded, hclosed] at hprobe
      cases hprobe
    · rw [hrecorded, hclosed] at hprobe
      obtain ⟨-, rfl⟩ := Prod.mk.inj (Except.ok.inj hprobe)
      exact ⟨hok, hnext⟩

/-- From a closed breaker with `n` failures no tick raises exactly if the ticks with failed agents
do not bring them to the threshold. -/
theorem ticks_return_iff_of_unreadable (henabled : config.enabled = true)
    (hunreadable : ¬ ReadableTimeout conv config) (ticks : List Tick) {n : ℕ}
    (hbreaker : breakerOf registry key config = closedWith config n) :
    (∀ outcome ∈ tickOutcomes conv key config registry ticks, ∃ state, outcome = .ok state) ↔
      ticks.countP Tick.isFailing = 0 ∨
        (n : ℤ) + ticks.countP Tick.isFailing < config.failureThreshold := by
  induction ticks generalizing registry n with
  | nil => exact iff_of_true (fun outcome houtcome => absurd houtcome List.not_mem_nil) (.inl rfl)
  | cons t ts ih =>
    rw [tickOutcomes, List.forall_mem_cons]
    cases ht : t.isFailing with
    | false =>
      obtain ⟨hok, hnext⟩ := tick_calm conv henabled hbreaker ht
      rw [List.countP_cons_of_neg (by simp [ht]), ih hnext]
      exact and_iff_right ⟨_, hok⟩
    | true =>
      rw [List.countP_cons_of_pos ht]
      rcases tick_failing henabled hunreadable hbreaker ht with
        ⟨hreached, e, herr⟩ | ⟨hbelow, hok, hnext⟩
      · refine iff_of_false ?_ (by omega)
        rintro ⟨⟨state, hstate⟩, -⟩
        cases herr.symm.trans hstate
      · rw [ih hnext]
        refine (and_iff_right ⟨_, hok⟩).trans ?_
        rw [or_iff_right (Nat.succ_ne_zero _)]
        push_cast
        omega

/-- For every spec, whatever its recovery timeout is, and every sequence of ticks, with any numbers
of failed agents and at any times, from a breaker that is new: no tick raises exactly if the breaker
is not enabled, or the timeout can be read, or so few ticks have failed agents that the breaker does
not open. A reconciliation whose queries are answered reports a status exactly if its tick does not
raise. -/
theorem ticks_return_iff (conv : TextConversions) (config : CircuitBreakerSpec) (ticks : List Tick)
    (hnew : (getOrCreateCircuitBreaker registry key config).1 = { config := config }) :
    ((∀ outcome ∈ tickOutcomes conv key config registry ticks, ∃ state, outcome = .ok state) ↔
      config.enabled = false ∨ ReadableTimeout conv config ∨
        ticks.countP Tick.isFailing = 0 ∨
        (ticks.countP Tick.isFailing : ℤ) < config.failureThreshold) ∧
    ∀ (registry : Registry) (ns name : String) (meshSpec : AgentMeshSpec)
      (observed : ℕ → AgentObservation) (totals : Rollup) (times : ReconcileTimes),
      meshSpec.circuitBreaker = config → rollUp conv meshSpec observed = .ok totals →
      ((∃ status, (reconcileMeshStatus conv registry ns name (some meshSpec) observed times).1 =
          .ok (some status)) ↔
        ∃ state, (tick conv (meshKey ns name) config registry
          ⟨totals.failedAgents, times.recordedAt, times.probedAt⟩).1 = .ok state) := by
  constructor
  · cases henabled : config.enabled with
    | false =>
      refine iff_of_true ?_ (.inl rfl)
      clear hnew
      induction ticks generalizing registry with
      | nil => exact fun outcome houtcome => absurd houtcome List.not_mem_nil
      | cons t ts ih =>
        have htick : tick conv key config registry t = (.ok .closed, registry) := by
          unfold tick
          rw [henabled, if_neg Bool.false_ne_true]
        rw [tickOutcomes, List.forall_mem_cons, htick]
        exact ⟨⟨_, rfl⟩, ih⟩
    | true =>
      rw [or_iff_right (Bool.true_eq_false ▸ not_false)]
      by_cases hreadable : ReadableTimeout conv config
      · refine iff_of_true (ticks_return_of_readable henabled hreadable ticks ?_) (.inl hreadable)
        unfold breakerOf
        rw [hnew]
      · rw [or_iff_right hreadable]
        have hiff := ticks_return_iff_of_unreadable (n := 0) henabled hreadable ticks hnew
        rwa [Nat.cast_zero, zero_add] at hiff
  · rintro registry ns name meshSpec observed totals times rfl htotals
    rw [reconcileMeshStatus_eq_tick conv registry ns name times htotals]
    dsimp only
    cases (tick conv (meshKey ns name) meshSpec.circuitBreaker registry
      ⟨totals.failedAgents, times.recordedAt, times.probedAt⟩).1 with
    | error e => exact iff_of_false (by rintro ⟨status, h⟩; cases h) (by rintro ⟨state, h⟩; cases h)
    | ok state => exact iff_of_true ⟨_, rfl⟩ ⟨_, rfl⟩

/-- `ticks_return_iff` on a timeout of half a second that cannot be read: one tick with a failed
agent stays below the default threshold. -/
theorem ticks_return_iff_halfSecond :
    ¬ ReadableTimeout unreadable { recoveryTimeout := "500ms" } ∧
      ∀ outcome ∈ tickOutcomes unreadable "default/mesh" { recoveryTimeout := "500ms" } .empty
        [⟨1, 0, 0⟩], ∃ state, outcome = .ok state := by
  constructor
  · intro hreadable
    obtain ⟨n, hn⟩ := hreadable "500m" (.inl rfl)
    cases hn
  · refine (ticks_return_iff unreadable { recoveryTimeout := "500ms" } [⟨1, 0, 0⟩] rfl).1.mpr ?_
    exact .inr (.inr (.inr (by decide)))

/-- The same timeout with a threshold of one: the first tick with a failed agent opens the breaker,
and raises. -/
theorem halfSecond_raises :
    ¬ ∀ (conv : TextConversions) (key : String) (config : CircuitBreakerSpec) (ticks : List Tick),
      ∀ outcome ∈ tickOutcomes conv key config .empty ticks, ∃ state, outcome = .ok state := by
  intro hall
  have hraised : tickOutcomes unreadable "default/mesh"
      { failureThreshold := 1, recoveryTimeout := "500ms" } .empty [⟨1, 0, 0⟩] =
        [.error (.timeout .valueError)] := by
    decide +kernel
  obtain ⟨state, hstate⟩ := hall unreadable "default/mesh"
    { failureThreshold := 1, recoveryTimeout := "500ms" } [⟨1, 0, 0⟩] _
    (hraised ▸ List.mem_singleton_self _)
  cases hstate

end MeshRouter.Operator
