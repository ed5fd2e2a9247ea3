import MeshRouter.Routing.Soundness

/-!
# When routing raises

The routers read two keys of the payload. A list under `required_capabilities` is made a set, which
raises if an element cannot be hashed, and `estimated_tokens` is made an integer and compared as a
float, which raises if it does not denote a number of that size. The other kinds of value under the
first key are taken for no requirement at all.

A composite asks the routers at its leaves one after another if there is a healthy agent, and
raises with the first that raises. By induction on the strategy, a ranking returns exactly when
every router that is asked returns (`rankCandidates_returns_iff`), whatever the counters are.
-/

namespace MeshRouter.Routing

open Lib Messages

variable {conv : TextConversions} {table : RoutingTable} {envelope : MessageEnvelope}

/-! ## What the routers need of a message -/

/-- The required capabilities can be the members of a set, if they are a list. -/
def HashableCapabilities (envelope : MessageEnvelope) : Prop :=
  ∀ raw, envelope.payload.get? "required_capabilities" = some (.list raw) →
    ∀ v ∈ raw, v.hashable = true

/-- A value denotes a number of tokens that a float can hold. -/
def IsTokenCount (conv : TextConversions) : Value → Prop
  | .bool _ => True
  | .int n => n.natAbs < floatLimit
  | .float x => (if 0 ≤ x then ⌊x⌋ else ⌈x⌉).natAbs < floatLimit
  | .infinite _ => False
  | .nan => False
  | .str s => ∃ n, conv.readInt s = some n ∧ n.natAbs < floatLimit
  | .none => False
  | .list _ => False
  | .dict _ => False

/-- The estimated tokens are a number, if they are given. -/
def ReadableTokens (conv : TextConversions) (envelope : MessageEnvelope) : Prop :=
  ∀ v, envelope.payload.get? "estimated_tokens" = some v → IsTokenCount conv v

/-- What a router at a leaf needs of a message to return. -/
def Serves (conv : TextConversions) (table : RoutingTable) (envelope : MessageEnvelope) :
    RoutingStrategy → Prop
  | .capabilityMatchRouter _ _ => HashableCapabilities envelope
  | .costAwareRouter _ =>
    table.listAgents (some true) = [] ∨ envelope.costBudgetUsd = none ∨
      ReadableTokens conv envelope
  | .roundRobinRouter _ => True
  | .leastLoadedRouter _ => True
  | .compositeRouter _ => True

theorem setOf_returns_iff {values : List Value} :
    (∃ members, Value.setOf values = .ok members) ↔ ∀ v ∈ values, v.hashable = true := by
  unfold Value.setOf
  split_ifs with h
  · exact ⟨fun _ => h, fun _ => ⟨values, rfl⟩⟩
  · exact ⟨fun ⟨_, hok⟩ => (by cases hok), fun hall => absurd hall h⟩

theorem requiredCapabilities_returns_iff :
    (∃ required, requiredCapabilities envelope = .ok required) ↔
      HashableCapabilities envelope := by
  unfold requiredCapabilities HashableCapabilities
  cases hget : envelope.payload.get? "required_capabilities" with
  | none => exact ⟨fun _ raw hraw => (by cases hraw), fun _ => ⟨[], rfl⟩⟩
  | some value =>
    rw [Option.getD_some]
    cases value with
    | list raw =>
      rw [setOf_returns_iff]
      constructor
      · intro hall raw' hraw
        obtain rfl := Value.list.inj (Option.some.inj hraw)
        exact hall
      · exact fun hall => hall raw rfl
    -- Anything else is taken for no requirement.
    | _ => exact ⟨fun _ raw hraw => (by cases hraw), fun _ => ⟨[], rfl⟩⟩

theorem rankByCapability_returns_iff {requireAll tieBreakByLoad : Bool} :
    (∃ ranked, rankByCapability requireAll tieBreakByLoad table envelope = .ok ranked) ↔
      HashableCapabilities envelope := by
  rw [← requiredCapabilities_returns_iff]
  unfold rankByCapability
  rw [exists_bind_eq_ok_iff]
  exact exists_congr fun required => and_iff_left ⟨_, rfl⟩

theorem floatOfInt_returns_iff {n : ℤ} :
    (∃ x, floatOfInt n = .ok x) ↔ n.natAbs < floatLimit := by
  unfold floatOfInt
  split_ifs with h
  · exact ⟨fun _ => h, fun _ => ⟨n, rfl⟩⟩
  · exact ⟨fun ⟨_, hok⟩ => (by cases hok), fun hlt => absurd hlt h⟩

theorem thousand_lt_floatLimit : 1000 < floatLimit := by
  decide +kernel

/-- A value is a number of tokens when `int` reads it and a float can hold what it reads. -/
theorem isTokenCount_iff {v : Value} :
    IsTokenCount conv v ↔ ∃ n, v.toInt conv = .ok n ∧ n.natAbs < floatLimit := by
  have hreturns : ∀ {m : ℤ}, m.natAbs < floatLimit ↔
      ∃ n, (.ok m : Except PyError ℤ) = .ok n ∧ n.natAbs < floatLimit :=
    fun {m} => ⟨fun h => ⟨m, rfl, h⟩, fun ⟨_, hn, h⟩ => Except.ok.inj hn ▸ h⟩
  have hraises : ∀ {e : PyError}, False ↔
      ∃ n, (.error e : Except PyError ℤ) = .ok n ∧ n.natAbs < floatLimit :=
    ⟨False.elim, fun ⟨_, hn, _⟩ => (by cases hn)⟩
  cases v with
  | none => exact hraises
  | bool b =>
    refine Iff.trans ⟨fun _ => ?_, fun _ => trivial⟩ hreturns
    cases b with
    | false => exact Nat.zero_lt_of_lt thousand_lt_floatLimit
    | true => exact Nat.lt_trans (by decide) thousand_lt_floatLimit
  | int n => exact hreturns
  | float x => exact hreturns
  | infinite negative => exact hraises
  | nan => exact hraises
  | str s =>
    cases hread : conv.readInt s with
    | none => simp [IsTokenCount, Value.toInt, hread]
    | some n => simp [IsTokenCount, Value.toInt, hread]
  | list xs => exact hraises
  | dict entries => exact hraises

theorem estimatedTokens_returns_iff :
    (∃ tokens, estimatedTokens conv envelope = .ok tokens) ↔ ReadableTokens conv envelope := by
  have hvalue : ∀ v : Value,
      (∃ tokens, (v.toInt conv >>= fun n => floatOfInt n) = .ok tokens) ↔ IsTokenCount conv v := by
    intro v
    rw [isTokenCount_iff, exists_bind_eq_ok_iff]
    exact exists_congr fun n => and_congr_right fun _ => floatOfInt_returns_iff
  unfold estimatedTokens ReadableTokens
  rw [hvalue]
  cases envelope.payload.get? "estimated_tokens" with
  | none =>
    exact ⟨fun _ v hv => (by cases hv), fun _ => thousand_lt_floatLimit⟩
  | some v =>
    rw [Option.getD_some]
    exact ⟨fun h w hw => Option.some.inj hw ▸ h, fun h => h v rfl⟩

theorem rankByCost_returns_iff {margin : SafetyMargin} :
    (∃ ranked, rankByCost conv margin table envelope = .ok ranked) ↔
      table.listAgents (some true) = [] ∨ envelope.costBudgetUsd = none ∨
        ReadableTokens conv envelope := by
  unfold rankByCost
  dsimp only
  split_ifs with hnone
  · exact ⟨fun _ => .inl hnone, fun _ => ⟨[], rfl⟩⟩
  · rw [or_iff_right hnone, ← estimatedTokens_returns_iff]
    cases envelope.costBudgetUsd with
    | none => exact ⟨fun _ => .inl rfl, fun _ => ⟨_, rfl⟩⟩
    | some budget =>
      dsimp only
      rw [exists_bind_eq_ok_iff, or_iff_right (Option.some_ne_none budget)]
      exact exists_congr fun tokens => and_iff_left ⟨_, rfl⟩

/-! ## The routers that are asked -/

namespace RoutingStrategy

mutual

/-- The routers at the leaves of a strategy, in the order in which they are asked. -/
def leaves : RoutingStrategy → List RoutingStrategy
  | .capabilityMatchRouter requireAll tieBreakByLoad =>
    [.capabilityMatchRouter requireAll tieBreakByLoad]
  | .costAwareRouter margin => [.costAwareRouter margin]
  | .roundRobinRouter router => [.roundRobinRouter router]
  | .leastLoadedRouter ceiling => [.leastLoadedRouter ceiling]
  | .compositeRouter strategies => leavesOf strategies

/-- The leaves of the strategies of a composite. -/
def leavesOf : List (RoutingStrategy × NNRat) → List RoutingStrategy
  | [] => []
  | (strategy, _) :: rest => leaves strategy ++ leavesOf rest

end

/-- The routers that a strategy asks: without a healthy agent, a composite returns at once. -/
def asked (table : RoutingTable) (strategy : RoutingStrategy) : List RoutingStrategy :=
  if table.listAgents (some true) = [] then [strategy] else strategy.leaves

mutual

/-- With a healthy agent, a ranking returns when all the leaves do. -/
theorem rankCandidates_returns_iff_leaves (hagents : table.listAgents (some true) ≠ []) :
    ∀ (strategy : RoutingStrategy) (counters : Counters),
      (∃ ranked, (strategy.rankCandidates conv table envelope counters).1 = .ok ranked) ↔
        ∀ leaf ∈ strategy.leaves, Serves conv table envelope leaf
  | .capabilityMatchRouter requireAll tieBreakByLoad, counters => by
    unfold leaves
    rw [List.forall_mem_singleton]
    exact rankByCapability_returns_iff
  | .costAwareRouter margin, counters => by
    unfold leaves
    rw [List.forall_mem_singleton]
    exact rankByCost_returns_iff
  | .roundRobinRouter router, counters => by
    unfold leaves
    rw [List.forall_mem_singleton]
    exact ⟨fun _ => trivial, fun _ => ⟨_, rfl⟩⟩
  | .leastLoadedRouter ceiling, counters => by
    unfold leaves
    rw [List.forall_mem_singleton]
    exact ⟨fun _ => trivial, fun _ => ⟨_, rfl⟩⟩
  | .compositeRouter strategies, counters => by
    have hscores := accumulateScores_returns_iff hagents strategies
      ((allCandidates table).mapValues fun _ => 0) counters
    unfold leaves rankCandidates
    dsimp only
    rw [values_allCandidates, if_neg hagents, ← hscores]
    rcases accumulateScores conv table envelope strategies
      ((allCandidates table).mapValues fun _ => 0) counters with ⟨_ | scores, after⟩
    · exact ⟨fun ⟨_, h⟩ => (by cases h), fun ⟨_, h⟩ => (by cases h)⟩
    · exact ⟨fun _ => ⟨scores, rfl⟩, fun _ => ⟨_, rfl⟩⟩

/-- The loop over the strategies returns when all their leaves do. -/
theorem accumulateScores_returns_iff (hagents : table.listAgents (some true) ≠ []) :
    ∀ (strategies : List (RoutingStrategy × NNRat)) (scores : Dict String ℚ) (counters : Counters),
      (∃ scores', (accumulateScores conv table envelope strategies scores counters).1 =
        .ok scores') ↔ ∀ leaf ∈ leavesOf strategies, Serves conv table envelope leaf
  | [], scores, counters => by
    unfold leavesOf
    exact ⟨fun _ leaf hleaf => absurd hleaf List.not_mem_nil, fun _ => ⟨scores, rfl⟩⟩
  | (strategy, weight) :: rest, scores, counters => by
    have hfirst := rankCandidates_returns_iff_leaves hagents strategy counters
    unfold leavesOf accumulateScores
    rw [List.forall_mem_append, ← hfirst]
    rcases strategy.rankCandidates conv table envelope counters with ⟨_ | ranked, after⟩
    · exact ⟨fun ⟨_, h⟩ => (by cases h), fun ⟨⟨_, h⟩, _⟩ => (by cases h)⟩
    · have hrest := accumulateScores_returns_iff hagents rest (addScores ranked weight scores) after
      exact hrest.trans ⟨fun h => ⟨⟨ranked, rfl⟩, h⟩, fun h => h.2⟩

end

/-- A ranking returns when every router that is asked does. -/
theorem rankCandidates_returns_iff (strategy : RoutingStrategy) (counters : Counters) :
    (∃ ranked, (strategy.rankCandidates conv table envelope counters).1 = .ok ranked) ↔
      ∀ router ∈ strategy.asked table, Serves conv table envelope router := by
  unfold asked
  split_ifs with hagents
  · rw [List.forall_mem_singleton]
    cases strategy with
    | capabilityMatchRouter requireAll tieBreakByLoad => exact rankByCapability_returns_iff
    | costAwareRouter margin => exact rankByCost_returns_iff
    | roundRobinRouter router => exact ⟨fun _ => trivial, fun _ => ⟨_, rfl⟩⟩
    | leastLoadedRouter ceiling => exact ⟨fun _ => trivial, fun _ => ⟨_, rfl⟩⟩
    | compositeRouter strategies =>
      unfold rankCandidates
      dsimp only
      rw [values_allCandidates, if_pos hagents]
      exact ⟨fun _ => trivial, fun _ => ⟨[], rfl⟩⟩
  · exact rankCandidates_returns_iff_leaves hagents strategy counters

end RoutingStrategy

/-! ## The resolver -/

namespace RouteResolver

/-- What a payload must be for the routers that the resolver asks: without an element that cannot
be hashed in the list of the required capabilities, if a `CapabilityMatchRouter` is asked, and with
a readable number of tokens, if a `CostAwareRouter` is asked about a budget and there is a healthy
agent. -/
structure PayloadFits (conv : TextConversions) (resolver : RouteResolver)
    (envelope : MessageEnvelope) : Prop where
  capabilities : ∀ requireAll tieBreakByLoad,
    .capabilityMatchRouter requireAll tieBreakByLoad ∈ resolver.strategy.asked resolver.table →
      HashableCapabilities envelope
  tokens : ∀ margin, .costAwareRouter margin ∈ resolver.strategy.asked resolver.table →
    resolver.table.listAgents (some true) ≠ [] → envelope.costBudgetUsd ≠ none →
      ReadableTokens conv envelope

/-- The payload fits when it serves every router that is asked. -/
theorem payloadFits_iff {resolver : RouteResolver} :
    resolver.PayloadFits conv envelope ↔
      ∀ router ∈ resolver.strategy.asked resolver.table,
        Serves conv resolver.table envelope router := by
  constructor
  · intro hfits router hrouter
    cases router with
    | capabilityMatchRouter requireAll tieBreakByLoad => exact hfits.capabilities _ _ hrouter
    | costAwareRouter margin =>
      by_cases hagents : resolver.table.listAgents (some true) = []
      · exact .inl hagents
      · by_cases hbudget : envelope.costBudgetUsd = none
        · exact .inr (.inl hbudget)
        · exact .inr (.inr (hfits.tokens margin hrouter hagents hbudget))
    | roundRobinRouter router => exact trivial
    | leastLoadedRouter ceiling => exact trivial
    | compositeRouter strategies => exact trivial
  · intro hserves
    refine ⟨fun _ _ hrouter => hserves _ hrouter, fun margin hrouter hagents hbudget => ?_⟩
    exact ((hserves _ hrouter).resolve_left hagents).resolve_left hbudget

/-- Routing returns a result exactly when the receiver is taken directly or the payload fits the
routers that are asked. -/
theorem resolve_returns_iff (conv : TextConversions) (resolver : RouteResolver)
    (envelope : MessageEnvelope) (counters : Counters) :
    (∃ result, (resolver.resolve conv envelope counters).1 = .ok result) ↔
      resolver.Direct envelope ∨ resolver.PayloadFits conv envelope := by
  by_cases hdirect : resolver.Direct envelope
  · rw [resolve_of_direct hdirect]
    exact ⟨fun _ => .inl hdirect, fun _ => ⟨_, rfl⟩⟩
  · rw [resolve_of_not_direct hdirect, or_iff_right hdirect, payloadFits_iff,
      ← resolver.strategy.rankCandidates_returns_iff counters]
    cases (resolver.strategy.rankCandidates conv resolver.table envelope counters).1 with
    | error e => exact ⟨fun ⟨_, h⟩ => (by cases h), fun ⟨_, h⟩ => (by cases h)⟩
    | ok ranked => exact ⟨fun _ => ⟨ranked, rfl⟩, fun _ => ⟨_, rfl⟩⟩

/-- A message whose required capabilities are a list with a list in it. -/
def nestedRequirement : MessageEnvelope where
  sender := "a"
  receiver := "*"
  payload := Dict.empty.set "required_capabilities" (.list [.list [.str "python"]])
  messageId := "m"
  createdAt := 0

/-- The set of a list with a list in it raises, and so does the resolver. -/
theorem nestedRequirement_raises :
    ¬ ∀ (conv : TextConversions) (resolver : RouteResolver) (envelope : MessageEnvelope)
      (counters : Counters), (∀ budget, envelope.costBudgetUsd = some budget → 0 ≤ budget) →
        ∃ result, (resolver.resolve conv envelope counters).1 = .ok result := by
  intro hall
  obtain ⟨result, hresult⟩ := hall ⟨fun _ => none, fun _ => none, fun _ => .error .typeError⟩
    { table := RoutingTable.init, strategy := .capabilityMatchRouter } nestedRequirement
    (fun _ => 0) (fun budget hbudget => by cases hbudget)
  have hraises : (RouteResolver.resolve
      ⟨fun _ => none, fun _ => none, fun _ => .error .typeError⟩
      { table := RoutingTable.init, strategy := .capabilityMatchRouter } nestedRequirement
      (fun _ => 0)).1 = .error .typeError := rfl
  rw [hresult] at hraises
  cases hraises

end RouteResolver

end MeshRouter.Routing
