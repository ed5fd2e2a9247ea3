import MeshRouter.Workflows.Dependencies

/-!
# The hierarchical workflow

`HierarchicalWorkflow` of `workflows/hierarchical.py`. The dependencies are validated with a
three-colour depth-first search, the steps are grouped into levels by their depth, and the levels
run in order, each as one wave.

The two recursions of the source, `dfs` and `get_depth`, call themselves through a loop over the
neighbours. Here they carry a bound on the depth of the recursion, one more than the number of
steps; what the bound cuts off is Python's `RecursionError`. `Levels.lean` shows that the recursions
stay below it.
-/

namespace MeshRouter.Workflows

open Lib

namespace HierarchicalWorkflow

/-! ## The depth-first search -/

/-- The colours of the search: not visited, on the current path, done. -/
inductive Color where
  | WHITE
  | GRAY
  | BLACK
deriving DecidableEq

/-- The loop of `dfs` over the neighbours of a node. -/
def visitNeighbors (dfs : String → Dict String Color → Except WorkflowError (Dict String Color)) :
    List String → Dict String Color → Except WorkflowError (Dict String Color)
  | [], color => .ok color
  | neighbor :: neighbors, color =>
    match color.getD neighbor .WHITE with
    -- An edge back into the current path.
    | .GRAY => .error .circularDependency
    | .WHITE =>
      match dfs neighbor color with
      | .error e => .error e
      | .ok color => visitNeighbors dfs neighbors color
    | .BLACK => visitNeighbors dfs neighbors color

/-- `dfs`, to a recursion depth. -/
def dfs (dependents : Dict String (List String)) :
    ℕ → String → Dict String Color → Except WorkflowError (Dict String Color)
  | 0, _, _ => .error .recursionError
  | fuel + 1, node, color =>
    match visitNeighbors (dfs dependents fuel) (dependents.getD node []) (color.set node .GRAY) with
    | .error e => .error e
    | .ok color => .ok (color.set node .BLACK)

/-- The loop of `_validate` over the steps that the search has not visited. -/
def visitSteps (dependents : Dict String (List String)) (fuel : ℕ) :
    List WorkflowStep → Dict String Color → Except WorkflowError (Dict String Color)
  | [], color => .ok color
  | step :: steps, color =>
    if color.getD step.stepId .WHITE = .WHITE then
      match dfs dependents fuel step.stepId color with
      | .error e => .error e
      | .ok color => visitSteps dependents fuel steps color
    else
      visitSteps dependents fuel steps color

/-- `_validate`. -/
def validate (steps : List WorkflowStep) : Except WorkflowError Unit :=
  match checkReferences (stepMap steps) steps with
  | .error e => .error e
  | .ok () =>
    let color := steps.foldl (fun color s => color.set s.stepId .WHITE) .empty
    (visitSteps (dependents steps) (steps.length + 1) steps color).map fun _ => ()

/-! ## The levels -/

/-- The largest depth of the parents: the argument of `max` in `get_depth`. -/
def maxParentDepth (getDepth : String → Dict String ℕ → Except WorkflowError (ℕ × Dict String ℕ)) :
    List String → Dict String ℕ → Except WorkflowError (ℕ × Dict String ℕ)
  | [], depth => .ok (0, depth)
  | depId :: depIds, depth =>
    match getDepth depId depth with
    | .error e => .error e
    | .ok (n, depth) =>
      match maxParentDepth getDepth depIds depth with
      | .error e => .error e
      | .ok (m, depth) => .ok (max n m, depth)

/-- `get_depth`, to a recursion depth. The depths found so far are kept. -/
def getDepth (known : Dict String WorkflowStep) :
    ℕ → String → Dict String ℕ → Except WorkflowError (ℕ × Dict String ℕ)
  | 0, _, _ => .error .recursionError
  | fuel + 1, stepId, depth =>
    match depth.get? stepId with
    | some n => .ok (n, depth)
    | none =>
      match known.get? stepId with
      | none => .error (.keyError stepId)
      | some step =>
        if step.dependsOn = [] then
          .ok (0, depth.set stepId 0)
        else
          match maxParentDepth (getDepth known fuel) step.dependsOn depth with
          | .error e => .error e
          | .ok (m, depth) => .ok (m + 1, depth.set stepId (m + 1))

/-- The first loop of `_compute_levels`: the depth of every step. -/
def computeDepths (known : Dict String WorkflowStep) (fuel : ℕ) :
    List WorkflowStep → Dict String ℕ → Except WorkflowError (Dict String ℕ)
  | [], depth => .ok depth
  | step :: steps, depth =>
    match getDepth known fuel step.stepId depth with
    | .error e => .error e
    | .ok (_, depth) => computeDepths known fuel steps depth

/-- The second loop of `_compute_levels`: each step is appended to the level of its depth. -/
def groupByDepth (depth : Dict String ℕ) (steps : List WorkflowStep) : List (List WorkflowStep) :=
  let maxDepth := depth.values.foldl max 0
  steps.foldl (fun levels s => levels.modify (depth.getD s.stepId 0) (· ++ [s]))
    (List.replicate (maxDepth + 1) [])

/-- `_compute_levels`. -/
def computeLevels (steps : List WorkflowStep) : Except WorkflowError (List (List WorkflowStep)) :=
  match computeDepths (stepMap steps) (steps.length + 1) steps .empty with
  | .error e => .error e
  | .ok depth => .ok (groupByDepth depth steps)

/-! ## Running the levels -/

/-- `failed_parents` is not empty. -/
def hasFailedParent (results : Dict String StepResult) (step : WorkflowStep) : Bool :=
  step.dependsOn.any fun depId => (results.get? depId).any fun r => !r.success

/-- A turn of the loop of `execute` over the levels. -/
def runLevel (agentExecutor : WorkflowStep → ExecOutcome) (p : Progress)
    (level : List WorkflowStep) : Except Raised Progress :=
  let toSkip := level.filter (hasFailedParent p.results)
  let toRun := level.filter fun s => !hasFailedParent p.results s
  (p.recordAll (skipResult .parentStepFailed) toSkip).runAll agentExecutor toRun

/-- The loop of `execute` over the levels. -/
def runLevels (agentExecutor : WorkflowStep → ExecOutcome) :
    List (List WorkflowStep) → Progress → Except Raised Progress
  | [], p => .ok p
  | level :: levels, p =>
    match runLevel agentExecutor p level with
    | .error e => .error e
    | .ok p => runLevels agentExecutor levels p

/-- `execute`. -/
def execute (agentExecutor : WorkflowStep → ExecOutcome) (steps : List WorkflowStep) :
    Except Raised Execution :=
  if steps = [] then
    .ok { result := { stepResults := [], status := .SUCCESS } }
  else
    match validate steps with
    | .error e => .error { error := e }
    | .ok () =>
      match computeLevels steps with
      | .error e => .error { error := e }
      | .ok levels =>
        match runLevels agentExecutor levels {} with
        | .error e => .error e
        | .ok p => .ok { result := makeResult (p.ordered steps), log := p.log }

end HierarchicalWorkflow

end MeshRouter.Workflows
