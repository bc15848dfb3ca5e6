import Mathlib.Data.List.Basic
import Mathlib.Data.Int.Notation

/-!
The steps of a pipeline, the repeat governor that watches them and the graph
that is derived from a list of them. What the parameters of a step say stays
with the reader of the parameters.
-/

namespace Kyberion.Pipeline

inductive AdfStepType
  | capture | transform | apply | control
  deriving DecidableEq

def AdfStepType.text : AdfStepType → String
  | .capture => "capture"
  | .transform => "transform"
  | .apply => "apply"
  | .control => "control"

inductive OnErrorStrategy
  | skip | abort | fallback
  deriving DecidableEq

inductive GraphMergePolicy
  | collect | namespace_ | last
  deriving DecidableEq

/-- A condition of a step and the channel that it is read from, when it names one. -/
structure When (V : Type) where
  condition : V
  from_ : Option String := none

structure StepFields (V : Type) where
  id : Option String := none
  type : AdfStepType
  op : String
  params : V
  produces : Option String := none
  dependsOn : Option (List String) := none
  consumes : Option (List String) := none
  when_ : Option (When V) := none
  merge : Option GraphMergePolicy := none

/-- A step and its `on_error`: the strategy, the fallback steps and the reference with its bind. -/
inductive AdfStep (V : Type)
  | mk (fields : StepFields V) (strategy : Option OnErrorStrategy)
      (fallback : Option (List (AdfStep V))) (ref : Option (String × V))

namespace AdfStep

variable {V : Type}

def fields : AdfStep V → StepFields V
  | .mk fields _ _ _ => fields

def strategy : AdfStep V → Option OnErrorStrategy
  | .mk _ strategy _ _ => strategy

def fallback : AdfStep V → Option (List (AdfStep V))
  | .mk _ _ fallback _ => fallback

def ref : AdfStep V → Option (String × V)
  | .mk _ _ _ ref => ref

def type (step : AdfStep V) : AdfStepType :=
  step.fields.type

def op (step : AdfStep V) : String :=
  step.fields.op

/-- `${step.type}:${step.op}` -/
def tool (step : AdfStep V) : String :=
  step.type.text ++ ":" ++ step.op

/-- The step as the node of a graph runs it: without its graph metadata. -/
def plain : AdfStep V → AdfStep V
  | .mk fields strategy fallback ref =>
      .mk { fields with dependsOn := none, consumes := none, when_ := none, merge := none }
        strategy fallback ref

end AdfStep

def LOOP_CONTROL_OPS : List String :=
  ["while", "loop_until", "retry_until_quality", "foreach", "parallel_foreach", "accumulate"]

/-- The op may carry the domain `core:`. -/
def isLoopControlOp (op : String) : Bool :=
  LOOP_CONTROL_OPS.contains <|
    match "core:".toList.isPrefixOf? op.toList with
    | some rest => String.ofList rest
    | none => op

inductive StepStatus
  | success | failed | skipped | recovered
  deriving DecidableEq

structure PipelineStepResult where
  op : String
  status : StepStatus
  error : Option String := none
  deriving DecidableEq

inductive PipelineStatus
  | succeeded | failed
  deriving DecidableEq

def derivePipelineStatus (results : List PipelineStepResult) : PipelineStatus :=
  if results.any fun result => result.status = .failed then .failed else .succeeded

section Governor

structure ToolCallRepeatGovernorState where
  streak : ℕ := 0
  totalCalls : ℕ := 0
  lastSignature : Option String := none
  deriving DecidableEq

/-- `forceStopAt`; the thresholds below it only remind. -/
def FORCE_STOP_AT : ℕ := 12

def buildToolCallSignature (tool args : String) : String :=
  tool ++ "\x00" ++ args

/-- The next state; the last part says whether the run is to be stopped by force. -/
def advanceToolCallRepeatGovernor (state : ToolCallRepeatGovernorState) (tool args : String) :
    ToolCallRepeatGovernorState × Bool :=
  let signature := buildToolCallSignature tool args
  let streak := if state.lastSignature = some signature then state.streak + 1 else 1
  (⟨streak, state.totalCalls + 1, some signature⟩, decide (FORCE_STOP_AT ≤ streak))

def buildToolCallRepeatForceStopMessage (tool : String) (streak : ℕ) : String :=
  "[SAFETY_LIMIT][TOOL_CALL_REPEAT] '" ++ tool ++ "' repeated " ++ toString streak ++
    " times in a row with identical arguments — force-stopping this run (dead-end loop)."

end Governor

section Graph

inductive GraphEdgeKind
  | control | data | when_
  deriving DecidableEq

structure GraphEdge where
  source : String
  target : String
  kind : GraphEdgeKind
  channel : Option String := none
  deriving DecidableEq

structure GraphNode (V : Type) where
  id : String
  value : AdfStep V
  dependencies : List String
  when_ : Option (When V)
  merge : GraphMergePolicy

/-- The errors that stop a pipeline before it runs; a channel without a producer does not. -/
inductive GraphValidationError
  | duplicateId (id : String)
  | idRequiredForDependency (index : ℕ)
  | missingDependency (id dependency : String)
  | cycle
  deriving DecidableEq

def GraphValidationError.message : GraphValidationError → String
  | .duplicateId id => "Duplicate graph node id \"" ++ id ++ "\"."
  | .idRequiredForDependency index =>
      "Step " ++ toString index ++ " declares depends_on and must declare an id."
  | .missingDependency id dependency =>
      "Graph node \"" ++ id ++ "\" depends on unknown node \"" ++ dependency ++ "\"."
  | .cycle => "Pipeline graph contains a cycle."

/-- An edge from a node to itself is kept each time. -/
def addEdge (edges : List GraphEdge) (edge : GraphEdge) : List GraphEdge :=
  if edge.source = edge.target then edges ++ [edge]
  else if edge ∈ edges then edges
  else edges ++ [edge]

variable {V : Type} (exportAs : V → Option String)

/-- `a || b` on a text that may be missing. -/
def truthy (value : Option String) : Option String :=
  value.filter (· ≠ "")

def producedChannel (step : AdfStep V) : Option String :=
  (truthy step.fields.produces).or (truthy (exportAs step.fields.params))

def nodeId (index : ℕ) (step : AdfStep V) : String :=
  (truthy step.fields.id).getD ("__step_" ++ toString index)

/-- The nodes that produce a channel, in their order. -/
def producersOf (ids : List String) (steps : List (AdfStep V)) (channel : String) : List String :=
  (ids.zip steps).filterMap fun (id, step) =>
    if producedChannel exportAs step = some channel then some id else none

def isGraphDeclared (steps : List (AdfStep V)) : Bool :=
  steps.any fun step =>
    step.fields.dependsOn.isSome || step.fields.consumes.isSome || step.fields.when_.isSome

/-- The edges that the step at an index asks for. -/
def stepEdges (ids : List String) (steps : List (AdfStep V)) (index : ℕ) (step : AdfStep V)
    (edges : List GraphEdge) : List GraphEdge :=
  let id := nodeId index step
  let edges := (step.fields.dependsOn.getD []).foldl (fun edges dependency =>
    if dependency ∈ ids then addEdge edges ⟨dependency, id, .control, none⟩ else edges) edges
  let edges := (step.fields.consumes.getD []).foldl (fun edges channel =>
    (producersOf exportAs ids steps channel).foldl (fun edges producer =>
      addEdge edges ⟨producer, id, .data, some channel⟩) edges) edges
  match step.fields.when_ with
  | none => edges
  | some condition =>
      let previous := if 0 < index then ids[index - 1]? else none
      let dependency := (truthy ((step.fields.dependsOn.getD []).head?)).or previous
      let edges := match dependency.filter (· ∈ ids) with
        | some dependency => addEdge edges ⟨dependency, id, .when_, none⟩
        | none => edges
      match condition.from_ with
      | none => edges
      | some channel => (producersOf exportAs ids steps channel).foldl (fun edges producer =>
          addEdge edges ⟨producer, id, .when_, some channel⟩) edges

/-- A node without an incoming edge follows the one before it, unless it declares otherwise. -/
def chainEdges (ids : List String) (steps : List (AdfStep V)) (edges : List GraphEdge) :
    List GraphEdge :=
  let explicit := isGraphDeclared steps
  (ids.zip steps).zipIdx.foldl (fun edges ((id, step), index) =>
    if 0 < index ∧ (edges.any fun edge => edge.target = id) = false ∧
        (explicit = false ∨ step.fields.dependsOn.isNone ∧ step.fields.consumes.isNone) then
      addEdge edges ⟨ids.getD (index - 1) "", id, .control, none⟩
    else edges) edges

/-- The number of nodes that Kahn's algorithm visits. -/
def visitCount (edges : List GraphEdge) : ℕ → List String → (String → ℤ) → ℕ
  | 0, _, _ => 0
  | _, [], _ => 0
  | fuel + 1, current :: queue, remaining =>
      let (remaining, ready) := (edges.filter fun edge => edge.source = current).foldl
        (fun (remaining, ready) edge =>
          let next := remaining edge.target - 1
          ((fun id => if id = edge.target then next else remaining id),
            if next = 0 then ready ++ [edge.target] else ready)) (remaining, [])
      visitCount edges fuel (queue ++ ready) remaining + 1

/-- Each id that already stands before. -/
def duplicateErrors (ids : List String) : List GraphValidationError :=
  ids.zipIdx.filterMap fun (id, index) =>
    if id ∈ ids.take index then some (.duplicateId id) else none

def dependencyErrors (ids : List String) (index : ℕ) (step : AdfStep V) :
    List GraphValidationError :=
  match step.fields.dependsOn with
  | none => []
  | some dependencies =>
      (if (truthy step.fields.id).isNone then [.idRequiredForDependency index] else []) ++
        (dependencies.filter (· ∉ ids)).map (.missingDependency (nodeId index step))

/-- `deriveExecutionGraph` with its errors other than the missing channels. A node is put in the
queue at most once for each edge into it, so the fuel of the visit suffices. -/
def deriveExecutionGraph (steps : List (AdfStep V)) :
    List (GraphNode V) × List GraphValidationError :=
  let ids := steps.zipIdx.map fun (step, index) => nodeId index step
  let declared := steps.zipIdx.foldl (fun edges (step, index) =>
    stepEdges exportAs ids steps index step edges) []
  let edges := chainEdges ids steps declared
  let nodes := (ids.zip steps).map fun (id, step) => {
    id
    value := step
    dependencies := ((edges.filter fun edge => edge.target = id).map (·.source)).eraseDups
    when_ := step.fields.when_
    merge := step.fields.merge.getD .last }
  let remaining (id : String) : ℤ :=
    match nodes.reverse.find? fun node => node.id = id with
    | some node => node.dependencies.length
    | none => 0
  let queue := (nodes.filter fun node => node.dependencies = []).map (·.id)
  let visited := visitCount edges (queue.length + edges.length) queue remaining
  let errors := duplicateErrors ids ++
    steps.zipIdx.flatMap (fun (step, index) => dependencyErrors ids index step) ++
    (if visited = nodes.length then [] else [.cycle])
  (nodes, errors)

end Graph

end Kyberion.Pipeline
