import Kyberion.Pipeline.Step
import Kyberion.Transition
import Mathlib.Algebra.Order.Floor.Ring
import Mathlib.Data.Rat.Floor

/-!
The engine. Every call of `executeAdfStepsInternal` is a run of its own, kept in
a list; a run is suspended wherever the code awaits something. The gates, the
handlers and the hooks answer in the labels of the transitions.
-/

namespace Kyberion.Pipeline

open Transition

inductive ControlFlow
  | suspend | preflight
  deriving DecidableEq

/-- An error and its `adfControlFlow`. -/
structure Err where
  message : String
  controlFlow : Option ControlFlow := none
  deriving DecidableEq

/-- The options of a pipeline, and what the engine asks of its values and contexts. -/
structure Engine (Ctx V Claim : Type) where
  maxSteps : Option ℤ := none
  timeoutMs : Option ℤ := none
  maxConcurrency : Option ℚ := none
  stepGate : Bool
  approvalGranted : Bool := false
  resumeCompletedNodeIds : List String := []
  /-- There is a control handler. -/
  control : Bool := true
  resolveVars : V → Ctx → Except String V
  canonicalize : V → String
  exportAs : V → Option String
  /-- `ctx.__adf_terminal === true` -/
  adfTerminal : Ctx → Bool
  /-- `{ ...ctx, _error: { message, step_id, step_op } }` -/
  withError : Ctx → String → AdfStep V → Ctx
  /-- `resolveRef`; the context is the one that the fallback starts with. -/
  resolveRef : String → V → Ctx → Except String (List (AdfStep V) × Ctx)
  evaluateCondition : V → Ctx → Bool
  mergeContext : GraphMergePolicy → String → Ctx → Ctx → Ctx
  resourceClaims : AdfStep V → Ctx → List Claim
  claimsConflict : Claim → Claim → Bool

def DEFAULT_MAX_PIPELINE_STEPS : ℤ := 1000
def DEFAULT_PIPELINE_TIMEOUT_MS : ℤ := 60000

inductive NodeStatus
  | pending | running | success | failed | skipped
  deriving DecidableEq

def NodeStatus.isTerminal : NodeStatus → Bool
  | .success | .failed | .skipped => true
  | _ => false

/-- The state of a node and how it ended. -/
structure NodeState where
  status : NodeStatus := .pending
  error : Option String := none
  /-- The outcome carries a context. -/
  hasContext : Bool := false

/-- A running node: its run and the claims that it holds. -/
structure Active (Claim : Type) where
  id : String
  run : ℕ
  claims : List Claim

structure GraphState (Ctx V Claim : Type) where
  nodes : List (GraphNode V)
  states : String → NodeState := fun _ => {}
  active : List (Active Claim) := []
  context : Ctx
  /-- The scheduler waits for a node to complete. -/
  racing : Bool := false

structure AdfRunResult (Ctx : Type) where
  status : PipelineStatus
  results : List PipelineStepResult
  context : Ctx

/-- What the hook `afterStep` has been told, when its answer is awaited. -/
inductive Observed
  | success (terminal : Bool)
  | skipped
  | recovered (error : Err)
  | failed
  deriving DecidableEq

/-- Where a run is suspended; a step comes with its number. -/
inductive Phase (Ctx V Claim : Type)
  | ready
  | stopping (step : AdfStep V) (n : ℕ) (error : Err)
  | gating (step : AdfStep V) (n : ℕ)
  | approving (step : AdfStep V) (n : ℕ)
  | preflighting (step : AdfStep V) (n : ℕ)
  | handling (step : AdfStep V) (n : ℕ)
  | recovering (step : AdfStep V) (error : Err) (fallback : ℕ)
  | observing (step : AdfStep V) (observed : Observed)
  | graph (state : GraphState Ctx V Claim)
  | settled (outcome : Except Err (AdfRunResult Ctx))

/-- A call of `executeAdfStepsInternal`; `parent` is the control step that made it. -/
structure Run (Ctx V Claim : Type) where
  parent : Option ℕ := none
  ctx : Ctx
  results : List PipelineStepResult := []
  todo : List (AdfStep V) := []
  phase : Phase Ctx V Claim

inductive BlockedBy
  | repeatGovernor | stepGate | preflight
  deriving DecidableEq

/-- What the steps of a pipeline have come to: handlers that were started, steps that were
blocked. -/
inductive StepEvent
  | started (n : ℕ)
  | blocked (n : ℕ) (by_ : BlockedBy)
  deriving DecidableEq

structure World (Ctx V Claim : Type) where
  runs : List (Run Ctx V Claim)
  stepCount : ℕ := 0
  repeatGovernor : ToolCallRepeatGovernorState := {}
  loopDepth : ℤ := 0
  log : List StepEvent := []

variable {Ctx V Claim : Type}

namespace Run

variable (run : Run Ctx V Claim)

def settle (outcome : Except Err (AdfRunResult Ctx)) : Run Ctx V Claim :=
  { run with phase := .settled outcome }

/-- The end of the loop over the steps. -/
def finish : Run Ctx V Claim :=
  run.settle (.ok ⟨derivePipelineStatus run.results, run.results, run.ctx⟩)

def push (op : String) (status : StepStatus) (error : Option String := none) : Run Ctx V Claim :=
  { run with results := run.results ++ [⟨op, status, error⟩] }

/-- A step has failed for good. -/
def failStep (step : AdfStep V) (error : Err) : Run Ctx V Claim :=
  { run.push step.op .failed (some error.message) with phase := .observing step .failed }

def recoverStep (step : AdfStep V) (error : Err) (ctx : Ctx) : Run Ctx V Claim :=
  { run.push step.op .recovered with ctx, phase := .observing step (.recovered error) }

end Run

namespace World

variable (w : World Ctx V Claim)

def put (r : ℕ) (run : Run Ctx V Claim) : World Ctx V Claim :=
  { w with runs := w.runs.set r run }

def spawn (run : Run Ctx V Claim) : World Ctx V Claim :=
  { w with runs := w.runs ++ [run] }

def record (event : StepEvent) : World Ctx V Claim :=
  { w with log := w.log ++ [event] }

def enterLoop (depth : ℤ) : World Ctx V Claim :=
  { w with loopDepth := w.loopDepth + depth }

end World

variable (engine : Engine Ctx V Claim)

section Graphs

def GraphState.set (state : GraphState Ctx V Claim) (id : String) (node : NodeState) :
    GraphState Ctx V Claim :=
  { state with states := fun other => if other = id then node else state.states other }

/-- What restoring a completed node does. -/
def restore (state : GraphState Ctx V Claim) (id : String) : GraphState Ctx V Claim :=
  match state.nodes.find? fun node => node.id = id with
  | none => state
  | some node =>
      if (state.states id).status = .pending then
        { state.set id ⟨.success, none, true⟩ with
          context := engine.mergeContext
            (if node.merge = .namespace_ then .namespace_ else .last) id state.context
            state.context }
      else state

/-- A call of `executeAdfStepsInternal` up to the first step or the first pass of the scheduler. -/
def openRun (steps : List (AdfStep V)) (ctx : Ctx) (parent : Option ℕ) : Run Ctx V Claim :=
  if 1 < steps.length ∧ (isGraphDeclared steps ∨ 1 < engine.maxConcurrency.getD 1) then
    let (nodes, errors) := deriveExecutionGraph engine.exportAs steps
    if errors ≠ [] then
      let message := "[GRAPH_PREFLIGHT] " ++
        String.intercalate "; " (errors.map GraphValidationError.message)
      { parent, ctx, phase := .settled (.error { message }) }
    else
      let state := engine.resumeCompletedNodeIds.foldl (restore engine) { nodes, context := ctx }
      { parent, ctx, phase := .graph state }
  else { parent, ctx, todo := steps, phase := .ready }

def concurrencyLimit : ℤ :=
  let declared := engine.maxConcurrency.getD 1
  max 1 ⌊if declared = 0 then 1 else declared⌋

/-- What the scheduler does with one node: the next state and the step that is to be run. -/
def visit (state : GraphState Ctx V Claim) (node : GraphNode V) :
    Option (GraphState Ctx V Claim × Option (List Claim)) :=
  let skip (why : String) := state.set node.id ⟨.skipped, some why, false⟩
  if (state.states node.id).status ≠ .pending ∨
      concurrencyLimit engine ≤ state.active.length then none
  else if (node.dependencies.all fun id => (state.states id).status.isTerminal) = false then none
  else if node.dependencies.any fun id =>
      (state.states id).status = .failed || (state.states id).status = .skipped then
    some (skip "blocked by a failed or skipped dependency", none)
  else if node.when_.any fun condition =>
      !engine.evaluateCondition condition.condition state.context then
    some (skip "when condition evaluated to false", none)
  else
    let claims := engine.resourceClaims node.value state.context
    let inUse := state.active.flatMap (·.claims)
    if claims.all fun claim => inUse.all fun other => !engine.claimsConflict claim other then
      some (state.set node.id ⟨.running, none, false⟩, some claims)
    else none

/-- One pass of the scheduler over its nodes: the runs that it opens are the next ones of the
world. -/
def pass (w : World Ctx V Claim) (state : GraphState Ctx V Claim) :
    World Ctx V Claim × GraphState Ctx V Claim × Bool :=
  state.nodes.foldl (fun (w, state, progressed) node =>
    match visit engine state node with
    | none => (w, state, progressed)
    | some (state, none) => (w, state, true)
    | some (state, some claims) =>
        (w.spawn (openRun engine [node.value.plain] state.context none),
          { state with active := state.active ++ [⟨node.id, w.runs.length, claims⟩] }, true))
    (w, state, false)

/-- The results that the outcomes of the nodes give. -/
def graphResults (state : GraphState Ctx V Claim) : List PipelineStepResult :=
  state.nodes.filterMap fun node =>
    match state.states node.id with
    | ⟨.skipped, error, _⟩ => some ⟨node.value.op, .skipped, error⟩
    | ⟨.failed, error, true⟩ => some ⟨node.value.op, .failed, error⟩
    | ⟨.success, error, true⟩ => some ⟨node.value.op, .success, error⟩
    | _ => none

/-- What a node of a graph comes to when its run has settled. -/
def nodeOutcome : Except Err (AdfRunResult Ctx) → NodeState × Option Ctx
  | .error error => (⟨.failed, some error.message, false⟩, none)
  | .ok result =>
      let error := (result.results.find? fun entry => entry.status = .failed).bind (·.error)
      let status := if result.status = .failed then NodeStatus.failed else .success
      (⟨status, error.filter (· ≠ ""), true⟩, some result.context)

def completeNode (state : GraphState Ctx V Claim) (node : Active Claim)
    (outcome : Except Err (AdfRunResult Ctx)) : GraphState Ctx V Claim :=
  let (settled, context) := nodeOutcome outcome
  let merge := (state.nodes.find? fun other => other.id = node.id).elim .last (·.merge)
  { state.set node.id settled with
    active := state.active.filter fun other => other.id ≠ node.id
    context := match context with
      | none => state.context
      | some next => engine.mergeContext merge node.id state.context next
    racing := false }

end Graphs

section Steps

/-- How a gate answers: it lets the step pass, blocks it, or throws. -/
inductive GateVerdict
  | passed
  | blocked (reasons : List String)
  | threw (error : Err)

inductive PreflightDecision
  | allow
  | block (reason : Option String)
  | ask (reason : Option String)
  | threw (error : Err)

/-- What a handler returns: a context, a skipped step with its context, or nothing. -/
inductive HandlerResult (Ctx : Type)
  | context (ctx : Ctx)
  | skipped (ctx : Ctx)
  | nothing

inductive EngineAction (Ctx V : Type)
  | take (r : ℕ) (elapsedMs : ℤ) (before : Option Err)
  | stopped (r : ℕ)
  | gated (r : ℕ) (verdict : GateVerdict)
  | approved (r : ℕ) (threw : Option Err)
  | preflighted (r : ℕ) (decision : PreflightDecision) (before : Option Err)
  | nest (r : ℕ) (steps : List (AdfStep V)) (ctx : Ctx)
  | returned (r : ℕ) (result : HandlerResult Ctx)
  | threw (r : ℕ) (error : Err)
  | recovered (r : ℕ)
  | observed (r : ℕ) (answer : Except Err (Option Ctx))
  | schedule (r : ℕ)
  | complete (r : ℕ) (id : String)

/-- `assertExecutionBounds`, after the step has been counted. -/
def assertExecutionBounds (stepCount : ℕ) (elapsedMs : ℤ) : Except Err Unit :=
  let maxSteps := engine.maxSteps.getD DEFAULT_MAX_PIPELINE_STEPS
  let timeoutMs := engine.timeoutMs.getD DEFAULT_PIPELINE_TIMEOUT_MS
  if maxSteps < stepCount then
    .error { message := "[SAFETY_LIMIT] Exceeded maximum pipeline steps (" ++ toString maxSteps ++
      ")" }
  else if timeoutMs < elapsedMs then
    .error { message := "[SAFETY_LIMIT] Pipeline execution timed out (" ++ toString timeoutMs ++
      "ms)" }
  else .ok ()

/-- The governor's view of a step: parameters that do not resolve are compared as they are. -/
def governStep (w : World Ctx V Claim) (ctx : Ctx) (step : AdfStep V) :
    ToolCallRepeatGovernorState × Bool :=
  let args := (engine.resolveVars step.fields.params ctx).toOption.getD step.fields.params
  advanceToolCallRepeatGovernor w.repeatGovernor step.tool (engine.canonicalize args)

/-- The `catch` of a step. The step recovers, or its fallback starts, or it has failed. -/
def catchError (w : World Ctx V Claim) (r : ℕ) (run : Run Ctx V Claim) (step : AdfStep V)
    (error : Err) : World Ctx V Claim :=
  if error.controlFlow = some .suspend then w.put r (run.settle (.error error))
  else if error.controlFlow = some .preflight then w.put r (run.failStep step error)
  else
    match step.strategy with
    | none | some .abort => w.put r (run.failStep step error)
    | some .skip => w.put r (run.recoverStep step error (engine.withError run.ctx error.message step))
    | some .fallback =>
        let resolved : Except String (List (AdfStep V) × Ctx) := match step.fallback, step.ref with
          | some steps, _ => .ok (steps, run.ctx)
          | none, some (ref, bind) => engine.resolveRef ref bind run.ctx
          | none, none => .error error.message
        match resolved with
        | .error _ => w.put r (run.failStep step error)
        | .ok (steps, ctx) =>
            (w.put r { run with phase := .recovering step error w.runs.length }).spawn
              (openRun engine steps (engine.withError ctx error.message step) none)

/-- From the hook before the step to the start of its handler. -/
def startHandler (w : World Ctx V Claim) (r : ℕ) (run : Run Ctx V Claim) (step : AdfStep V)
    (n : ℕ) (before : Option Err) : World Ctx V Claim :=
  match before with
  | some error => w.put r (run.settle (.error error))
  | none =>
      if step.type = .control ∧ engine.control = false then
        catchError engine w r run step
          { message := "[UNKNOWN_TYPE] Unknown control step op: " ++ step.op }
      else
        ((w.record (.started n)).enterLoop
          (if step.type = .control ∧ isLoopControlOp step.op then 1 else 0)).put r
          { run with phase := .handling step n }

/-- From the step gate to the preflight. -/
def afterGate (w : World Ctx V Claim) (r : ℕ) (run : Run Ctx V Claim) (step : AdfStep V)
    (n : ℕ) : World Ctx V Claim :=
  match engine.resolveVars step.fields.params run.ctx with
  | .error message => w.put r (run.settle (.error { message }))
  | .ok _ =>
      w.put r { run with
        phase := if engine.approvalGranted then .approving step n else .preflighting step n }

/-- The loop of a run takes its next step. -/
def take (w : World Ctx V Claim) (r : ℕ) (run : Run Ctx V Claim) (elapsedMs : ℤ)
    (before : Option Err) : World Ctx V Claim :=
  match run.todo with
  | [] => w.put r run.finish
  | step :: rest =>
      let n := w.stepCount + 1
      let w := { w with stepCount := n }
      let run := { run with todo := rest }
      match assertExecutionBounds engine n elapsedMs with
      | .error error => w.put r (run.settle (.error error))
      | .ok () =>
          if step.type = .control then startHandler engine w r run step n before
          else
            let (governor, stop) := governStep engine w run.ctx step
            let w := { w with repeatGovernor := governor }
            if stop ∧ w.loopDepth = 0 then
              (w.record (.blocked n .repeatGovernor)).put r { run with
                phase := .stopping step n
                  { message := buildToolCallRepeatForceStopMessage step.tool governor.streak } }
            else if engine.stepGate then w.put r { run with phase := .gating step n }
            else afterGate engine w r run step n

def hookBlockedMessage (step : AdfStep V) (reasons : List String) : String :=
  "[SAFETY_LIMIT][HOOK_BLOCKED] " ++ step.tool ++ " blocked by lifecycle hook: " ++
    (if reasons = [] then "no reason given" else String.intercalate "; " reasons)

def preflightError (decision : String) (step : AdfStep V) (reason : Option String) : Err where
  message := "[OP_PREFLIGHT_" ++ decision ++ "] " ++
    (truthy reason).getD ("Operation " ++ step.op ++ " was not admitted.")
  controlFlow := some .preflight

/-- A blocked step ends its run at once. -/
def block (w : World Ctx V Claim) (r : ℕ) (run : Run Ctx V Claim) (n : ℕ) (by_ : BlockedBy)
    (error : Err) : World Ctx V Claim :=
  (w.record (.blocked n by_)).put r (run.settle (.error error))

/-- The nested runs of a control step. -/
def nestedRuns (w : World Ctx V Claim) (n : ℕ) : List (Run Ctx V Claim) :=
  w.runs.filter fun run => run.parent = some n

def Run.isResolved (run : Run Ctx V Claim) : Bool :=
  match run.phase with
  | .settled (.ok _) => true
  | _ => false

def Run.rejection (run : Run Ctx V Claim) : Option Err :=
  match run.phase with
  | .settled (.error error) => some error
  | _ => none

/-- What a step comes to when its handler returns. -/
def handlerReturned (run : Run Ctx V Claim) (step : AdfStep V) :
    HandlerResult Ctx → Option (Run Ctx V Claim)
  | .context ctx =>
      let terminal := step.type = .control && engine.adfTerminal ctx
      some { run.push step.op .success with ctx, phase := .observing step (.success terminal) }
  | .skipped ctx =>
      if step.type = .control ∨ step.type = .apply then
        some { run.push step.op .skipped with ctx, phase := .observing step .skipped }
      else none
  | .nothing =>
      if step.type = .apply then
        some { run.push step.op .success with phase := .observing step (.success false) }
      else none

def leaveLoop (w : World Ctx V Claim) (step : AdfStep V) : World Ctx V Claim :=
  w.enterLoop (if step.type = .control ∧ isLoopControlOp step.op then -1 else 0)

/-- The hook `afterStep` has answered. -/
def afterStep (w : World Ctx V Claim) (r : ℕ) (run : Run Ctx V Claim) (step : AdfStep V)
    (observed : Observed) : Except Err (Option Ctx) → World Ctx V Claim
  | .ok answer =>
      let run := { run with ctx := answer.getD run.ctx }
      match observed with
      | .success true | .failed => w.put r run.finish
      | .success false | .skipped | .recovered _ => w.put r { run with phase := .ready }
  | .error error =>
      match observed with
      | .success _ | .skipped => catchError engine w r run step error
      | .recovered original => w.put r (run.failStep step original)
      | .failed => w.put r (run.settle (.error error))

/-- The fallback of a step has settled. -/
def afterFallback (w : World Ctx V Claim) (r : ℕ) (run : Run Ctx V Claim) (step : AdfStep V)
    (error : Err) : Except Err (AdfRunResult Ctx) → World Ctx V Claim
  | .error _ => w.put r (run.failStep step error)
  | .ok result =>
      if result.status = .failed then w.put r (run.failStep step error)
      else w.put r (run.recoverStep step error result.context)

/-- The head of the scheduler's loop: it is done, opens runs, or gives up. -/
def schedule (w : World Ctx V Claim) (r : ℕ) (run : Run Ctx V Claim)
    (state : GraphState Ctx V Claim) : World Ctx V Claim :=
  if state.nodes.all fun node => (state.states node.id).status.isTerminal then
    let results := graphResults state
    w.put r (run.settle (.ok ⟨derivePipelineStatus results, results, state.context⟩))
  else
    let (w, state, progressed) := pass engine w state
    if state.active = [] then
      if progressed then w.put r { run with phase := .graph state }
      else w.put r (run.settle (.error
        { message := "Graph scheduler deadlock: no ready node and no active node." }))
    else w.put r { run with phase := .graph { state with racing := true } }

/-- The node of a graph has settled; only a suspension goes through. -/
def afterNode (w : World Ctx V Claim) (r : ℕ) (run : Run Ctx V Claim)
    (state : GraphState Ctx V Claim) (node : Active Claim)
    (outcome : Except Err (AdfRunResult Ctx)) : World Ctx V Claim :=
  match outcome with
  | .error ⟨message, some .suspend⟩ => w.put r (run.settle (.error ⟨message, some .suspend⟩))
  | outcome => w.put r { run with phase := .graph (completeNode engine state node outcome) }

def settledOutcome (w : World Ctx V Claim) (r : ℕ) : Option (Except Err (AdfRunResult Ctx)) :=
  match w.runs[r]? with
  | some { phase := .settled outcome, .. } => some outcome
  | _ => none

/-- A control handler waits for its nested runs and passes on their errors. -/
def pipelineStep (w : World Ctx V Claim) (action : EngineAction Ctx V) :
    Option (World Ctx V Claim) :=
  match action with
  | .take r elapsedMs before =>
      match w.runs[r]? with
      | some run =>
          match run.phase with
          | .ready => some (take engine w r run elapsedMs before)
          | _ => none
      | none => none
  | .stopped r =>
      match w.runs[r]? with
      | some run =>
          match run.phase with
          | .stopping _ _ error => some (w.put r (run.settle (.error error)))
          | _ => none
      | none => none
  | .gated r verdict =>
      match w.runs[r]? with
      | some run =>
          match run.phase, verdict with
          | .gating step n, .passed => some (afterGate engine w r run step n)
          | .gating step n, .blocked reasons =>
              some (block w r run n .stepGate { message := hookBlockedMessage step reasons })
          | .gating _ _, .threw error => some (w.put r (run.settle (.error error)))
          | _, _ => none
      | none => none
  | .approved r threw =>
      match w.runs[r]? with
      | some run =>
          match run.phase, threw with
          | .approving step n, none => some (w.put r { run with phase := .preflighting step n })
          | .approving _ _, some error => some (w.put r (run.settle (.error error)))
          | _, _ => none
      | none => none
  | .preflighted r decision before =>
      match w.runs[r]? with
      | some run =>
          match run.phase, decision with
          | .preflighting step n, .allow => some (startHandler engine w r run step n before)
          | .preflighting step n, .block reason =>
              some (block w r run n .preflight (preflightError "BLOCK" step reason))
          | .preflighting step n, .ask reason =>
              some (block w r run n .preflight (preflightError "ASK" step reason))
          | .preflighting _ _, .threw error => some (w.put r (run.settle (.error error)))
          | _, _ => none
      | none => none
  | .nest r steps ctx =>
      match w.runs[r]? with
      | some run =>
          match run.phase with
          | .handling step n =>
              if step.type = .control then some (w.spawn (openRun engine steps ctx (some n)))
              else none
          | _ => none
      | none => none
  | .returned r result =>
      match w.runs[r]? with
      | some run =>
          match run.phase with
          | .handling step n =>
              if (nestedRuns w n).all Run.isResolved then
                (handlerReturned engine run step result).map fun run =>
                  (leaveLoop w step).put r run
              else none
          | _ => none
      | none => none
  | .threw r error =>
      match w.runs[r]? with
      | some run =>
          match run.phase with
          | .handling step n =>
              let rejections := (nestedRuns w n).filterMap Run.rejection
              if rejections = [] ∨ error ∈ rejections then
                some (catchError engine (leaveLoop w step) r run step error)
              else none
          | _ => none
      | none => none
  | .recovered r =>
      match w.runs[r]? with
      | some run =>
          match run.phase with
          | .recovering step error fallback =>
              (settledOutcome w fallback).map (afterFallback w r run step error)
          | _ => none
      | none => none
  | .observed r answer =>
      match w.runs[r]? with
      | some run =>
          match run.phase with
          | .observing step observed => some (afterStep engine w r run step observed answer)
          | _ => none
      | none => none
  | .schedule r =>
      match w.runs[r]? with
      | some run =>
          match run.phase with
          | .graph state => if state.racing then none else some (schedule engine w r run state)
          | _ => none
      | none => none
  | .complete r id =>
      match w.runs[r]? with
      | some run =>
          match run.phase with
          | .graph state =>
              match state.active.find? fun node => node.id = id with
              | some node =>
                  if state.racing then
                    (settledOutcome w node.run).map (afterNode engine w r run state node)
                  else none
              | none => none
          | _ => none
      | none => none

/-- `executeAdfSteps` -/
def executeAdfSteps : System (World Ctx V Claim) (EngineAction Ctx V) where
  init w := ∃ steps ctx, w = { runs := [openRun engine steps ctx none] }
  step := pipelineStep engine

end Steps

end Kyberion.Pipeline
