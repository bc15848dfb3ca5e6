import Kyberion.Pipeline.Step
import Kyberion.Workforce.Goal

/-!
One call of `runGoalDrivenLoop`. A step is what happens between two awaits: the environment answers
with the result of a model call, a tool, a hook or an operator, or cancels the wait. An operator who
drives the loop by hand executes the plan that the driver has cached, also when nobody waits for it.
-/

namespace Kyberion.Workforce

open Js
open Kyberion.Pipeline (ToolCallRepeatGovernorState advanceToolCallRepeatGovernor)

structure ToolCall where
  name : String
  input : Json

structure GenerateWithToolsResult where
  text : Option String := none
  toolCalls : List ToolCall := []

inductive ExecutionMode
  | bounded | continuous
  deriving DecidableEq

structure RunGoalDrivenLoopOptions where
  params : CreateGoalParams
  executionMode : ExecutionMode := .bounded
  /-- `some none` is `Infinity`. -/
  maxTurns : Option (Option ℚ) := none
  hasPreStep : Bool := false
  hasToolSearch : Bool := false
  hasExecuteTool : Bool := true
  /-- A manual drive in a mode other than `auto`. -/
  manualDrive : Bool := false
  forceStopAt : ℕ := Pipeline.FORCE_STOP_AT
  blockedPersistTurns : Option ℚ := none
  /-- An abort signal is given. -/
  signal : Bool := false
  resumeFrom : Option GoalRuntimeState := none
  resume : Bool := false

def DEFAULT_MAX_TURNS : ℚ := 100

/-- `none` is `Infinity`; a continuous goal without admission per step is refused. -/
def goalTurnLimit (options : RunGoalDrivenLoopOptions) : Except String (Option ℚ) :=
  if options.executionMode = .continuous ∧ options.hasPreStep = false then
    .error "[GOAL_CONTINUOUS_ADMISSION_REQUIRED] Continuous goals require per-step admission"
  else .ok (options.maxTurns.getD
    (if options.executionMode = .continuous then none else some DEFAULT_MAX_TURNS))

/-- The statuses with which a manual drive keeps an action back. -/
inductive AdmissionStatus
  | awaitingApproval | blocked | failed | idle
  deriving DecidableEq

def AdmissionStatus.text : AdmissionStatus → String
  | .awaitingApproval => "awaiting_approval"
  | .blocked => "blocked"
  | .failed => "failed"
  | .idle => "idle"

inductive GoalToolCallStatus
  | ok | error | refused
  deriving DecidableEq

/-- The turn of a call and its place among the calls of the turn. -/
abbrev CallKey := ℚ × ℕ

/-- Results of model turns, grace steps and the calls proposed in them, invocations of `executeTool`,
audit records and applied signals. -/
inductive GoalEvent
  | modelTurn (turn : ℚ)
  | graceStep (turn : ℚ)
  | graceCall (key : CallKey) (call : ToolCall)
  | executed (key : CallKey) (call : ToolCall)
  | audited (key : CallKey) (call : ToolCall) (status : GoalToolCallStatus) (reason : Option String)
  /-- A signal and the state of the goal after it. -/
  | applied (signal : GoalUpdateSignal) (state : GoalState)

/-- The calls of a turn from an index on, and the last valid signal so far. -/
structure ToolLoop where
  result : GenerateWithToolsResult
  index : ℕ := 0
  rest : List ToolCall
  signal : Option GoalUpdateSignal := none

/-- The calls behind the one that has been handled. -/
def ToolLoop.next (loop : ToolLoop) (signal : Option GoalUpdateSignal) : ToolLoop :=
  { loop with index := loop.index + 1, rest := loop.rest.tail, signal }

/-- A tool that the loop waits for. -/
structure ToolRequest extends ToolLoop where
  call : ToolCall
  invoked : Bool := false

inductive DriverPhase
  /-- The hooks that admit a turn. -/
  | admission
  /-- Up to the result of the model call of the turn. -/
  | turn
  | tools (loop : ToolLoop)
  | request (request : ToolRequest)
  /-- The model call of the grace step. -/
  | grace (reason : String) (report : Option String)
  /-- `shouldStopAfterTurn` -/
  | yield_
  | returned
  | thrown

structure GoalDriver where
  goal : GoalRuntimeState
  /-- `budgetLimits` -/
  budget : Option GoalBudget
  maxTurns : Option ℚ
  govState : ToolCallRepeatGovernorState := {}
  graceStepUsed : Bool := false
  finalReport : Option String := none
  turnsRun : ℕ := 0
  phase : DriverPhase := .admission
  /-- `pendingPlan` of the manual driver. -/
  plan : Option (CallKey × ToolCall) := none
  log : List GoalEvent := []

/-- What the runtime has of its own: case mapping, the printed form of numbers and inputs. -/
structure GoalHost where
  toLowerCase : String → String
  numberText : ℚ → String
  canonicalArgs : Json → String

/-- How a call of one of the loop's own tools ends; an exception finds the signal aborted or not. -/
inductive ToolAnswer
  | done
  | refused (reason : String)
  | threw (code : String) (aborted : Bool)

inductive ApprovalDecision
  | approved | pending | denied
  deriving DecidableEq

/-- What happens next. An exception is thrown while the signal is aborted, or not. -/
inductive DriverAction
  | admitted
  | preStepRejected (reason : String)
  | admissionBlocked (status : AdmissionStatus)
  | deadline
  | modelReturned (result : GenerateWithToolsResult) (tokens elapsedMs : ℚ)
  /-- The model has returned, and the lookup of its deferred tools throws. -/
  | referencesFailed (aborted : Bool)
  | call (answer : ToolAnswer)
  | invoke
  | toolReturned (status : Option AdmissionStatus) (madeProgress : Bool) (cyclePeriod : Option ℕ)
  | toolFailed (code : String) (aborted : Bool)
  | peek
  | drive (decision : ApprovalDecision)
  | driveIdle
  | graceReturned (result : GenerateWithToolsResult)
  | yielded (stop : Bool)
  | failed (aborted : Bool)

namespace GoalDriver

variable (d : GoalDriver) (host : GoalHost) (options : RunGoalDrivenLoopOptions) (ts : String)

/-- The number of the turn that is running. -/
def turnNumber : ℚ :=
  d.goal.turnCount + 1

def emit (event : GoalEvent) : GoalDriver :=
  { d with log := d.log ++ [event] }

/-- The loop has ended: a goal that is still active has reached the bound. -/
def finish : GoalDriver :=
  { d with
    phase := .returned
    goal := pauseGoal d.goal ts ("max turns reached (" ++
      (d.maxTurns.map host.numberText).getD "Infinity" ++ ")") }

/-- The condition of the loop. -/
def nextTurn : GoalDriver :=
  if d.goal.state = .active ∧ d.maxTurns.all (d.goal.turnCount < ·) then
    { d with phase := .admission }
  else d.finish host ts

/-- A technical stop that leaves the loop. -/
def pause (reason : String) : GoalDriver :=
  { d with phase := .returned, goal := pauseGoal d.goal ts reason }

/-- An exception: the run throws it unless its signal is aborted. -/
def raise (aborted : Bool) : GoalDriver :=
  if options.signal ∧ aborted then
    d.pause ts "cancellation requested; in-flight outcome requires reconciliation"
  else { d with phase := .thrown }

def recordToolCall (index : ℕ) (call : ToolCall) (status : GoalToolCallStatus)
    (reason : Option String := none) : GoalDriver :=
  d.emit (.audited (d.turnNumber, index) call status reason)

def forceStop (tool : String) : GoalDriver :=
  d.pause ts ("tool-call repeat governor force-stop on '" ++ tool ++ "'")

section Settling

/-- A used-up budget blocks the goal with its report. -/
def blockOnBudget (reason : String) (report : Option String) : GoalDriver :=
  ({ d with goal := blockGoalOnBudget d.goal ts reason, finalReport := report }).finish host ts

/-- `result.text?.trim() || undefined` -/
def reportOf (result : GenerateWithToolsResult) : Option String :=
  (result.text.map trim).filter (· ≠ "")

/-- `maybeTerminateOnBudget` up to the model call of the grace step. -/
def maybeTerminateOnBudget (result : GenerateWithToolsResult) : GoalDriver :=
  match d.budget.bind fun budget =>
      checkGoalBudgetReached host.numberText (some budget) d.goal.budgetStats with
  | none => { d with phase := .yield_ }
  | some reason =>
      if result.toolCalls ≠ [] ∧ d.graceStepUsed = false then
        { d.emit (.graceStep d.turnNumber) with
          graceStepUsed := true
          turnsRun := d.turnsRun + 1
          phase := .grace reason (reportOf result) }
      else d.blockOnBudget host ts reason (reportOf result)

/-- The end of a turn: its signal is applied, a turn without one continues. -/
def settle (result : GenerateWithToolsResult) (signal : Option GoalUpdateSignal) : GoalDriver :=
  let signal := signal.getD { status := .continue_ }
  let outcome := applyGoalUpdate d.goal ts host.toLowerCase signal options.blockedPersistTurns
  let d := { d.emit (.applied signal outcome.state.state) with goal := outcome.state }
  match outcome.kind with
  | .complete | .blocked => d.finish host ts
  | .blockedRejected | .continue_ =>
      ({ d with goal := incrementGoalTurn d.goal ts }).maybeTerminateOnBudget host ts result

/-- The next call of the turn, or its end. -/
def continueTools (loop : ToolLoop) : GoalDriver :=
  match loop.rest with
  | [] => d.settle host options ts loop.result loop.signal
  | _ :: _ => { d with phase := .tools loop }

end Settling

section Tools

/-- An answer to a tool of the loop itself. -/
def answered (loop : ToolLoop) (call : ToolCall) : ToolAnswer → GoalDriver
  | .done => (d.recordToolCall loop.index call .ok).continueTools host options ts
      (loop.next loop.signal)
  | .refused reason =>
      (d.recordToolCall loop.index call .refused (some reason)).continueTools host options ts
        (loop.next loop.signal)
  | .threw code aborted =>
      (d.recordToolCall loop.index call .error (some code)).raise options ts aborted

/-- One round over the calls up to an invocation of `executeTool`. -/
def handleCall (loop : ToolLoop) (call : ToolCall) (answer : ToolAnswer) : GoalDriver :=
  let govState := (advanceToolCallRepeatGovernor d.govState call.name
    (host.canonicalArgs call.input)).1
  let d := { d with govState }
  if options.forceStopAt ≤ govState.streak then
    (d.recordToolCall loop.index call .refused (some "repeat_governor_force_stop")).forceStop ts
      call.name
  else if call.name = GOAL_UPDATE_TOOL_NAME then
    match parseGoalUpdateSignal call.input with
    | some signal => (d.recordToolCall loop.index call .ok).continueTools host options ts
        (loop.next (some signal))
    | none => d.answered host options ts loop call (.refused "invalid_goal_update")
  else if call.name = "context_rewind" then d.answered host options ts loop call answer
  else if call.name = "tool_search" ∧ options.hasToolSearch then
    d.answered host options ts loop call answer
  else if options.hasExecuteTool then
    { d with phase := .request { loop with call } }
  else d.answered host options ts loop call (.refused "no_executor")

def invokeTool (request : ToolRequest) : GoalDriver :=
  { d.emit (.executed (d.turnNumber, request.index) request.call) with
    phase := .request { request with invoked := true } }

/-- The manual drive keeps a tool back, or a result says so. -/
def holdTool (request : ToolRequest) (status : AdmissionStatus) : GoalDriver :=
  (d.recordToolCall request.index request.call .refused
    (some ("manual_drive_" ++ status.text))).pause ts
      ("manual drive " ++ status.text ++ " before tool " ++ request.call.name)

def toolReturned (request : ToolRequest) (status : Option AdmissionStatus) (madeProgress : Bool)
    (cyclePeriod : Option ℕ) : GoalDriver :=
  match status with
  | some status => d.holdTool ts request status
  | none =>
      let d := if madeProgress then
          { d with govState := { d.govState with streak := 0, lastSignature := none } }
        else d
      match cyclePeriod with
      | some period =>
          (d.recordToolCall request.index request.call .ok (some "result_cycle_force_stop")).forceStop
            ts (request.call.name ++ " (result cycle period " ++ toString period ++ ")")
      | none => d.answered host options ts request.toToolLoop request.call .done

/-- The plan of the request that the controller has open. -/
def openPlan : Option (CallKey × ToolCall) :=
  match d.phase with
  | .request request =>
      if request.invoked then none else some ((d.turnNumber, request.index), request.call)
  | _ => none

/-- A tool is in flight; the driver refuses a second execution. -/
def executing : Bool :=
  match d.phase with
  | .request request => request.invoked
  | _ => false

/-- The operator executes the cached plan; the loop gets an answer only while it waits for one. -/
def driveTool (plan : CallKey × ToolCall) (decision : ApprovalDecision) : GoalDriver :=
  match d.phase, decision with
  | .request request, .approved => { d.invokeTool request with plan := none }
  | .request request, .pending => d.holdTool ts request .awaitingApproval
  | .request request, .denied => d.holdTool ts request .blocked
  | _, .approved => { d.emit (.executed plan.1 plan.2) with plan := none }
  | _, _ => d

/-- Every call of a grace step is refused. -/
def refuseGraceCalls (calls : List ToolCall) : GoalDriver :=
  { d with log := d.log ++ calls.zipIdx.flatMap fun (call, index) =>
      [.graceCall (d.turnNumber, index) call,
        .audited (d.turnNumber, index) call .refused (some "grace_step_rejected")] }

end Tools

section Steps

/-- The turn has the result of its model call. -/
def modelReturned (result : GenerateWithToolsResult) (tokens elapsedMs : ℚ) : GoalDriver :=
  ({ d.emit (.modelTurn d.turnNumber) with
    goal := if d.budget.isSome then accrueGoalBudgetUsage d.goal tokens 1 elapsedMs else d.goal }
  ).continueTools host options ts { result, rest := result.toolCalls }

def graceReturned (reason : String) (report : Option String) (result : GenerateWithToolsResult) :
    GoalDriver :=
  (d.refuseGraceCalls result.toolCalls).blockOnBudget host ts reason ((reportOf result).or report)

def yielded (stop : Bool) : GoalDriver :=
  if stop then
    d.pause ts ("cooperative yield requested after turn " ++ host.numberText d.goal.turnCount)
  else d.nextTurn host ts

def deadlineReason (wallClockBudgetMs : ℚ) : String :=
  "goal budget reached: wall-clock budget " ++ host.numberText wallClockBudgetMs ++ "ms"

/-- A step between two awaits; the operator may also act when the run is over. -/
def step (action : DriverAction) : Option GoalDriver :=
  match action, d.phase with
  | .admitted, .admission => some { d with turnsRun := d.turnsRun + 1, phase := .turn }
  | .preStepRejected reason, .admission =>
      if options.hasPreStep then
        some (d.pause ts ("pre-step admission rejected: " ++
          if isBlank reason then "pre-step admission rejected" else trim reason))
      else none
  | .admissionBlocked status, .turn =>
      if options.manualDrive then
        some (d.pause ts ("manual drive " ++ status.text ++ " before goal turn " ++
          host.numberText d.turnNumber))
      else none
  | .deadline, .turn =>
      (d.budget.bind (·.wallClockBudgetMs)).map fun wallClockBudgetMs =>
        d.blockOnBudget host ts (deadlineReason host wallClockBudgetMs) none
  | .modelReturned result tokens elapsedMs, .turn =>
      some (d.modelReturned host options ts result tokens elapsedMs)
  | .referencesFailed aborted, .turn =>
      if options.hasToolSearch then
        some ((d.emit (.modelTurn d.turnNumber)).raise options ts aborted)
      else none
  | .call answer, .tools loop =>
      loop.rest.head?.map fun call => d.handleCall host options ts loop call answer
  | .invoke, .request request =>
      if options.manualDrive ∨ request.invoked then none else some (d.invokeTool request)
  | .toolReturned status madeProgress cyclePeriod, .request request =>
      if request.invoked then
        some (d.toolReturned host options ts request status madeProgress cyclePeriod)
      else none
  | .toolFailed code aborted, .request request =>
      -- a tool that has not been invoked can only be cancelled
      if request.invoked ∨ (options.signal ∧ aborted) then
        some (d.answered host options ts request.toToolLoop request.call (.threw code aborted))
      else none
  | .driveIdle, .request request =>
      if options.manualDrive ∧ request.invoked = false ∧ d.plan = none then
        some (d.holdTool ts request .idle)
      else none
  | .peek, _ =>
      if options.manualDrive ∧ d.plan = none then
        d.openPlan.map fun plan => { d with plan := some plan }
      else none
  | .drive decision, _ =>
      if d.executing then none else d.plan.map fun plan => d.driveTool ts plan decision
  | .graceReturned result, .grace reason report =>
      some (d.graceReturned host ts reason report result)
  | .yielded stop, .yield_ => some (d.yielded host ts stop)
  | .failed aborted, .admission | .failed aborted, .turn | .failed aborted, .grace _ _
  | .failed aborted, .yield_ => some (d.raise options ts aborted)
  | _, _ => none

end Steps

end GoalDriver

section Start

variable (host : GoalHost) (options : RunGoalDrivenLoopOptions) (ts : String)

/-- The goal of a run: a new one, or the record it resumes from. -/
def startGoal : GoalRuntimeState :=
  match options.resumeFrom with
  | some record =>
      let goal := demoteActiveOnResume record ts
      if goal.state = .paused ∧ options.resume then resumeGoal goal ts else goal
  | none => createGoal ts options.params

/-- `runGoalDrivenLoop` up to its first await; a goal that is not resumed is returned at once. -/
def runGoalDrivenLoop : Except String GoalDriver := do
  let maxTurns ← goalTurnLimit options
  let goal := startGoal options ts
  if goal.state ≠ .active then
    return { goal, budget := goal.budget, maxTurns, phase := .returned }
  let goal := { goal with budget := options.params.budget.or goal.budget }
  return ({ goal, budget := goal.budget, maxTurns } : GoalDriver).nextTurn host ts

end Start

end Kyberion.Workforce
