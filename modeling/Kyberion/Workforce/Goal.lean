import Kyberion.Js.Json
import Kyberion.Js.Text
import Kyberion.Workforce.StateJournal

/-!
The goal of a worker as a state machine: the structured signal that ends it, technical and business
stops, and its opt-in budgets.
-/

namespace Kyberion.Workforce

open Js

/-- Consecutive goal turns a non-trivial blocker must recur before `blocked`. -/
def GOAL_BLOCKED_PERSIST_TURNS : ℚ := 3

def GOAL_UPDATE_TOOL_NAME : String := "goal_update"

inductive GoalUpdateStatus
  | continue_ | complete | blocked
  deriving DecidableEq

structure GoalUpdateSignal where
  status : GoalUpdateStatus
  reason : Option String := none
  impossible : Bool := false
  deriving DecidableEq

def readGoalUpdateStatus : Option Json → Option GoalUpdateStatus
  | some (.str status) =>
      if status = "continue" then some .continue_
      else if status = "complete" then some .complete
      else if status = "blocked" then some .blocked
      else none
  | _ => none

/-- The signal of a `goal:update` input, when it carries a structured status. -/
def parseGoalUpdateSignal : Json → Option GoalUpdateSignal
  | .obj fields =>
      (readGoalUpdateStatus (fields.lookup "status")).map fun status => {
        status
        reason := match fields.lookup "reason" with
          | some (.str reason) => if isBlank reason then none else some (trim reason)
          | _ => none
        impossible := match fields.lookup "impossible" with
          | some (.bool impossible) => impossible
          | _ => false }
  | _ => none

section Transitions

variable (goal : GoalRuntimeState) (ts : String)

structure CreateGoalParams where
  goalId : String
  objective : String
  missionId : Option String := none
  budget : Option GoalBudget := none

def createGoal (params : CreateGoalParams) : GoalRuntimeState where
  goalId := params.goalId
  objective := params.objective
  state := .active
  turnCount := 0
  blockedStreak := 0
  missionId := params.missionId
  createdAt := ts
  updatedAt := ts
  budget := params.budget

/-- `s.replace(/\s+/g, ' ')` -/
def collapseWhiteSpace : List Char → List Char
  | [] => []
  | c :: cs =>
      if isWhiteSpace c then
        match collapseWhiteSpace cs with
        | ' ' :: rest => ' ' :: rest
        | rest => ' ' :: rest
      else c :: collapseWhiteSpace cs

variable (toLowerCase : String → String)

/-- A blocker reason as it is compared from turn to turn. -/
def blockerSignature (reason : Option String) : String :=
  let normalized := String.ofList
    (collapseWhiteSpace (toLowerCase (trim (reason.getD ""))).toList)
  if normalized = "" then "unspecified" else normalized

inductive GoalUpdateOutcomeKind
  | continue_ | complete | blocked | blockedRejected
  deriving DecidableEq

/-- The goal has been ended by the signal. -/
def GoalUpdateOutcomeKind.ended : GoalUpdateOutcomeKind → Bool
  | .complete | .blocked => true
  | .continue_ | .blockedRejected => false

structure GoalUpdateOutcome where
  kind : GoalUpdateOutcomeKind
  state : GoalRuntimeState
  blockedStreak : ℚ
  blockedThreshold : ℚ

/-- A blocked signal without the impossible mark: the same blocker must recur for the threshold. -/
def applyBlocker (signal : GoalUpdateSignal) (threshold : ℚ) : GoalUpdateOutcome :=
  let signature := blockerSignature toLowerCase signal.reason
  let streak := if goal.pendingBlockerSignature = some signature then goal.blockedStreak + 1 else 1
  if threshold ≤ streak then
    ⟨.blocked, { goal with
      state := .blocked
      terminalKind := some .business
      terminalReason := some (signal.reason.getD "blocker persisted across goal turns")
      blockedStreak := streak
      pendingBlockerSignature := some signature
      updatedAt := ts }, streak, threshold⟩
  else
    ⟨.blockedRejected, { goal with
      blockedStreak := streak
      pendingBlockerSignature := some signature
      updatedAt := ts }, streak, threshold⟩

/-- One structured `goal:update`; a goal that is not active is left as it is. -/
def applyGoalUpdate (signal : GoalUpdateSignal) (blockedPersistTurns : Option ℚ := none) :
    GoalUpdateOutcome :=
  let threshold := blockedPersistTurns.getD GOAL_BLOCKED_PERSIST_TURNS
  if goal.state ≠ .active then ⟨.continue_, goal, goal.blockedStreak, threshold⟩
  else
    match signal.status with
    | .continue_ => ⟨.continue_, { goal with
        blockedStreak := 0, pendingBlockerSignature := none, updatedAt := ts }, 0, threshold⟩
    | .complete => ⟨.complete, { goal with
        state := .complete
        terminalKind := none
        terminalReason := signal.reason
        blockedStreak := 0
        pendingBlockerSignature := none
        updatedAt := ts }, 0, threshold⟩
    | .blocked =>
        if signal.impossible then
          ⟨.blocked, { goal with
            state := .blocked
            terminalKind := some .business
            terminalReason := some
              (signal.reason.getD "objective intrinsically impossible as stated")
            updatedAt := ts }, goal.blockedStreak, threshold⟩
        else applyBlocker goal ts toLowerCase signal threshold

def incrementGoalTurn : GoalRuntimeState :=
  { goal with turnCount := goal.turnCount + 1, updatedAt := ts }

/-- An active goal stops with a reason. -/
def stopGoal (state : GoalState) (kind : GoalTerminalKind) (reason : String) : GoalRuntimeState :=
  if goal.state ≠ .active then goal
  else { goal with
    state, terminalKind := some kind, terminalReason := some reason, updatedAt := ts }

/-- Technical stop. -/
def pauseGoal (reason : String) : GoalRuntimeState :=
  stopGoal goal ts .paused .technical reason

/-- After a restart the turn of the old process is no longer alive. -/
def demoteActiveOnResume : GoalRuntimeState :=
  stopGoal goal ts .paused .technical "process resumed: prior turn is no longer alive"

def resumeGoal : GoalRuntimeState :=
  if goal.state ≠ .paused then goal
  else { goal with
    state := .active, terminalKind := none, terminalReason := none, updatedAt := ts }

/-- Business stop: a budget is used up. -/
def blockGoalOnBudget (reason : String) : GoalRuntimeState :=
  stopGoal goal ts .blocked .business reason

/-- A completed goal is never persisted. -/
def serializeGoalStateForPersistence : Option GoalRuntimeState :=
  if goal.state = .complete then none else some goal

def restoreGoalState : GoalRuntimeState :=
  demoteActiveOnResume goal ts

end Transitions

section Budget

def createGoalBudgetStats : GoalBudgetStats :=
  ⟨0, 0, 0⟩

variable (numberText : ℚ → String)

/-- The first dimension of a budget that is used up, as the reason names it. -/
def checkGoalBudgetReached (budget : Option GoalBudget) (stats : Option GoalBudgetStats) :
    Option String :=
  budget.bind fun budget =>
    let stats := stats.getD createGoalBudgetStats
    let reached (limit : Option ℚ) (used : ℚ) (reason : String → String) : Option String :=
      limit.bind fun limit => if limit ≤ used then some (reason (numberText limit)) else none
    (reached budget.tokenBudget stats.tokensUsed
      fun limit => "goal budget reached: token budget " ++ limit).or <|
    (reached budget.turnBudget stats.turnsUsed
      fun limit => "goal budget reached: turn budget " ++ limit).or <|
    reached budget.wallClockBudgetMs stats.wallClockMsUsed
      fun limit => "goal budget reached: wall-clock budget " ++ limit ++ "ms"

/-- Usage accrues while the goal is active. -/
def accrueGoalBudgetUsage (goal : GoalRuntimeState) (tokens turns wallClockMs : ℚ) :
    GoalRuntimeState :=
  if goal.state ≠ .active then goal
  else
    let prev := goal.budgetStats.getD createGoalBudgetStats
    { goal with budgetStats := some {
        tokensUsed := prev.tokensUsed + tokens
        turnsUsed := prev.turnsUsed + turns
        wallClockMsUsed := prev.wallClockMsUsed + wallClockMs } }

end Budget

section Goals

variable {goal : GoalRuntimeState} {ts : String} {toLowerCase : String → String}

@[simp] theorem stopGoal_budget {state : GoalState} {kind : GoalTerminalKind} {reason : String} :
    (stopGoal goal ts state kind reason).budget = goal.budget := by
  unfold stopGoal
  split <;> rfl

@[simp] theorem stopGoal_budgetStats {state : GoalState} {kind : GoalTerminalKind}
    {reason : String} : (stopGoal goal ts state kind reason).budgetStats = goal.budgetStats := by
  unfold stopGoal
  split <;> rfl

theorem stopGoal_state_of_active {state : GoalState} {kind : GoalTerminalKind} {reason : String}
    (h : goal.state = .active) : (stopGoal goal ts state kind reason).state = state := by
  simp [stopGoal, h]

theorem stopGoal_of_not_active {state : GoalState} {kind : GoalTerminalKind} {reason : String}
    (h : goal.state ≠ .active) : stopGoal goal ts state kind reason = goal :=
  if_pos h

@[simp] theorem accrueGoalBudgetUsage_turnCount {tokens turns wallClockMs : ℚ} :
    (accrueGoalBudgetUsage goal tokens turns wallClockMs).turnCount = goal.turnCount := by
  unfold accrueGoalBudgetUsage
  split <;> rfl

@[simp] theorem accrueGoalBudgetUsage_state {tokens turns wallClockMs : ℚ} :
    (accrueGoalBudgetUsage goal tokens turns wallClockMs).state = goal.state := by
  unfold accrueGoalBudgetUsage
  split <;> rfl

variable (goal ts toLowerCase) in
theorem applyGoalUpdate_budgets (signal : GoalUpdateSignal) (threshold : Option ℚ) :
    (applyGoalUpdate goal ts toLowerCase signal threshold).state.budget = goal.budget ∧
      (applyGoalUpdate goal ts toLowerCase signal threshold).state.budgetStats =
        goal.budgetStats := by
  unfold applyGoalUpdate applyBlocker
  dsimp only
  repeat' split
  all_goals exact ⟨rfl, rfl⟩

variable (goal ts toLowerCase) in
theorem applyGoalUpdate_turnCount (signal : GoalUpdateSignal) (threshold : Option ℚ) :
    (applyGoalUpdate goal ts toLowerCase signal threshold).state.turnCount = goal.turnCount := by
  unfold applyGoalUpdate applyBlocker
  dsimp only
  repeat' split
  all_goals rfl

variable (ts toLowerCase)

/-- What the kind of an outcome says about the state of a goal that was active. -/
theorem applyGoalUpdate_state (hactive : goal.state = .active) (signal : GoalUpdateSignal)
    (threshold : Option ℚ) :
    (applyGoalUpdate goal ts toLowerCase signal threshold).state.state =
      match (applyGoalUpdate goal ts toLowerCase signal threshold).kind with
      | .complete => .complete
      | .blocked => .blocked
      | .continue_ | .blockedRejected => .active := by
  unfold applyGoalUpdate applyBlocker
  dsimp only
  repeat' split
  all_goals first | rfl | simp_all

theorem applyGoalUpdate_active_iff (hactive : goal.state = .active) (signal : GoalUpdateSignal)
    (threshold : Option ℚ) :
    (applyGoalUpdate goal ts toLowerCase signal threshold).state.state = .active ↔
      (applyGoalUpdate goal ts toLowerCase signal threshold).kind.ended = false := by
  rw [applyGoalUpdate_state ts toLowerCase hactive]
  cases (applyGoalUpdate goal ts toLowerCase signal threshold).kind
  all_goals simp [GoalUpdateOutcomeKind.ended]

end Goals

end Kyberion.Workforce
