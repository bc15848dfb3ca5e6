import Mathlib.Logic.Relation
import Kyberion.Workforce.GoalDriver

/-!
What a step of the goal driver can do: a short run of edits, each with the phase that it starts
from. An invariant of the driver is proved edit by edit.
-/

namespace Kyberion.Workforce

open Relation (ReflTransGen)
open Kyberion.Pipeline (ToolCallRepeatGovernorState)

/-- The run has not ended, and waits for no tool and no grace step. -/
def DriverPhase.plain : DriverPhase → Bool
  | .admission | .turn | .tools _ | .yield_ => true
  | _ => false

def DriverPhase.isGrace : DriverPhase → Bool
  | .grace _ _ => true
  | _ => false

def DriverPhase.isRequest : DriverPhase → Bool
  | .request _ => true
  | _ => false

/-- The run has returned or thrown. -/
def DriverPhase.ended : DriverPhase → Bool
  | .returned | .thrown => true
  | _ => false

namespace GoalDriver

variable (host : GoalHost) (options : RunGoalDrivenLoopOptions) (ts : String)

/-- A cancellation between a model result and its accrual, or during a grace step. -/
def interrupts (d : GoalDriver) : DriverAction → Bool
  | .referencesFailed aborted => options.signal && aborted
  | .failed aborted => d.phase.isGrace && options.signal && aborted
  | _ => false

/-- The operator executes a plan whose request is no longer open. -/
def stale (d : GoalDriver) : DriverAction → Bool
  | .drive .approved => !d.phase.isRequest
  | _ => false

inductive Edit (interrupted stale : Bool) : GoalDriver → GoalDriver → Prop
  | enter {d : GoalDriver} (hphase : d.phase = .admission) :
      Edit interrupted stale d { d with turnsRun := d.turnsRun + 1, phase := .turn }
  | pause {d : GoalDriver} (reason : String) (hphase : d.phase.plain) :
      Edit interrupted stale d (d.pause ts reason)
  | throw_ {d : GoalDriver} (hphase : d.phase.plain ∨ d.phase.isGrace) :
      Edit interrupted stale d { d with phase := .thrown }
  | deadline {d : GoalDriver} (reason : String) (hphase : d.phase = .turn) :
      Edit interrupted stale d (d.blockOnBudget host ts reason none)
  | completeTurn {d : GoalDriver} (result : GenerateWithToolsResult) (tokens elapsedMs : ℚ)
      (hphase : d.phase = .turn) :
      Edit interrupted stale d { d.emit (.modelTurn d.turnNumber) with
        goal := if d.budget.isSome then accrueGoalBudgetUsage d.goal tokens 1 elapsedMs else d.goal
        phase := .tools { result, rest := result.toolCalls } }
  | loseTurn {d : GoalDriver} (hphase : d.phase = .turn) :
      Edit interrupted stale d { d.emit (.modelTurn d.turnNumber) with phase := .thrown }
  | interruptTurn {d : GoalDriver} (reason : String) (hcut : interrupted) (hphase : d.phase = .turn) :
      Edit interrupted stale d ((d.emit (.modelTurn d.turnNumber)).pause ts reason)
  | interruptGrace {d : GoalDriver} (reason : String) (hcut : interrupted)
      (hphase : d.phase.isGrace) : Edit interrupted stale d (d.pause ts reason)
  | handle {d : GoalDriver} {loop : ToolLoop} {call : ToolCall} (status : GoalToolCallStatus)
      (reason : Option String) (govState : ToolCallRepeatGovernorState)
      (signal : Option GoalUpdateSignal) (hphase : d.phase = .tools loop)
      (hcall : loop.rest.head? = some call) :
      Edit interrupted stale d { d.recordToolCall loop.index call status reason with
        govState, phase := .tools (loop.next signal) }
  | request {d : GoalDriver} {loop : ToolLoop} {call : ToolCall}
      (govState : ToolCallRepeatGovernorState) (hphase : d.phase = .tools loop)
      (hcall : loop.rest.head? = some call) :
      Edit interrupted stale d { d with govState, phase := .request { loop with call } }
  | invoke {d : GoalDriver} {request : ToolRequest} (plan : Option (CallKey × ToolCall))
      (hphase : d.phase = .request request) (hinvoked : request.invoked = false) :
      Edit interrupted stale d { d.invokeTool request with plan }
  | record {d : GoalDriver} {request : ToolRequest} (status : GoalToolCallStatus)
      (reason : Option String) (govState : ToolCallRepeatGovernorState)
      (hphase : d.phase = .request request) :
      Edit interrupted stale d { d.recordToolCall request.index request.call status reason with
        govState, phase := .tools (request.toToolLoop.next request.signal) }
  | settle {d : GoalDriver} {loop : ToolLoop} (hphase : d.phase = .tools loop)
      (hrest : loop.rest = []) :
      Edit interrupted stale d (d.settle host options ts loop.result loop.signal)
  | graceReturned {d : GoalDriver} {reason : String} {report : Option String}
      (result : GenerateWithToolsResult) (hphase : d.phase = .grace reason report) :
      Edit interrupted stale d (d.graceReturned host ts reason report result)
  | nextTurn {d : GoalDriver} (hphase : d.phase = .yield_) :
      Edit interrupted stale d (d.nextTurn host ts)
  | peek {d : GoalDriver} (plan : CallKey × ToolCall) :
      Edit interrupted stale d { d with plan := some plan }
  | executeStale {d : GoalDriver} {plan : CallKey × ToolCall} (hstale : stale)
      (hplan : d.plan = some plan) (hphase : d.phase.isRequest = false) :
      Edit interrupted stale d { d.emit (.executed plan.1 plan.2) with plan := none }

variable {host options ts} {d d' : GoalDriver} {interrupted stale : Bool}

theorem settle_phase (phase : DriverPhase) (result : GenerateWithToolsResult)
    (signal : Option GoalUpdateSignal) :
    ({ d with phase } : GoalDriver).settle host options ts result signal =
      d.settle host options ts result signal := by
  simp only [settle, emit, finish, maybeTerminateOnBudget, blockOnBudget, turnNumber]
  split
  all_goals rfl

/-- A turn ends the run when its signal ends the goal. -/
theorem settle_cases (host : GoalHost) (options : RunGoalDrivenLoopOptions) (ts : String)
    (d : GoalDriver) (result : GenerateWithToolsResult) (signal : Option GoalUpdateSignal) :
    ∃ applied outcome, applied = signal.getD { status := .continue_ } ∧
      outcome = applyGoalUpdate d.goal ts host.toLowerCase applied options.blockedPersistTurns ∧
      (outcome.kind.ended = true ∧ d.settle host options ts result signal =
          ({ d.emit (.applied applied outcome.state.state) with
            goal := outcome.state } : GoalDriver).finish host ts ∨
        outcome.kind.ended = false ∧ d.settle host options ts result signal =
          ({ d.emit (.applied applied outcome.state.state) with
            goal := incrementGoalTurn outcome.state ts } : GoalDriver).maybeTerminateOnBudget host
              ts result) := by
  refine ⟨_, _, rfl, rfl, ?_⟩
  unfold settle
  dsimp only
  split
  · rename_i h
    exact .inl ⟨by rw [h]; rfl, rfl⟩
  · rename_i h
    exact .inl ⟨by rw [h]; rfl, rfl⟩
  · rename_i h
    exact .inr ⟨by rw [h]; rfl, rfl⟩
  · rename_i h
    exact .inr ⟨by rw [h]; rfl, rfl⟩

/-- The calls of a turn are handled up to the next one, or to the end of the turn. -/
theorem continueTools_edits (loop : ToolLoop)
    (h : ReflTransGen (Edit host options ts interrupted stale) d'
      { d with phase := .tools loop }) :
    ReflTransGen (Edit host options ts interrupted stale) d'
      (d.continueTools host options ts loop) := by
  unfold continueTools
  split
  · rename_i hrest
    rw [← settle_phase (.tools loop)]
    exact h.tail (.settle rfl hrest)
  · exact h

theorem pause_edits (reason : String) {phase : DriverPhase} (hphase : phase.plain)
    (h : ReflTransGen (Edit host options ts interrupted stale) d' { d with phase }) :
    ReflTransGen (Edit host options ts interrupted stale) d' (d.pause ts reason) :=
  h.tail (.pause reason hphase)

theorem raise_edits (aborted : Bool) {phase : DriverPhase} (hphase : phase.plain)
    (h : ReflTransGen (Edit host options ts interrupted stale) d' { d with phase }) :
    ReflTransGen (Edit host options ts interrupted stale) d' (d.raise options ts aborted) := by
  unfold raise
  split
  · exact pause_edits _ hphase h
  · exact h.tail (.throw_ (.inl hphase))

/-- A record and what follows from the answer to its call. -/
theorem answered_edits (loop : ToolLoop) (call : ToolCall) (answer : ToolAnswer)
    (h : ∀ status reason, ReflTransGen (Edit host options ts interrupted stale) d'
      { d.recordToolCall loop.index call status reason with
        phase := .tools (loop.next loop.signal) }) :
    ReflTransGen (Edit host options ts interrupted stale) d'
      (d.answered host options ts loop call answer) := by
  cases answer with
  | done => exact continueTools_edits _ (h _ _)
  | refused reason => exact continueTools_edits _ (h _ _)
  | threw code aborted => exact raise_edits aborted rfl (h _ _)

theorem handleCall_edits {loop : ToolLoop} {call : ToolCall} (answer : ToolAnswer)
    (hphase : d.phase = .tools loop) (hcall : loop.rest.head? = some call) :
    ReflTransGen (Edit host options ts interrupted stale) d
      (d.handleCall host options ts loop call answer) := by
  have answers (govState : ToolCallRepeatGovernorState) (answer : ToolAnswer) :
      ReflTransGen (Edit host options ts interrupted stale) d
        (({ d with govState } : GoalDriver).answered host options ts loop call answer) :=
    answered_edits loop call answer fun status reason =>
      .single (.handle status reason govState loop.signal hphase hcall)
  unfold handleCall
  dsimp only
  split
  · exact pause_edits _ rfl (.single (.handle _ _ _ loop.signal hphase hcall))
  · split
    · split
      · exact continueTools_edits _ (.single (.handle _ _ _ _ hphase hcall))
      · exact answers _ _
    · split
      · exact answers _ _
      · split
        · exact answers _ _
        · split
          · exact .single (.request _ hphase hcall)
          · exact answers _ _

theorem holdTool_edits {request : ToolRequest} (status : AdmissionStatus)
    (hphase : d.phase = .request request) :
    ReflTransGen (Edit host options ts interrupted stale) d (d.holdTool ts request status) :=
  pause_edits _ rfl (.single (.record _ _ d.govState hphase))

theorem toolReturned_edits {request : ToolRequest} (status : Option AdmissionStatus)
    (madeProgress : Bool) (cyclePeriod : Option ℕ) (hphase : d.phase = .request request) :
    ReflTransGen (Edit host options ts interrupted stale) d
      (d.toolReturned host options ts request status madeProgress cyclePeriod) := by
  have records (govState : ToolCallRepeatGovernorState) (status : GoalToolCallStatus)
      (reason : Option String) : ReflTransGen (Edit host options ts interrupted stale) d
        { d.recordToolCall request.index request.call status reason with
          govState, phase := .tools (request.toToolLoop.next request.signal) } :=
    .single (.record status reason govState hphase)
  cases status with
  | some status => exact holdTool_edits _ hphase
  | none =>
      cases madeProgress with
      | false =>
          cases cyclePeriod with
          | some period => exact pause_edits _ rfl (records d.govState _ _)
          | none => exact answered_edits _ _ .done (records d.govState)
      | true =>
          cases cyclePeriod with
          | some period => exact pause_edits _ rfl (records _ _ _)
          | none => exact answered_edits _ _ .done (records _)

theorem driveTool_edits {plan : CallKey × ToolCall} (decision : ApprovalDecision)
    (hplan : d.plan = some plan)
    (hidle : d.executing = false) :
    ReflTransGen (Edit host options ts interrupted (d.stale (.drive decision))) d
      (d.driveTool ts plan decision) := by
  cases hphase : d.phase with
  | request request =>
      cases decision with
      | approved =>
          simp only [driveTool, hphase]
          exact .single (.invoke none hphase (by simpa [executing, hphase] using hidle))
      | pending =>
          simp only [driveTool, hphase]
          exact holdTool_edits _ hphase
      | denied =>
          simp only [driveTool, hphase]
          exact holdTool_edits _ hphase
  | admission | turn | tools | grace | yield_ | returned | thrown =>
      cases decision with
      | approved =>
          simp only [driveTool, hphase]
          refine .single (.executeStale ?_ hplan ?_)
          · simp [stale, DriverPhase.isRequest, hphase]
          · simp [DriverPhase.isRequest, hphase]
      | pending | denied =>
          simp only [driveTool, hphase]
          exact .refl

theorem step_edits {action : DriverAction} (h : d.step host options ts action = some d') :
    ReflTransGen (Edit host options ts (d.interrupts options action) (d.stale action)) d d' := by
  unfold step at h
  split at h
  case h_1 hphase =>
    obtain rfl := Option.some.inj h
    exact .single (.enter hphase)
  case h_2 hphase | h_3 hphase =>
    split at h
    · obtain rfl := Option.some.inj h
      exact .single (.pause _ (by rw [hphase]; rfl))
    · cases h
  case h_4 hphase =>
    obtain ⟨_, _, rfl⟩ := Option.map_eq_some_iff.mp h
    exact .single (.deadline _ hphase)
  case h_5 hphase =>
    obtain rfl := Option.some.inj h
    exact continueTools_edits _ (.single (.completeTurn _ _ _ hphase))
  case h_6 aborted hphase =>
    split at h
    · obtain rfl := Option.some.inj h
      unfold raise
      split
      · exact .single (.interruptTurn _ (by simpa [interrupts] using ‹_›) hphase)
      · exact .single (.loseTurn hphase)
    · cases h
  case h_7 hphase =>
    obtain ⟨call, hcall, rfl⟩ := Option.map_eq_some_iff.mp h
    exact handleCall_edits _ hphase hcall
  case h_8 request hphase =>
    split at h
    · cases h
    · rename_i hno
      obtain rfl := Option.some.inj h
      rw [not_or, Bool.not_eq_true, Bool.not_eq_true] at hno
      exact .single (.invoke d.plan hphase hno.2)
  case h_9 hphase =>
    split at h
    · obtain rfl := Option.some.inj h
      exact toolReturned_edits _ _ _ hphase
    · cases h
  case h_10 hphase =>
    split at h
    · obtain rfl := Option.some.inj h
      exact answered_edits _ _ _ fun status reason => .single (.record status reason _ hphase)
    · cases h
  case h_11 hphase =>
    split at h
    · obtain rfl := Option.some.inj h
      exact holdTool_edits _ hphase
    · cases h
  case h_12 =>
    split at h
    · obtain ⟨plan, -, rfl⟩ := Option.map_eq_some_iff.mp h
      exact .single (.peek plan)
    · cases h
  case h_13 decision =>
    split at h
    · cases h
    · rename_i hidle
      obtain ⟨plan, hplan, rfl⟩ := Option.map_eq_some_iff.mp h
      exact driveTool_edits decision hplan (by simpa using hidle)
  case h_14 hphase =>
    obtain rfl := Option.some.inj h
    exact .single (.graceReturned _ hphase)
  case h_15 hphase =>
    obtain rfl := Option.some.inj h
    unfold yielded
    split
    · exact .single (.pause _ (by rw [hphase]; rfl))
    · exact .single (.nextTurn hphase)
  case h_18 hphase =>
    obtain rfl := Option.some.inj h
    unfold raise
    split
    · exact .single (.interruptGrace _ (by simp_all [interrupts, DriverPhase.isGrace])
        (by rw [hphase]; rfl))
    · exact .single (.throw_ (.inr (by rw [hphase]; rfl)))
  case h_16 hphase | h_17 hphase | h_19 hphase =>
    obtain rfl := Option.some.inj h
    unfold raise
    split
    · exact .single (.pause _ (by rw [hphase]; rfl))
    · exact .single (.throw_ (.inl (by rw [hphase]; rfl)))
  case h_20 => cases h

end GoalDriver

/-- A run begins with its goal returned at once, or active in front of its first turn. -/
theorem runGoalDrivenLoop_cases {host : GoalHost} {options : RunGoalDrivenLoopOptions}
    {ts : String} {d : GoalDriver} (h : runGoalDrivenLoop host options ts = .ok d) :
    ∃ maxTurns, let goal := startGoal options ts
      goal.state ≠ .active ∧
        d = { goal, budget := goal.budget, maxTurns, phase := .returned } ∨
      goal.state = .active ∧ d = ({
        goal := { goal with budget := options.params.budget.or goal.budget }
        budget := options.params.budget.or goal.budget
        maxTurns } : GoalDriver).nextTurn host ts := by
  unfold runGoalDrivenLoop at h
  cases hlimit : goalTurnLimit options with
  | error e =>
      rw [hlimit] at h
      cases h
  | ok maxTurns =>
      rw [hlimit] at h
      refine ⟨maxTurns, ?_⟩
      by_cases hstate : (startGoal options ts).state = .active
      · exact .inr ⟨hstate, Except.ok.inj (h.symm.trans (if_neg (not_not.mpr hstate)))⟩
      · exact .inl ⟨hstate, Except.ok.inj (h.symm.trans (if_pos hstate))⟩

@[simp] theorem GoalDriver.nextTurn_log {host : GoalHost} {ts : String} (d : GoalDriver) :
    (d.nextTurn host ts).log = d.log := by
  unfold GoalDriver.nextTurn
  split <;> rfl

/-- A host for runs on fixed inputs. -/
def plainHost : GoalHost where
  toLowerCase text := text
  numberText _ := "1"
  canonicalArgs _ := "\x7b\x7d"

end Kyberion.Workforce
