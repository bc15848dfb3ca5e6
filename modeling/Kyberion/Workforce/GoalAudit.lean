import Mathlib.Algebra.Order.Ring.Rat
import Mathlib.Data.List.Nodup
import Kyberion.Transition
import Kyberion.Workforce.GoalSteps

/-!
The audit records of a run: each call that is executed is recorded at once, no call is recorded
twice, and the calls of a grace step are refused.
-/

namespace Kyberion.Workforce

open Kyberion.Transition

def GoalEvent.auditedKey : GoalEvent → Option CallKey
  | .audited key _ _ _ => some key
  | _ => none

def auditedKeys (log : List GoalEvent) : List CallKey :=
  log.filterMap GoalEvent.auditedKey

/-- An execution is followed at once by the record of its call. -/
def Recorded (log : List GoalEvent) : Prop :=
  ∀ before key call after, log = before ++ .executed key call :: after →
    ∃ status reason rest, after = .audited key call status reason :: rest

/-- A call of a grace step is recorded as refused and never executed. -/
def GraceRefused (log : List GoalEvent) : Prop :=
  ∀ key call, .graceCall key call ∈ log →
    .audited key call .refused (some "grace_step_rejected") ∈ log ∧
      ∀ call', .executed key call' ∉ log

section Logs

variable {log log' : List GoalEvent}

theorem Recorded.append (h : Recorded log) (h' : Recorded log') : Recorded (log ++ log') := by
  intro before key call after hsplit
  obtain ⟨middle, -, hmiddle⟩ | ⟨middle, hmiddle, hrest⟩ := List.append_eq_append_iff.mp hsplit
  · exact h' _ _ _ _ hmiddle
  · cases middle with
    | nil => exact h' [] _ _ _ hrest.symm
    | cons event middle =>
        obtain ⟨rfl, rfl⟩ := List.cons.inj hrest
        obtain ⟨status, reason, rest, rfl⟩ := h _ _ _ _ hmiddle
        exact ⟨status, reason, rest ++ log', rfl⟩

theorem recorded_singleton {event : GoalEvent} (h : ∀ key call, event ≠ .executed key call) :
    Recorded [event] := by
  intro before key call after hsplit
  obtain ⟨rfl, hevent⟩ | ⟨-, hnil⟩ := List.append_eq_singleton_iff.mp hsplit.symm
  · exact absurd (List.cons.inj hevent).1.symm (h key call)
  · cases hnil

theorem recorded_pair (key : CallKey) (call : ToolCall) (status : GoalToolCallStatus)
    (reason : Option String) :
    Recorded [.executed key call, .audited key call status reason] := by
  intro before key' call' after hsplit
  cases before with
  | nil =>
      obtain ⟨hevent, rfl⟩ := List.cons.inj hsplit
      cases hevent
      exact ⟨status, reason, [], rfl⟩
  | cons event before =>
      obtain ⟨-, hevent⟩ | ⟨-, hnil⟩ :=
        List.append_eq_singleton_iff.mp (List.cons.inj hsplit).2.symm
      · cases (List.cons.inj hevent).1
      · cases hnil

/-- An executed call is recorded somewhere. -/
theorem Recorded.audited (h : Recorded log) {key : CallKey} {call : ToolCall}
    (hmem : .executed key call ∈ log) : key ∈ auditedKeys log := by
  obtain ⟨before, after, hlog⟩ := List.append_of_mem hmem
  obtain ⟨status, reason, rest, rfl⟩ := h _ _ _ _ hlog
  rw [hlog]
  simp [auditedKeys, GoalEvent.auditedKey]

theorem auditedKeys_append : auditedKeys (log ++ log') = auditedKeys log ++ auditedKeys log' :=
  List.filterMap_append

/-- A log before the call with an index in a turn, or between two turns. -/
structure Open (turn : ℚ) (index : ℕ) (log : List GoalEvent) : Prop where
  recorded : Recorded log
  once : (auditedKeys log).Nodup
  before : ∀ key ∈ auditedKeys log, key.1 < turn ∨ key.1 = turn ∧ key.2 < index
  grace : GraceRefused log

/-- The log of a run that has ended. -/
structure Closed (log : List GoalEvent) : Prop where
  recorded : Recorded log
  once : (auditedKeys log).Nodup
  grace : GraceRefused log

namespace Open

variable {turn : ℚ} {index : ℕ}

theorem closed (h : Open turn index log) : Closed log :=
  ⟨h.recorded, h.once, h.grace⟩

theorem nil : Open turn index [] where
  recorded := by simp [Recorded]
  once := List.nodup_nil
  before := by simp [auditedKeys]
  grace := by simp [GraceRefused]

theorem fresh (h : Open turn index log) : (turn, index) ∉ auditedKeys log := by
  intro hmem
  have := h.before _ hmem
  simp at this

/-- The next turn. -/
theorem later (h : Open turn index log) {turn' : ℚ} (hturn : turn < turn') : Open turn' 0 log where
  recorded := h.recorded
  once := h.once
  before key hkey := .inl <| by
    obtain hlt | ⟨heq, -⟩ := h.before key hkey
    · exact hlt.trans hturn
    · exact heq.trans_lt hturn
  grace := h.grace

/-- An event that is neither an execution nor a record, nor a call of a grace step. -/
theorem note (h : Open turn index log) {event : GoalEvent} (hkey : event.auditedKey = none)
    (hexecuted : ∀ key call, event ≠ .executed key call)
    (hgrace : ∀ key call, event ≠ .graceCall key call) : Open turn index (log ++ [event]) := by
  have hkeys : auditedKeys (log ++ [event]) = auditedKeys log := by
    simp [auditedKeys, hkey]
  refine ⟨h.recorded.append (recorded_singleton hexecuted), hkeys ▸ h.once, hkeys ▸ h.before, ?_⟩
  intro key call hmem
  obtain hmem | hmem := List.mem_append.mp hmem
  · obtain ⟨hrefused, hnever⟩ := h.grace key call hmem
    refine ⟨List.mem_append_left _ hrefused, fun call' hexec => ?_⟩
    obtain hexec | hexec := List.mem_append.mp hexec
    · exact hnever call' hexec
    · exact hexecuted _ _ (List.mem_singleton.mp hexec).symm
  · exact absurd (List.mem_singleton.mp hmem).symm (hgrace key call)

/-- The call with the index is handled: what is added ends with its record. -/
theorem handled (h : Open turn index log) {events : List GoalEvent}
    (hrecorded : Recorded events) (hkeys : auditedKeys events = [(turn, index)])
    (hgrace : ∀ key call, .graceCall key call ∈ events →
      .audited key call .refused (some "grace_step_rejected") ∈ events ∧
        ∀ call', .executed key call' ∉ events) : Open turn (index + 1) (log ++ events) where
  recorded := h.recorded.append hrecorded
  once := by
    rw [auditedKeys_append, hkeys]
    refine h.once.append (List.nodup_singleton _) ?_
    simpa using h.fresh
  before key hkey := by
    rw [auditedKeys_append, hkeys] at hkey
    obtain hkey | hkey := List.mem_append.mp hkey
    · obtain hlt | ⟨heq, hlt⟩ := h.before key hkey
      · exact .inl hlt
      · exact .inr ⟨heq, Nat.lt_succ_of_lt hlt⟩
    · obtain rfl := List.mem_singleton.mp hkey
      exact .inr ⟨rfl, Nat.lt_succ_self _⟩
  grace key call hmem := by
    obtain hmem | hmem := List.mem_append.mp hmem
    · obtain ⟨hrefused, hnever⟩ := h.grace key call hmem
      refine ⟨List.mem_append_left _ hrefused, fun call' hexec => ?_⟩
      obtain hexec | hexec := List.mem_append.mp hexec
      · exact hnever call' hexec
      · -- the key of a grace call is recorded before, the key of this call is not
        have hkey : key ∈ auditedKeys events := hrecorded.audited hexec
        rw [hkeys, List.mem_singleton] at hkey
        rw [hkey] at hrefused
        exact h.fresh (List.mem_filterMap.mpr ⟨_, hrefused, rfl⟩)
    · obtain ⟨hrefused, hnever⟩ := hgrace key call hmem
      refine ⟨List.mem_append_right _ hrefused, fun call' hexec => ?_⟩
      obtain hexec | hexec := List.mem_append.mp hexec
      · have hkey : key ∈ auditedKeys events := List.mem_filterMap.mpr ⟨_, hrefused, rfl⟩
        rw [hkeys, List.mem_singleton] at hkey
        rw [hkey] at hexec
        exact h.fresh (h.recorded.audited hexec)
      · exact hnever call' hexec

/-- A call is recorded without an execution. -/
theorem refused (h : Open turn index log) (call : ToolCall) (status : GoalToolCallStatus)
    (reason : Option String) :
    Open turn (index + 1) (log ++ [.audited (turn, index) call status reason]) :=
  h.handled (recorded_singleton (by simp)) rfl (by simp)

theorem executed (h : Open turn index log) (call : ToolCall) (status : GoalToolCallStatus)
    (reason : Option String) :
    Open turn (index + 1)
      (log ++ [.executed (turn, index) call, .audited (turn, index) call status reason]) :=
  h.handled (recorded_pair _ _ _ _) rfl (by simp)

/-- A call of a grace step. -/
theorem graceCall (h : Open turn index log) (call : ToolCall) :
    Open turn (index + 1) (log ++ [.graceCall (turn, index) call,
      .audited (turn, index) call .refused (some "grace_step_rejected")]) := by
  have hcall : Recorded [.graceCall (turn, index) call] := recorded_singleton (by simp)
  exact h.handled (hcall.append (recorded_singleton (by simp))) rfl (by simp)

/-- A tool in flight. -/
theorem inFlight (h : Open turn index log) (call : ToolCall) :
    (auditedKeys (log ++ [.executed (turn, index) call])).Nodup ∧
      GraceRefused (log ++ [.executed (turn, index) call]) := by
  have hkeys : auditedKeys (log ++ [.executed (turn, index) call]) = auditedKeys log := by
    simp [auditedKeys, GoalEvent.auditedKey]
  refine ⟨hkeys ▸ h.once, fun key call' hmem => ?_⟩
  obtain hmem | hmem := List.mem_append.mp hmem
  · obtain ⟨hrefused, hnever⟩ := h.grace key call' hmem
    refine ⟨List.mem_append_left _ hrefused, fun call'' hexec => ?_⟩
    obtain hexec | hexec := List.mem_append.mp hexec
    · exact hnever call'' hexec
    · cases List.mem_singleton.mp hexec
      exact h.fresh (List.mem_filterMap.mpr ⟨_, hrefused, rfl⟩)
  · cases List.mem_singleton.mp hmem

theorem graceCalls (calls : List ToolCall) (h : Open turn index log) :
    Open turn (index + calls.length) (log ++ (calls.zipIdx index).flatMap fun (call, index) =>
      [.graceCall (turn, index) call,
        .audited (turn, index) call .refused (some "grace_step_rejected")]) := by
  induction calls generalizing index log with
  | nil => simpa using h
  | cons call calls ih =>
      have hrest := ih (h.graceCall call)
      rw [List.append_assoc] at hrest
      simpa [Nat.add_assoc, Nat.add_comm 1] using hrest

end Open

theorem Closed.nil : Closed [] :=
  (Open.nil : Open 0 0 []).closed

end Logs

/-- The invariant of a run, by its phase. -/
def Audited (d : GoalDriver) : Prop :=
  match d.phase with
  | .admission | .turn | .yield_ | .grace _ _ => Open d.turnNumber 0 d.log
  | .tools loop => Open d.turnNumber loop.index d.log
  | .request request =>
      if request.invoked then
        ∃ log, d.log = log ++ [.executed (d.turnNumber, request.index) request.call] ∧
          Open d.turnNumber request.index log
      else Open d.turnNumber request.index d.log
  | .returned | .thrown => Closed d.log

section Edits

variable {host : GoalHost} {options : RunGoalDrivenLoopOptions} {ts : String} {d : GoalDriver}

theorem Audited.closed (h : Audited d) (hphase : d.phase.plain ∨ d.phase.isGrace) :
    Closed d.log := by
  unfold Audited at h
  split at h
  · exact h.closed
  · exact h.closed
  · exact h.closed
  · exact h.closed
  · exact h.closed
  · simp_all [DriverPhase.plain, DriverPhase.isGrace]
  · exact h
  · exact h

theorem audited_finish (h : Closed d.log) : Audited (d.finish host ts) :=
  h

theorem audited_maybeTerminateOnBudget (result : GenerateWithToolsResult)
    (h : Open d.turnNumber 0 d.log) : Audited (d.maybeTerminateOnBudget host ts result) := by
  unfold GoalDriver.maybeTerminateOnBudget
  split
  · exact h
  · split
    · exact h.note rfl (by simp) (by simp)
    · exact h.closed

theorem audited_settle {loop : ToolLoop} (h : Open d.turnNumber loop.index d.log) :
    Audited (d.settle host options ts loop.result loop.signal) := by
  obtain ⟨applied, outcome, -, houtcome, ⟨-, hsettle⟩ | ⟨-, hsettle⟩⟩ :=
    GoalDriver.settle_cases host options ts d loop.result loop.signal
  · rw [hsettle]
    exact (h.note rfl (by simp) (by simp)).closed
  · have hturn : outcome.state.turnCount = d.goal.turnCount := by
      rw [houtcome]
      exact applyGoalUpdate_turnCount d.goal ts host.toLowerCase applied _
    rw [hsettle]
    refine audited_maybeTerminateOnBudget _ (h.note rfl (by simp) (by simp) |>.later ?_)
    simp [GoalDriver.turnNumber, incrementGoalTurn, hturn]

/-- What an edit keeps, unless it executes a plan whose request is no longer open. -/
theorem GoalDriver.Edit.audited {interrupted : Bool} {d' : GoalDriver}
    (hedit : Edit host options ts interrupted false d d') (h : Audited d) : Audited d' := by
  cases hedit with
  | enter hphase =>
      simp only [Audited, hphase] at h
      exact h
  | pause reason hphase => exact h.closed (.inl hphase)
  | throw_ hphase => exact h.closed hphase
  | deadline reason hphase => exact h.closed (.inl (by rw [hphase]; rfl))
  | completeTurn result tokens elapsedMs hphase =>
      simp only [Audited, hphase] at h
      have hnote : Open d.turnNumber 0 (d.emit (.modelTurn d.turnNumber)).log :=
        h.note rfl (by simp) (by simp)
      simp only [Audited, GoalDriver.turnNumber]
      split
      · rw [accrueGoalBudgetUsage_turnCount]
        exact hnote
      · exact hnote
  | loseTurn hphase =>
      simp only [Audited, hphase] at h
      exact (h.note rfl (by simp) (by simp)).closed
  | interruptTurn reason hcut hphase =>
      simp only [Audited, hphase] at h
      exact (h.note rfl (by simp) (by simp)).closed
  | interruptGrace reason hcut hphase => exact h.closed (.inr hphase)
  | handle status reason govState signal hphase hcall =>
      simp only [Audited, hphase] at h
      exact h.refused _ status reason
  | request govState hphase hcall =>
      simp only [Audited, hphase] at h
      exact h
  | invoke plan hphase hinvoked =>
      simp only [Audited, hphase, hinvoked] at h
      exact ⟨d.log, rfl, h⟩
  | @record request status reason govState hphase =>
      simp only [Audited, hphase] at h
      split at h
      · obtain ⟨log, hlog, hopen⟩ := h
        have hexecuted := hopen.executed request.call status reason
        rw [← List.singleton_append, ← List.append_assoc, ← hlog] at hexecuted
        exact hexecuted
      · exact h.refused _ status reason
  | settle hphase hrest =>
      simp only [Audited, hphase] at h
      exact audited_settle h
  | graceReturned result hphase =>
      simp only [Audited, hphase] at h
      exact (h.graceCalls result.toolCalls).closed
  | nextTurn hphase =>
      simp only [Audited, hphase] at h
      unfold GoalDriver.nextTurn
      split
      · exact h
      · exact h.closed
  | peek plan => exact h
  | executeStale hstale hplan hphase => cases hstale

theorem audited_step {d' : GoalDriver} {action : DriverAction} (hstale : d.stale action = false)
    (hstep : d.step host options ts action = some d') (h : Audited d) : Audited d' := by
  have hedits := GoalDriver.step_edits hstep
  rw [hstale] at hedits
  clear hstep
  induction hedits with
  | refl => exact h
  | tail _ hedit ih => exact hedit.audited ih

theorem audited_start (hrun : runGoalDrivenLoop host options ts = .ok d) : Audited d := by
  obtain ⟨maxTurns, ⟨-, rfl⟩ | ⟨-, rfl⟩⟩ := runGoalDrivenLoop_cases hrun
  · exact Closed.nil
  · unfold GoalDriver.nextTurn
    split
    · exact Open.nil
    · exact Closed.nil

end Edits

/-- A call of the loop, with what an operator does to its manual driver when it is over. -/
def goalRun (host : GoalHost) (options : RunGoalDrivenLoopOptions) :
    System GoalDriver (DriverAction × String) where
  init d := ∃ ts, runGoalDrivenLoop host options ts = .ok d
  step d action := d.step host options action.2 action.1

section Runs

variable {host : GoalHost} {options : RunGoalDrivenLoopOptions} {d : GoalDriver}

theorem audited_of_reach
    (h : (goalRun host options).Reach (fun d action => d.stale action.1 = false) d) :
    Audited d := by
  refine System.Reach.invariant (I := Audited) ?_ ?_ h
  · rintro d ⟨ts, hrun⟩
    exact audited_start hrun
  · exact fun d action d' hd hok hstep => audited_step hok hstep hd

/-- Every execution is recorded, or the last event is the execution of the tool in flight. -/
theorem Audited.cases (h : Audited d) :
    Closed d.log ∨ ∃ log key call, d.log = log ++ [.executed key call] ∧
      Open key.1 key.2 log ∧ d.executing = true := by
  unfold Audited at h
  split at h
  · exact .inl h.closed
  · exact .inl h.closed
  · exact .inl h.closed
  · exact .inl h.closed
  · exact .inl h.closed
  · rename_i hphase
    split at h
    · rename_i hinvoked
      obtain ⟨log, hlog, hopen⟩ := h
      exact .inr ⟨log, _, _, hlog, hopen, by simp [GoalDriver.executing, hphase, hinvoked]⟩
    · exact .inl h.closed
  · exact .inl h
  · exact .inl h

/-- As long as the operator executes no plan whose request is closed, each execution is recorded at
once, no call is recorded twice, and the calls of a grace step are refused. -/
theorem executions_audited
    (h : (goalRun host options).Reach (fun d action => d.stale action.1 = false) d) :
    (∀ before key call after, d.log = before ++ .executed key call :: after →
      (∃ status reason rest, after = .audited key call status reason :: rest) ∨
        after = [] ∧ d.executing = true) ∧
    (auditedKeys d.log).Nodup ∧
    ∀ key call, .graceCall key call ∈ d.log →
      .audited key call .refused (some "grace_step_rejected") ∈ d.log ∧
        ∀ call', .executed key call' ∉ d.log := by
  obtain hclosed | ⟨log, key, call, hlog, hopen, hexecuting⟩ := (audited_of_reach h).cases
  · exact ⟨fun before key call after hsplit => .inl (hclosed.recorded _ _ _ _ hsplit),
      hclosed.once, hclosed.grace⟩
  · obtain ⟨honce, hgrace⟩ := hopen.inFlight call
    rw [hlog]
    refine ⟨fun before key' call' after hsplit => ?_, honce, hgrace⟩
    obtain rfl | ⟨after, last, rfl⟩ := List.eq_nil_or_concat' after
    · exact .inr ⟨rfl, hexecuting⟩
    · rw [← List.cons_append, ← List.append_assoc] at hsplit
      obtain ⟨status, reason, rest, rfl⟩ :=
        hopen.recorded _ _ _ _ (List.append_inj_left' hsplit rfl)
      exact .inl ⟨status, reason, rest ++ [last], rfl⟩

def manualRun : RunGoalDrivenLoopOptions where
  params := { goalId := "g", objective := "o" }
  manualDrive := true

def manualStart : GoalDriver where
  goal := createGoal "t" manualRun.params
  budget := none
  maxTurns := some DEFAULT_MAX_TURNS

theorem manualStart_init : (goalRun plainHost manualRun).init manualStart :=
  ⟨"t", rfl⟩

/-- The operator approves the tool at once. -/
theorem executions_audited_approved :
    ∃ d, (goalRun plainHost manualRun).Reach (fun d action => d.stale action.1 = false) d ∧
      d.log.length = 4 ∧
      (∀ before key call after, d.log = before ++ .executed key call :: after →
        (∃ status reason rest, after = .audited key call status reason :: rest) ∨
          after = [] ∧ d.executing = true) ∧
      (auditedKeys d.log).Nodup ∧
      ∀ key call, .graceCall key call ∈ d.log →
        .audited key call .refused (some "grace_step_rejected") ∈ d.log ∧
          ∀ call', .executed key call' ∉ d.log := by
  obtain ⟨d, hreach, hlength⟩ := System.exists_reach_of_execOk
    (S := goalRun plainHost manualRun) (fun d action => !d.stale action.1)
    [(.admitted, "t"), (.modelReturned { toolCalls := [⟨"shell", .null⟩] } 0 0, "t"),
      (.call .done, "t"), (.peek, "t"), (.drive .approved, "t"),
      (.toolReturned none false none, "t")]
    (fun d => d.log.length = 4) manualStart_init (by decide +kernel)
  have hreach : (goalRun plainHost manualRun).Reach
      (fun d action => d.stale action.1 = false) d :=
    hreach.mono fun d action hok => by simpa using hok
  exact ⟨d, hreach, hlength, executions_audited hreach⟩

def GoalEvent.isExecuted : GoalEvent → Bool
  | .executed _ _ => true
  | _ => false

/-- A tool is held back for its approval and the run returns; then the operator executes the plan
that the driver has kept, and no record follows. -/
theorem keptPlan_unaudited :
    ∃ d, (goalRun plainHost manualRun).Reachable d ∧ d.executing = false ∧
      ∃ before key call, d.log = before ++ [.executed key call] := by
  obtain ⟨d, hreach, hlast, hexecuting⟩ := System.exists_reachable_of_exec
    (S := goalRun plainHost manualRun)
    [(.admitted, "t"), (.modelReturned { toolCalls := [⟨"shell", .null⟩] } 0 0, "t"),
      (.call .done, "t"), (.peek, "t"), (.drive .pending, "t"), (.drive .approved, "t")]
    (fun d => d.log.getLast?.any GoalEvent.isExecuted = true ∧ d.executing = false)
    manualStart_init (by decide +kernel)
  obtain ⟨event, hevent, hexecuted⟩ := (Option.any_eq_true _ _).mp hlast
  obtain ⟨before, hlog⟩ := List.getLast?_eq_some_iff.mp hevent
  cases event with
  | executed key call => exact ⟨d, hreach, hexecuting, before, key, call, hlog⟩
  | _ => cases hexecuted

end Runs

end Kyberion.Workforce
