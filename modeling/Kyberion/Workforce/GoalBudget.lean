import Mathlib.Data.List.Count
import Mathlib.Data.Rat.Cast.Order
import Kyberion.Transition
import Kyberion.Workforce.GoalSteps

/-!
The turn budget of a goal over a sequence of runs, each resuming the record that the one before it
returned.
-/

namespace Kyberion.Workforce

open Kyberion.Transition

def GoalEvent.isModelTurn : GoalEvent → Bool
  | .modelTurn _ => true
  | _ => false

def GoalEvent.isGraceStep : GoalEvent → Bool
  | .graceStep _ => true
  | _ => false

def modelTurns (log : List GoalEvent) : ℕ :=
  log.countP GoalEvent.isModelTurn

def graceSteps (log : List GoalEvent) : ℕ :=
  log.countP GoalEvent.isGraceStep

def turnsUsed (goal : GoalRuntimeState) : ℚ :=
  (goal.budgetStats.getD createGoalBudgetStats).turnsUsed

/-- The current run with its options, and what the runs before it have logged. -/
structure GoalRuns where
  current : Option (RunGoalDrivenLoopOptions × GoalDriver) := none
  earlier : List GoalEvent := []

inductive GoalRunsAction
  | run (options : RunGoalDrivenLoopOptions) (ts : String)
  | step (action : DriverAction) (ts : String)

namespace GoalRuns

def log (w : GoalRuns) : List GoalEvent :=
  w.earlier ++ (w.current.map fun run => run.2.log).getD []

/-- The goal record that the last run returned. -/
def record (w : GoalRuns) : Option GoalRuntimeState :=
  w.current.bind fun run =>
    match run.2.phase with
    | .returned => some run.2.goal
    | _ => none

def start (host : GoalHost) (w : GoalRuns) (options : RunGoalDrivenLoopOptions) (ts : String) :
    Option GoalRuns :=
  match runGoalDrivenLoop host options ts with
  | .ok d => some ⟨some (options, d), w.log⟩
  | .error _ => none

variable (host : GoalHost) (B : ℕ)

/-- The first run creates the goal with the turn budget; a later one may supply the budget again. -/
def step (w : GoalRuns) : GoalRunsAction → Option GoalRuns
  | .run options ts =>
      match w.current, w.record with
      | none, _ =>
          if options.resumeFrom = none ∧
              options.params.budget.any (fun budget => budget.turnBudget = some (B : ℚ)) then
            w.start host options ts
          else none
      | some _, some record =>
          if options.resumeFrom = some record ∧
              options.params.budget.all (fun budget => budget.turnBudget = some (B : ℚ)) then
            w.start host options ts
          else none
      | some _, none => none
  | .step action ts =>
      w.current.bind fun run => (run.2.step host run.1 ts action).map fun d =>
        { w with current := some (run.1, d) }

def system : System GoalRuns GoalRunsAction where
  init w := w = {}
  step := step host B

/-- No goal becomes active again whose record has used up its turns, and no cancellation falls
between a model result and its accrual, or into a grace step. -/
def checked (w : GoalRuns) : GoalRunsAction → Bool
  | .run options ts => w.record.all fun record =>
      (startGoal options ts).state ≠ .active ∨ turnsUsed record < B
  | .step action _ => w.current.all fun run => !run.2.interrupts run.1 action

end GoalRuns

theorem lt_of_checkGoalBudgetReached {goal : GoalRuntimeState} {numberText : ℚ → String} {budget : GoalBudget} {limit : ℚ}
    (hlimit : budget.turnBudget = some limit)
    (h : checkGoalBudgetReached numberText (some budget) goal.budgetStats = none) :
    turnsUsed goal < limit := by
  simp only [checkGoalBudgetReached, Option.bind_some, Option.or_eq_none_iff, hlimit] at h
  have hturns := h.2.1
  split at hturns
  · cases hturns
  · exact not_le.mp ‹_›


section Counting

@[simp] theorem modelTurns_append (log log' : List GoalEvent) :
    modelTurns (log ++ log') = modelTurns log + modelTurns log' :=
  List.countP_append

@[simp] theorem graceSteps_append (log log' : List GoalEvent) :
    graceSteps (log ++ log') = graceSteps log + graceSteps log' :=
  List.countP_append

@[simp] theorem modelTurns_emit (d : GoalDriver) (event : GoalEvent) :
    modelTurns (d.emit event).log = modelTurns d.log + if event.isModelTurn then 1 else 0 := by
  simp [GoalDriver.emit, modelTurns, List.countP_cons]

@[simp] theorem graceSteps_emit (d : GoalDriver) (event : GoalEvent) :
    graceSteps (d.emit event).log = graceSteps d.log + if event.isGraceStep then 1 else 0 := by
  simp [GoalDriver.emit, graceSteps, List.countP_cons]

theorem counts_refuseGraceCalls (d : GoalDriver) (calls : List ToolCall) :
    modelTurns (d.refuseGraceCalls calls).log = modelTurns d.log ∧
      graceSteps (d.refuseGraceCalls calls).log = graceSteps d.log := by
  have hturns (event : GoalEvent) (hevent : event ∈ calls.zipIdx.flatMap fun entry =>
      [.graceCall (d.turnNumber, entry.2) entry.1,
        .audited (d.turnNumber, entry.2) entry.1 .refused (some "grace_step_rejected")]) :
      event.isModelTurn = false ∧ event.isGraceStep = false := by
    obtain ⟨entry, -, hentry⟩ := List.mem_flatMap.mp hevent
    rcases List.mem_pair.mp hentry with rfl | rfl
    · exact ⟨rfl, rfl⟩
    · exact ⟨rfl, rfl⟩
  rw [GoalDriver.refuseGraceCalls, modelTurns_append, graceSteps_append, Nat.add_eq_left,
    Nat.add_eq_left, modelTurns, graceSteps, List.countP_eq_zero, List.countP_eq_zero]
  exact ⟨fun event hevent => by simp [hturns event hevent],
    fun event hevent => by simp [hturns event hevent]⟩

end Counting

/-- What holds of a run that has not ended, when its goal has completed `n` turns in all. -/
structure Metered (B n : ℕ) (limits : Option GoalBudget) (goal : GoalRuntimeState) : Prop where
  active : goal.state = .active
  limits : limits = goal.budget
  budget : ∃ budget, goal.budget = some budget ∧ budget.turnBudget = some (B : ℚ)
  used : turnsUsed goal = n
  turns : n ≤ B

/-- What holds of the record that a run returns, after `n` turns and `g` grace steps. -/
structure Returned (B n g : ℕ) (goal : GoalRuntimeState) : Prop where
  active : goal.state ≠ .active
  budget : ∃ budget, goal.budget = some budget ∧ budget.turnBudget = some (B : ℚ)
  used : turnsUsed goal = n
  turns : n ≤ B
  grace : g ≤ 1
  blocked : g ≠ 0 → goal.state = .blocked

/-- The invariant of a run, by its phase. -/
def WithinBudget (B n g : ℕ) (d : GoalDriver) : Prop :=
  match d.phase with
  | .admission | .turn | .yield_ => Metered B n d.budget d.goal ∧ n < B ∧ g = 0
  | .tools _ | .request _ => Metered B n d.budget d.goal ∧ g = 0
  | .grace _ _ => Metered B n d.budget d.goal ∧ g = 1
  | .returned => Returned B n g d.goal
  | .thrown => n ≤ B ∧ g ≤ 1

section Edits

variable {host : GoalHost} {options : RunGoalDrivenLoopOptions} {ts : String} {B n g : ℕ}
  {d : GoalDriver}

theorem Metered.stop (h : Metered B n d.budget d.goal) (hgrace : g ≤ 1) (state : GoalState)
    (kind : GoalTerminalKind) (reason : String) (hstate : state ≠ .active)
    (hblocked : g ≠ 0 → state = .blocked) :
    Returned B n g (stopGoal d.goal ts state kind reason) where
  active := by
    rw [stopGoal_state_of_active h.active]
    exact hstate
  budget := by simpa using h.budget
  used := by simpa [turnsUsed] using h.used
  turns := h.turns
  grace := hgrace
  blocked hne := by
    rw [stopGoal_state_of_active h.active]
    exact hblocked hne

theorem Metered.pause (h : Metered B n d.budget d.goal) (reason : String) :
    WithinBudget B n 0 (d.pause ts reason) :=
  h.stop (Nat.zero_le 1) .paused .technical reason (by simp) (absurd rfl)

theorem Returned.finish (h : Returned B n g d.goal) :
    WithinBudget B n g (d.finish host ts) := by
  have hgoal : (d.finish host ts).goal = d.goal := stopGoal_of_not_active h.active
  show Returned B n g (d.finish host ts).goal
  rwa [hgoal]

theorem Metered.blockOnBudget (h : Metered B n d.budget d.goal) (hgrace : g ≤ 1) (reason : String)
    (report : Option String) : WithinBudget B n g (d.blockOnBudget host ts reason report) :=
  Returned.finish (h.stop hgrace .blocked .business reason (by simp) fun _ => rfl)

theorem Metered.nextTurn (h : Metered B n d.budget d.goal) (hturns : n < B) :
    WithinBudget B n 0 (d.nextTurn host ts) := by
  unfold GoalDriver.nextTurn
  split
  · exact ⟨h, hturns, rfl⟩
  · exact h.pause _

/-- A completed turn is accrued. -/
theorem Metered.accrue (h : Metered B n d.budget d.goal) (hturns : n < B) (tokens elapsedMs : ℚ) :
    Metered B (n + 1) d.budget (if d.budget.isSome then
      accrueGoalBudgetUsage d.goal tokens 1 elapsedMs else d.goal) := by
  obtain ⟨budget, hbudget, hlimit⟩ := h.budget
  have hactive : ¬ d.goal.state ≠ .active := by simp [h.active]
  have hused := h.used
  rw [h.limits, hbudget, Option.isSome_some, if_pos rfl, accrueGoalBudgetUsage, if_neg hactive]
  refine ⟨h.active, hbudget.symm, ⟨budget, hbudget, hlimit⟩, ?_, hturns⟩
  simp only [turnsUsed] at hused
  simp [turnsUsed, hused]

variable (host ts) in
/-- What the end of a turn adds to the log is at most a grace step. -/
theorem Metered.maybeTerminateOnBudget (h : Metered B n d.budget d.goal)
    (result : GenerateWithToolsResult) :
    ∃ g, WithinBudget B n g (d.maybeTerminateOnBudget host ts result) ∧
      modelTurns (d.maybeTerminateOnBudget host ts result).log = modelTurns d.log ∧
      graceSteps (d.maybeTerminateOnBudget host ts result).log = graceSteps d.log + g := by
  obtain ⟨budget, hbudget, hlimit⟩ := h.budget
  unfold GoalDriver.maybeTerminateOnBudget
  split
  · rename_i hleft
    rw [h.limits, hbudget, Option.bind_some] at hleft
    have hturns : n < B := by
      have hlt := lt_of_checkGoalBudgetReached hlimit hleft
      rw [h.used] at hlt
      exact_mod_cast hlt
    exact ⟨0, ⟨h, hturns, rfl⟩, rfl, rfl⟩
  · split
    · exact ⟨1, ⟨h, rfl⟩, modelTurns_emit d _, graceSteps_emit d _⟩
    · exact ⟨0, h.blockOnBudget (Nat.zero_le 1) _ _, rfl, rfl⟩

variable (host options ts) in
theorem Metered.settle (h : Metered B n d.budget d.goal) (result : GenerateWithToolsResult)
    (signal : Option GoalUpdateSignal) :
    ∃ g, WithinBudget B n g (d.settle host options ts result signal) ∧
      modelTurns (d.settle host options ts result signal).log = modelTurns d.log ∧
      graceSteps (d.settle host options ts result signal).log = graceSteps d.log + g := by
  obtain ⟨applied, outcome, -, houtcome, hcases⟩ :=
    GoalDriver.settle_cases host options ts d result signal
  obtain ⟨hlimits, hstats⟩ := applyGoalUpdate_budgets d.goal ts host.toLowerCase applied
    options.blockedPersistTurns
  have hactive := applyGoalUpdate_active_iff ts host.toLowerCase h.active applied
    options.blockedPersistTurns
  rw [← houtcome] at hlimits hstats hactive
  have hbudget : ∃ budget, outcome.state.budget = some budget ∧
      budget.turnBudget = some (B : ℚ) := by
    rw [hlimits]
    exact h.budget
  have hused : turnsUsed outcome.state = n := by rw [← h.used, turnsUsed, turnsUsed, hstats]
  have hturns := modelTurns_emit d (.applied applied outcome.state.state)
  have hgrace := graceSteps_emit d (.applied applied outcome.state.state)
  obtain ⟨hended, hsettle⟩ | ⟨hended, hsettle⟩ := hcases
  · have hstate : outcome.state.state ≠ .active := by simp [hactive, hended]
    rw [hsettle]
    exact ⟨0, Returned.finish ⟨hstate, hbudget, hused, h.turns, Nat.zero_le 1, absurd rfl⟩,
      hturns, hgrace⟩
  · have hnext : Metered B n d.budget (incrementGoalTurn outcome.state ts) :=
      ⟨hactive.mpr hended, h.limits.trans hlimits.symm, hbudget, hused, h.turns⟩
    obtain ⟨g, hwithin, hturns', hgrace'⟩ :=
      Metered.maybeTerminateOnBudget host ts (d := { d.emit
        (.applied applied outcome.state.state) with
          goal := incrementGoalTurn outcome.state ts }) hnext result
    rw [hsettle]
    exact ⟨g, hwithin, hturns'.trans hturns, hgrace'.trans (congrArg (· + g) hgrace)⟩

/-- The turns in the middle of which a run stands. -/
theorem WithinBudget.metered (h : WithinBudget B n g d) (hphase : d.phase.plain) :
    Metered B n d.budget d.goal ∧ g = 0 := by
  unfold WithinBudget at h
  split at h
  · exact ⟨h.1, h.2.2⟩
  · exact ⟨h.1, h.2.2⟩
  · exact ⟨h.1, h.2.2⟩
  · exact h
  all_goals simp_all [DriverPhase.plain]

theorem WithinBudget.le (h : WithinBudget B n g d) : n ≤ B ∧ g ≤ 1 := by
  unfold WithinBudget at h
  split at h
  · exact ⟨h.1.turns, by omega⟩
  · exact ⟨h.1.turns, by omega⟩
  · exact ⟨h.1.turns, by omega⟩
  · exact ⟨h.1.turns, by omega⟩
  · exact ⟨h.1.turns, by omega⟩
  · exact ⟨h.1.turns, by omega⟩
  · exact ⟨h.turns, h.grace⟩
  · exact h

/-- What an edit keeps, for a goal with the turns and grace steps of earlier runs. -/
theorem GoalDriver.Edit.withinBudget {stale : Bool} {d' : GoalDriver} {m k : ℕ}
    (hedit : Edit host options ts false stale d d')
    (h : WithinBudget B (m + modelTurns d.log) (k + graceSteps d.log) d) :
    WithinBudget B (m + modelTurns d'.log) (k + graceSteps d'.log) d' := by
  cases hedit with
  | enter hphase =>
      simp only [WithinBudget, hphase] at h
      exact h
  | pause reason hphase =>
      obtain ⟨hmetered, hgrace⟩ := h.metered hphase
      show WithinBudget B _ (k + graceSteps d.log) _
      rw [hgrace]
      exact hmetered.pause reason
  | throw_ hphase =>
      obtain ⟨hturns, hgrace⟩ := h.le
      exact ⟨hturns, hgrace⟩
  | deadline reason hphase =>
      obtain ⟨hmetered, hgrace⟩ := h.metered (by rw [hphase]; rfl)
      exact hmetered.blockOnBudget (hgrace.le.trans (Nat.zero_le 1)) reason none
  | completeTurn result tokens elapsedMs hphase =>
      simp only [WithinBudget, hphase] at h
      obtain ⟨hmetered, hturns, hgrace⟩ := h
      dsimp only
      rw [modelTurns_emit, graceSteps_emit]
      exact ⟨hmetered.accrue hturns tokens elapsedMs, hgrace⟩
  | loseTurn hphase =>
      simp only [WithinBudget, hphase] at h
      obtain ⟨-, hturns, hgrace⟩ := h
      dsimp only
      rw [modelTurns_emit, graceSteps_emit]
      exact ⟨hturns, hgrace.le.trans (Nat.zero_le 1)⟩
  | interruptTurn reason hcut hphase => cases hcut
  | interruptGrace reason hcut hphase => cases hcut
  | handle status reason govState signal hphase hcall =>
      simp only [WithinBudget, hphase] at h
      dsimp only [GoalDriver.recordToolCall]
      rw [modelTurns_emit, graceSteps_emit]
      exact h
  | request govState hphase hcall =>
      simp only [WithinBudget, hphase] at h
      exact h
  | invoke plan hphase hinvoked =>
      simp only [WithinBudget, hphase] at h
      dsimp only [GoalDriver.invokeTool]
      rw [modelTurns_emit, graceSteps_emit]
      exact h
  | record status reason govState hphase =>
      simp only [WithinBudget, hphase] at h
      dsimp only [GoalDriver.recordToolCall]
      rw [modelTurns_emit, graceSteps_emit]
      exact h
  | settle hphase hrest =>
      obtain ⟨hmetered, hgrace⟩ := h.metered (by rw [hphase]; rfl)
      obtain ⟨g, hwithin, hturns, hsteps⟩ := hmetered.settle host options ts _ _
      rw [hturns, hsteps, ← Nat.add_assoc, hgrace, Nat.zero_add]
      exact hwithin
  | graceReturned result hphase =>
      simp only [WithinBudget, hphase] at h
      obtain ⟨hmetered, hgrace⟩ := h
      obtain ⟨hturns, hsteps⟩ := counts_refuseGraceCalls d result.toolCalls
      show WithinBudget B (m + modelTurns (d.refuseGraceCalls result.toolCalls).log)
        (k + graceSteps (d.refuseGraceCalls result.toolCalls).log) _
      rw [hturns, hsteps]
      exact Metered.blockOnBudget (d := d.refuseGraceCalls result.toolCalls) hmetered hgrace.le _ _
  | nextTurn hphase =>
      simp only [WithinBudget, hphase] at h
      obtain ⟨hmetered, hturns, hgrace⟩ := h
      rw [GoalDriver.nextTurn_log, hgrace]
      exact hmetered.nextTurn hturns
  | peek plan => exact h
  | executeStale hstale hplan hphase =>
      dsimp only
      rw [modelTurns_emit, graceSteps_emit]
      exact h

theorem withinBudget_step {d' : GoalDriver} {m k : ℕ} {action : DriverAction}
    (hinterrupts : d.interrupts options action = false)
    (hstep : d.step host options ts action = some d')
    (h : WithinBudget B (m + modelTurns d.log) (k + graceSteps d.log) d) :
    WithinBudget B (m + modelTurns d'.log) (k + graceSteps d'.log) d' := by
  have hedits := GoalDriver.step_edits hstep
  rw [hinterrupts] at hedits
  clear hstep
  induction hedits with
  | refl => exact h
  | tail _ hedit ih => exact hedit.withinBudget ih

end Edits

section Runs

variable {host : GoalHost} {options : RunGoalDrivenLoopOptions} {ts : String} {B n : ℕ}

variable (ts) in
/-- A returned record is taken as it is, or a paused one becomes active again. -/
theorem startGoal_cases {record : GoalRuntimeState} (hresume : options.resumeFrom = some record)
    (hactive : record.state ≠ .active) :
    startGoal options ts = record ∨
      record.state = .paused ∧ startGoal options ts = { record with
        state := .active, terminalKind := none, terminalReason := none, updatedAt := ts } := by
  have hdemote : demoteActiveOnResume record ts = record := stopGoal_of_not_active hactive
  unfold startGoal
  rw [hresume]
  dsimp only
  rw [hdemote]
  split
  · rename_i h
    exact .inr ⟨h.1, if_neg (not_not.mpr h.1)⟩
  · exact .inl rfl

/-- The invariant when a run begins: its goal is returned at once, or it is active. -/
theorem withinBudget_start {d : GoalDriver} {g : ℕ}
    (hrun : runGoalDrivenLoop host options ts = .ok d)
    (hreturned : (startGoal options ts).state ≠ .active → Returned B n g (startGoal options ts))
    (hactive : (startGoal options ts).state = .active → n < B ∧ g = 0 ∧
      turnsUsed (startGoal options ts) = n ∧
      ∃ budget, options.params.budget.or (startGoal options ts).budget = some budget ∧
        budget.turnBudget = some (B : ℚ)) :
    WithinBudget B n g d ∧ d.log = [] := by
  obtain ⟨maxTurns, ⟨hstate, rfl⟩ | ⟨hstate, rfl⟩⟩ := runGoalDrivenLoop_cases hrun
  · exact ⟨hreturned hstate, rfl⟩
  · obtain ⟨hturns, rfl, hused, hbudget⟩ := hactive hstate
    exact ⟨Metered.nextTurn ⟨hstate, rfl, hbudget, hused, hturns.le⟩ hturns,
      GoalDriver.nextTurn_log _⟩

namespace GoalRuns

/-- The invariant of a sequence of runs. -/
def Budgeted (B : ℕ) (w : GoalRuns) : Prop :=
  match w.current with
  | none => w.earlier = []
  | some (_, d) => WithinBudget B (modelTurns w.earlier + modelTurns d.log)
      (graceSteps w.earlier + graceSteps d.log) d

theorem Budgeted.start {w w' : GoalRuns} (hstart : w.start host options ts = some w')
    (hreturned : (startGoal options ts).state ≠ .active →
      Returned B (modelTurns w.log) (graceSteps w.log) (startGoal options ts))
    (hactive : (startGoal options ts).state = .active → modelTurns w.log < B ∧
      graceSteps w.log = 0 ∧ turnsUsed (startGoal options ts) = modelTurns w.log ∧
      ∃ budget, options.params.budget.or (startGoal options ts).budget = some budget ∧
        budget.turnBudget = some (B : ℚ)) : w'.Budgeted B := by
  unfold GoalRuns.start at hstart
  split at hstart
  · rename_i d hrun
    obtain rfl := Option.some.inj hstart
    obtain ⟨hwithin, hlog⟩ := withinBudget_start hrun hreturned hactive
    show WithinBudget B (modelTurns w.log + modelTurns d.log) (graceSteps w.log + graceSteps d.log) d
    rw [hlog]
    exact hwithin
  · cases hstart

/-- The goal of the first run. -/
theorem Budgeted.create {w' : GoalRuns} (hB : 1 ≤ B) (hresume : options.resumeFrom = none)
    (hbudget : options.params.budget.any (fun budget => budget.turnBudget = some (B : ℚ)))
    (hstart : GoalRuns.start host {} options ts = some w') : w'.Budgeted B := by
  have hgoal : startGoal options ts = createGoal ts options.params := by
    unfold startGoal
    rw [hresume]
  refine Budgeted.start hstart (fun hstate => ?_) fun _ => ⟨hB, rfl, ?_, ?_⟩
  · exact absurd (congrArg (·.state) hgoal) hstate
  · rw [hgoal]
    rfl
  · cases hparams : options.params.budget with
    | none => simp [hparams] at hbudget
    | some budget => exact ⟨budget, rfl, by simpa [hparams] using hbudget⟩

theorem Budgeted.returned {w : GoalRuns} {record : GoalRuntimeState} (h : w.Budgeted B)
    (hrecord : w.record = some record) :
    Returned B (modelTurns w.log) (graceSteps w.log) record := by
  obtain ⟨⟨options, d⟩, hcurrent, hphase⟩ := Option.bind_eq_some_iff.mp hrecord
  unfold Budgeted at h
  rw [hcurrent] at h
  simp only [GoalRuns.log, hcurrent, Option.map_some, Option.getD_some, modelTurns_append,
    graceSteps_append]
  split at hphase
  · rename_i hreturned
    obtain rfl := Option.some.inj hphase
    change d.phase = .returned at hreturned
    simp only [WithinBudget, hreturned] at h
    exact h
  · cases hphase

/-- A later run, on the record that the last one returned. -/
theorem Budgeted.resume {w w' : GoalRuns} {record : GoalRuntimeState} (h : w.Budgeted B)
    (hrecord : w.record = some record) (hresume : options.resumeFrom = some record)
    (hbudget : options.params.budget.all (fun budget => budget.turnBudget = some (B : ℚ)))
    (hok : (startGoal options ts).state ≠ .active ∨ turnsUsed record < B)
    (hstart : w.start host options ts = some w') : w'.Budgeted B := by
  have hreturned := h.returned hrecord
  refine Budgeted.start hstart (fun hstate => ?_) fun hstate => ?_
  · obtain hgoal | ⟨-, hgoal⟩ := startGoal_cases ts hresume hreturned.active
    · rwa [hgoal]
    · exact absurd (congrArg (·.state) hgoal) hstate
  · obtain hgoal | ⟨hpaused, hgoal⟩ := startGoal_cases ts hresume hreturned.active
    · exact absurd (hgoal ▸ hstate) hreturned.active
    · have hgrace : graceSteps w.log = 0 := by
        by_contra hne
        simp [hreturned.blocked hne] at hpaused
      have hturns : turnsUsed record < B := hok.resolve_left (not_not.mpr hstate)
      rw [hreturned.used] at hturns
      obtain ⟨budget, hsome, hlimit⟩ := hreturned.budget
      rw [hgoal]
      refine ⟨by exact_mod_cast hturns, hgrace, hreturned.used, ?_⟩
      cases hparams : options.params.budget with
      | none => exact ⟨budget, hsome, hlimit⟩
      | some given => exact ⟨given, rfl, by simpa [hparams] using hbudget⟩

theorem Budgeted.step {w w' : GoalRuns} {action : GoalRunsAction} (hB : 1 ≤ B)
    (h : w.Budgeted B) (hok : w.checked B action) (hstep : w.step host B action = some w') :
    w'.Budgeted B := by
  cases action with
  | run options ts =>
      simp only [GoalRuns.step] at hstep
      split at hstep
      · rename_i hnone
        split at hstep
        · rename_i hfirst
          obtain rfl : w = {} := by
            unfold Budgeted at h
            rw [hnone] at h
            cases w
            simp_all
          exact Budgeted.create hB hfirst.1 hfirst.2 hstep
        · cases hstep
      · rename_i record hcurrent hrecord
        split at hstep
        · rename_i hlater
          refine h.resume hrecord hlater.1 hlater.2 ?_ hstep
          simpa [checked, hrecord] using hok
        · cases hstep
      · cases hstep
  | step action ts =>
      obtain ⟨⟨options, d⟩, hcurrent, hstep⟩ := Option.bind_eq_some_iff.mp hstep
      obtain ⟨d', hd', rfl⟩ := Option.map_eq_some_iff.mp hstep
      have hinterrupts : d.interrupts options action = false := by
        simpa [checked, hcurrent] using hok
      unfold Budgeted at h
      rw [hcurrent] at h
      exact withinBudget_step hinterrupts hd' h

theorem Budgeted.le {w : GoalRuns} (h : w.Budgeted B) :
    modelTurns w.log ≤ B ∧ graceSteps w.log ≤ 1 := by
  unfold Budgeted at h
  cases hcurrent : w.current with
  | none =>
      rw [hcurrent] at h
      simp [GoalRuns.log, hcurrent, h, modelTurns, graceSteps]
  | some run =>
      rw [hcurrent] at h
      simpa [GoalRuns.log, hcurrent, modelTurns_append, graceSteps_append] using h.le

/-- In runs without a resumed exhausted record or such a cancellation, the goal completes at most
as many turns as its budget allows, and runs one grace step at most. -/
theorem turns_within_budget (hB : 1 ≤ B) {w : GoalRuns}
    (h : (system host B).Reach (fun w action => w.checked B action) w) :
    modelTurns w.log ≤ B ∧ graceSteps w.log ≤ 1 := by
  refine Budgeted.le (System.Reach.invariant (I := Budgeted B) ?_ ?_ h)
  · rintro w rfl
    rfl
  · exact fun w action w' hw hok hstep => hw.step hB hok hstep

end GoalRuns

end Runs

namespace GoalRuns

def oneTurn : RunGoalDrivenLoopOptions where
  params := { goalId := "g", objective := "o", budget := some { turnBudget := some 1 } }

/-- A turn with a tool call uses the budget up, and its grace step blocks the goal. -/
theorem turns_within_budget_grace :
    ∃ w, (system plainHost 1).Reach (fun w action => w.checked 1 action) w ∧
      (modelTurns w.log = 1 ∧ graceSteps w.log = 1) ∧
      modelTurns w.log ≤ 1 ∧ graceSteps w.log ≤ 1 := by
  obtain ⟨w, hreach, hcounts⟩ := System.exists_reach_of_execOk (S := system plainHost 1)
    (fun w action => w.checked 1 action)
    [.run oneTurn "t", .step .admitted "t",
      .step (.modelReturned { toolCalls := [⟨"context_rewind", .null⟩] } 0 0) "t",
      .step (.call .done) "t", .step (.graceReturned {}) "t"]
    (fun w => modelTurns w.log = 1 ∧ graceSteps w.log = 1) rfl (by decide +kernel)
  exact ⟨w, hreach, hcounts, turns_within_budget le_rfl hreach⟩

def manualTurn : RunGoalDrivenLoopOptions :=
  { oneTurn with manualDrive := true }

/-- The record after a tool was held back for its approval. -/
def heldRecord : GoalRuntimeState :=
  { createGoal "t" oneTurn.params with
    state := .paused
    terminalKind := some .technical
    terminalReason := some "manual drive awaiting_approval before tool shell"
    budgetStats := some ⟨0, 1, 0⟩ }

/-- A turn that ends with a held tool is not checked, and a resumed goal does not check at its
start: a budget of one turn lets two turns complete. -/
theorem heldTool_overruns :
    ∃ w, (system plainHost 1).Reachable w ∧ modelTurns w.log = 2 :=
  System.exists_reachable_of_exec (S := system plainHost 1)
    [.run manualTurn "t", .step .admitted "t",
      .step (.modelReturned { toolCalls := [⟨"shell", .null⟩] } 0 0) "t",
      .step (.call .done) "t", .step .peek "t", .step (.drive .pending) "t",
      .run { manualTurn with resumeFrom := some heldRecord, resume := true } "t",
      .step .admitted "t", .step (.modelReturned {} 0 0) "t"]
    (fun w => modelTurns w.log = 2) rfl (by decide +kernel)

end GoalRuns

end Kyberion.Workforce
