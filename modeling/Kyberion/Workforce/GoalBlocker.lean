import Mathlib.Algebra.Order.Ring.Rat
import Kyberion.Transition
import Kyberion.Workforce.GoalSteps

/-!
The streak of a blocker over the whole life of a goal. Runs, the records that are saved from them and
the copies of these each carry the signals that were applied on the way to them.
-/

namespace Kyberion.Workforce

open Js Kyberion.Transition

section Words

/-- The words of a text, by white space. -/
def words (cs : List Char) : List (List Char) :=
  (cs.splitOnP isWhiteSpace).filter (· ≠ [])

/-- Collapsing white space keeps the first piece of a text and the words behind it. -/
theorem splitOnP_collapseWhiteSpace (cs : List Char) :
    ∃ first rest rest', cs.splitOnP isWhiteSpace = first :: rest ∧
      (collapseWhiteSpace cs).splitOnP isWhiteSpace = first :: rest' ∧
      rest.filter (· ≠ []) = rest'.filter (· ≠ []) := by
  induction cs with
  | nil => exact ⟨[], [], [], rfl, rfl, rfl⟩
  | cons c cs ih =>
      obtain ⟨first, rest, rest', hrest, hrest', hwords⟩ := ih
      by_cases hc : isWhiteSpace c
      · refine ⟨[], first :: rest, ?_⟩
        rw [collapseWhiteSpace, if_pos hc, List.splitOnP_cons_eq_if_modifyHead, if_pos hc, hrest]
        split
        · rename_i tail hcollapse
          -- the text behind begins with white space too
          rw [hcollapse, List.splitOnP_cons_eq_if_modifyHead, if_pos (by decide)] at hrest'
          obtain ⟨rfl, rfl⟩ := List.cons.inj hrest'
          exact ⟨_, rfl, by rw [List.splitOnP_cons_eq_if_modifyHead, if_pos (by decide)], by simpa using hwords⟩
        · refine ⟨first :: rest', rfl, ?_, ?_⟩
          · rw [List.splitOnP_cons_eq_if_modifyHead, if_pos (by decide), hrest']
          · simp only [List.filter_cons, hwords]
      · refine ⟨c :: first, rest, rest', ?_, ?_, hwords⟩
        · rw [List.splitOnP_cons_eq_if_modifyHead, if_neg hc, hrest]
          rfl
        · rw [collapseWhiteSpace, if_neg hc, List.splitOnP_cons_eq_if_modifyHead, if_neg hc, hrest']
          rfl

theorem words_collapseWhiteSpace (cs : List Char) : words (collapseWhiteSpace cs) = words cs := by
  obtain ⟨first, rest, rest', hrest, hrest', hwords⟩ := splitOnP_collapseWhiteSpace cs
  rw [words, words, hrest, hrest', List.filter_cons, List.filter_cons, hwords]

end Words

section Reasons

variable (toLowerCase : String → String)

/-- The words of a reason, whatever their case. -/
def reasonWords (reason : Option String) : List (List Char) :=
  words (toLowerCase (trim (reason.getD ""))).toList

/-- A missing or blank reason counts as unspecified. -/
def statedWords (reason : Option String) : List (List Char) :=
  if reasonWords toLowerCase reason = [] then ["unspecified".toList]
  else reasonWords toLowerCase reason

theorem statedWords_eq_of_blockerSignature {reason reason' : Option String}
    (h : blockerSignature toLowerCase reason = blockerSignature toLowerCase reason') :
    statedWords toLowerCase reason = statedWords toLowerCase reason' := by
  have hsignature (reason : Option String) : statedWords toLowerCase reason =
      if words (blockerSignature toLowerCase reason).toList = [] then ["unspecified".toList]
      else words (blockerSignature toLowerCase reason).toList := by
    have hnil : words [] = [] := rfl
    have hunspecified : words "unspecified".toList = ["unspecified".toList] := by decide
    unfold blockerSignature statedWords reasonWords
    dsimp only
    rw [← words_collapseWhiteSpace]
    generalize collapseWhiteSpace _ = cs
    by_cases hempty : String.ofList cs = ""
    · obtain rfl : cs = [] := by simpa using congrArg String.toList hempty
      rw [if_pos hempty, if_pos hnil, hunspecified]
      rfl
    · simp only [if_neg hempty, String.toList_ofList]
  rw [hsignature, hsignature, h]

section Splits

variable {α : Type} {P : List α → α → Prop} {xs : List α} {x : α}

/-- Each element of a list with what is in front of it. -/
def Splits (P : List α → α → Prop) (xs : List α) : Prop :=
  ∀ before x after, xs = before ++ x :: after → P before x

theorem splits_nil : Splits P [] := by
  simp [Splits]

theorem Splits.snoc (h : Splits P xs) (hx : P xs x) : Splits P (xs ++ [x]) := by
  intro before y after hsplit
  obtain rfl | ⟨after, last, rfl⟩ := List.eq_nil_or_concat' after
  · obtain ⟨rfl, hy⟩ := List.append_inj' hsplit rfl
    cases hy
    exact hx
  · rw [← List.cons_append, ← List.append_assoc] at hsplit
    exact h _ _ _ (List.append_inj_left' hsplit rfl)

end Splits

end Reasons

/-- The applied signals of a goal, each with the state of the goal after it. -/
abbrev AppliedSignals := List (GoalUpdateSignal × GoalState)

section Streaks

variable (N : ℕ) (toLowerCase : String → String)

/-- The last `N` signals up to one are blocked, for the reason that it states. -/
def Persistent (before : AppliedSignals) (signal : GoalUpdateSignal) : Prop :=
  ∃ earlier recent, before.map Prod.fst ++ [signal] = earlier ++ recent ∧ recent.length = N ∧
    ∀ other ∈ recent, other.status = .blocked ∧
      statedWords toLowerCase other.reason = statedWords toLowerCase signal.reason

/-- What a signal and the state of the goal after it have to do with the signals before. -/
def Justified (before : AppliedSignals) (entry : GoalUpdateSignal × GoalState) : Prop :=
  (entry.2 = .blocked → entry.1.impossible = false → Persistent N toLowerCase before entry.1) ∧
    (entry.2 = .complete → entry.1.status = .complete)

/-- The invariant of a goal record and the signals that were applied on the way to it. -/
structure Earned (goal : GoalRuntimeState) (signals : AppliedSignals) : Prop where
  streak : goal.state ≠ .blocked → ∃ earlier recent,
    signals.map Prod.fst = earlier ++ recent ∧ (recent.length : ℚ) = goal.blockedStreak ∧
      ∀ other ∈ recent, other.status = .blocked ∧
        goal.pendingBlockerSignature = some (blockerSignature toLowerCase other.reason)
  justified : Splits (Justified N toLowerCase) signals
  completed : goal.state = .complete → ∃ before signal, signals = before ++ [(signal, .complete)]

variable {N toLowerCase} {goal : GoalRuntimeState} {signals : AppliedSignals}

/-- A change that leaves the streak alone, and neither unblocks the goal nor completes it. -/
theorem Earned.of_same {goal' : GoalRuntimeState} (h : Earned N toLowerCase goal signals)
    (hstreak : goal'.blockedStreak = goal.blockedStreak)
    (hpending : goal'.pendingBlockerSignature = goal.pendingBlockerSignature)
    (hblocked : goal.state = .blocked → goal'.state = .blocked)
    (hcomplete : goal'.state = .complete → goal.state = .complete) :
    Earned N toLowerCase goal' signals where
  streak hstate := by
    rw [hstreak, hpending]
    exact h.streak (mt hblocked hstate)
  justified := h.justified
  completed hstate := h.completed (hcomplete hstate)

/-- The signals that a blocker has recurred in, when one more names it. -/
theorem Earned.recurring (h : Earned N toLowerCase goal signals) (hactive : goal.state = .active)
    {signal : GoalUpdateSignal} (hsignal : signal.status = .blocked) :
    ∃ earlier recent, signals.map Prod.fst ++ [signal] = earlier ++ recent ∧
      (recent.length : ℚ) =
        (if goal.pendingBlockerSignature = some (blockerSignature toLowerCase signal.reason) then
          goal.blockedStreak + 1 else 1) ∧
      ∀ other ∈ recent, other.status = .blocked ∧
        blockerSignature toLowerCase signal.reason = blockerSignature toLowerCase other.reason := by
  split
  · rename_i hpending
    obtain ⟨earlier, recent, hsplit, hlength, hrecent⟩ := h.streak (by simp [hactive])
    refine ⟨earlier, recent ++ [signal], by rw [hsplit, List.append_assoc], ?_, ?_⟩
    · rw [List.length_append, ← hlength]
      simp
    · intro other hother
      obtain hother | hother := List.mem_append.mp hother
      · obtain ⟨hstatus, hsignature⟩ := hrecent other hother
        exact ⟨hstatus, Option.some.inj (hpending.symm.trans hsignature)⟩
      · obtain rfl := List.mem_singleton.mp hother
        exact ⟨hsignal, rfl⟩
  · refine ⟨signals.map Prod.fst, [signal], rfl, by simp, fun other hother => ?_⟩
    obtain rfl := List.mem_singleton.mp hother
    exact ⟨hsignal, rfl⟩

theorem Earned.applyBlocker (h : Earned N toLowerCase goal signals)
    (hactive : goal.state = .active) (ts : String) {signal : GoalUpdateSignal}
    (hsignal : signal.status = .blocked) :
    let outcome := applyBlocker goal ts toLowerCase signal N
    Earned N toLowerCase outcome.state (signals ++ [(signal, outcome.state.state)]) := by
  obtain ⟨earlier, recent, hsplit, hlength, hrecent⟩ := h.recurring hactive hsignal
  unfold Workforce.applyBlocker
  dsimp only
  rw [← hlength]
  split
  · rename_i hpersists
    refine ⟨fun hstate => absurd rfl hstate, h.justified.snoc ⟨fun _ _ => ?_, by simp⟩, by simp⟩
    have hN : N ≤ recent.length := by exact_mod_cast hpersists
    refine ⟨earlier ++ recent.take (recent.length - N), recent.drop (recent.length - N), ?_, ?_, ?_⟩
    · rw [hsplit, List.append_assoc, List.take_append_drop]
    · rw [List.length_drop]
      omega
    · intro other hother
      obtain ⟨hstatus, hsignature⟩ := hrecent other (List.mem_of_mem_drop hother)
      exact ⟨hstatus, (statedWords_eq_of_blockerSignature toLowerCase hsignature).symm⟩
  · refine ⟨fun _ => ⟨earlier, recent, ?_, rfl, fun other hother => ?_⟩,
      h.justified.snoc ⟨by simp [hactive], by simp [hactive]⟩, by simp [hactive]⟩
    · rw [List.map_append]
      exact hsplit
    · obtain ⟨hstatus, hsignature⟩ := hrecent other hother
      exact ⟨hstatus, congrArg some hsignature⟩

theorem Earned.apply (h : Earned N toLowerCase goal signals) (hactive : goal.state = .active)
    (ts : String) (signal : GoalUpdateSignal) {threshold : Option ℚ}
    (hthreshold : threshold.getD GOAL_BLOCKED_PERSIST_TURNS = N) :
    let outcome := applyGoalUpdate goal ts toLowerCase signal threshold
    Earned N toLowerCase outcome.state (signals ++ [(signal, outcome.state.state)]) := by
  have hrunning : ¬ goal.state ≠ .active := not_not.mpr hactive
  unfold applyGoalUpdate
  rw [hthreshold]
  dsimp only
  rw [if_neg hrunning]
  split
  · exact ⟨fun _ => ⟨_, [], (List.append_nil _).symm, rfl, by simp⟩,
      h.justified.snoc ⟨by simp [hactive], by simp [hactive]⟩, by simp [hactive]⟩
  · rename_i hsignal
    exact ⟨fun _ => ⟨_, [], (List.append_nil _).symm, rfl, by simp⟩,
      h.justified.snoc ⟨by simp, fun _ => hsignal⟩, fun _ => ⟨_, _, rfl⟩⟩
  · rename_i hsignal
    split
    · rename_i himpossible
      exact ⟨fun hstate => absurd rfl hstate,
        h.justified.snoc ⟨fun _ hpossible => by simp [himpossible] at hpossible, by simp⟩, by simp⟩
    · exact h.applyBlocker hactive ts hsignal

end Streaks

def GoalEvent.application : GoalEvent → Option (GoalUpdateSignal × GoalState)
  | .applied signal state => some (signal, state)
  | _ => none

/-- The signals that a run has applied so far. -/
def applications (log : List GoalEvent) : AppliedSignals :=
  log.filterMap GoalEvent.application

section Runs

variable {N : ℕ} {host : GoalHost} {options : RunGoalDrivenLoopOptions} {ts : String}
  {goal : GoalRuntimeState} {signals : AppliedSignals} {d : GoalDriver}

theorem Earned.stop (h : Earned N host.toLowerCase goal signals) {state : GoalState}
    (kind : GoalTerminalKind) (reason : String) (hstate : state ≠ .complete) :
    Earned N host.toLowerCase (stopGoal goal ts state kind reason) signals := by
  by_cases hactive : goal.state = .active
  · rw [stopGoal, if_neg (not_not.mpr hactive)]
    exact h.of_same rfl rfl (by simp [hactive]) fun hcomplete => absurd hcomplete hstate
  · rwa [stopGoal_of_not_active hactive]

theorem Earned.resume (h : Earned N host.toLowerCase goal signals) :
    Earned N host.toLowerCase (resumeGoal goal ts) signals := by
  unfold resumeGoal
  split
  · exact h
  · rename_i hpaused
    exact h.of_same rfl rfl (fun hblocked => by simp [hblocked] at hpaused) (by simp)

theorem Earned.accrue (h : Earned N host.toLowerCase goal signals) (tokens turns wallClockMs : ℚ) :
    Earned N host.toLowerCase (accrueGoalBudgetUsage goal tokens turns wallClockMs) signals := by
  unfold accrueGoalBudgetUsage
  split
  · exact h
  · exact h.of_same rfl rfl id id

/-- A run whose signals come behind those of the record that it resumed from. -/
def EarnedRun (N : ℕ) (host : GoalHost) (signals : AppliedSignals) (d : GoalDriver) : Prop :=
  Earned N host.toLowerCase d.goal (signals ++ applications d.log) ∧
    (d.phase.ended = false → d.goal.state = .active)

theorem applications_emit {event : GoalEvent} (h : event.application = none) :
    applications (d.emit event).log = applications d.log := by
  simp [GoalDriver.emit, applications, h]

theorem applications_refuseGraceCalls (calls : List ToolCall) :
    applications (d.refuseGraceCalls calls).log = applications d.log := by
  have hnone : applications (calls.zipIdx.flatMap fun entry =>
      [.graceCall (d.turnNumber, entry.2) entry.1,
        .audited (d.turnNumber, entry.2) entry.1 .refused (some "grace_step_rejected")]) = [] := by
    simp [applications, List.filterMap_flatMap, GoalEvent.application]
  rw [GoalDriver.refuseGraceCalls, applications, List.filterMap_append]
  exact (congrArg (applications d.log ++ ·) hnone).trans (List.append_nil _)

theorem earnedRun_blockOnBudget (reason : String) (report : Option String)
    (h : Earned N host.toLowerCase d.goal (signals ++ applications d.log)) :
    EarnedRun N host signals (d.blockOnBudget host ts reason report) :=
  ⟨(h.stop .business reason (by simp)).stop .technical _ (by simp), by
    simp [GoalDriver.blockOnBudget, GoalDriver.finish, DriverPhase.ended]⟩

theorem earnedRun_maybeTerminateOnBudget (result : GenerateWithToolsResult)
    (hactive : d.goal.state = .active)
    (h : Earned N host.toLowerCase d.goal (signals ++ applications d.log)) :
    EarnedRun N host signals (d.maybeTerminateOnBudget host ts result) := by
  unfold GoalDriver.maybeTerminateOnBudget
  split
  · exact ⟨h, fun _ => hactive⟩
  · split
    · refine ⟨?_, fun _ => hactive⟩
      dsimp only
      rw [applications_emit rfl]
      exact h
    · exact earnedRun_blockOnBudget _ _ h

theorem earnedRun_settle (result : GenerateWithToolsResult) (signal : Option GoalUpdateSignal)
    (hthreshold : options.blockedPersistTurns.getD GOAL_BLOCKED_PERSIST_TURNS = N)
    (hactive : d.goal.state = .active)
    (h : Earned N host.toLowerCase d.goal (signals ++ applications d.log)) :
    EarnedRun N host signals (d.settle host options ts result signal) := by
  obtain ⟨applied, outcome, -, houtcome, hcases⟩ :=
    GoalDriver.settle_cases host options ts d result signal
  have hearned := h.apply hactive ts applied hthreshold
  have hstate := applyGoalUpdate_active_iff ts host.toLowerCase hactive applied
    options.blockedPersistTurns
  rw [← houtcome] at hearned hstate
  have hlog : applications (d.emit (.applied applied outcome.state.state)).log =
      applications d.log ++ [(applied, outcome.state.state)] := by
    simp [GoalDriver.emit, applications, GoalEvent.application]
  dsimp only at hearned
  rw [List.append_assoc, ← hlog] at hearned
  obtain ⟨-, hsettle⟩ | ⟨hended, hsettle⟩ := hcases
  · rw [hsettle]
    exact ⟨hearned.stop .technical _ (by simp), by simp [GoalDriver.finish, DriverPhase.ended]⟩
  · rw [hsettle]
    refine earnedRun_maybeTerminateOnBudget result (hstate.mpr hended) ?_
    exact hearned.of_same rfl rfl id id

theorem GoalDriver.Edit.earned {interrupted stale : Bool} {d' : GoalDriver}
    (hthreshold : options.blockedPersistTurns.getD GOAL_BLOCKED_PERSIST_TURNS = N)
    (hedit : Edit host options ts interrupted stale d d') (h : EarnedRun N host signals d) :
    EarnedRun N host signals d' := by
  have hended {d' : GoalDriver} (hlog : applications d'.log = applications d.log)
      (hgoal : Earned N host.toLowerCase d'.goal (signals ++ applications d.log))
      (hphase : d'.phase.ended = true) : EarnedRun N host signals d' :=
    ⟨by rwa [hlog], fun hlive => by simp [hphase] at hlive⟩
  have hrunning {d' : GoalDriver} (hphase : d.phase.ended = false)
      (hlog : applications d'.log = applications d.log) (hgoal : d'.goal = d.goal) :
      EarnedRun N host signals d' :=
    ⟨by rw [hlog, hgoal]; exact h.1, fun _ => by rw [hgoal]; exact h.2 hphase⟩
  cases hedit with
  | enter hphase => exact hrunning (by rw [hphase]; rfl) rfl rfl
  | pause reason hphase | interruptGrace reason hcut hphase =>
      exact hended rfl (h.1.stop .technical reason (by simp)) rfl
  | throw_ hphase => exact hended rfl h.1 rfl
  | deadline reason hphase => exact earnedRun_blockOnBudget reason none h.1
  | completeTurn result tokens elapsedMs hphase =>
      have hactive := h.2 (by rw [hphase]; rfl)
      refine ⟨?_, fun _ => ?_⟩
      · dsimp only
        rw [applications_emit rfl]
        split
        · exact h.1.accrue _ _ _
        · exact h.1
      · dsimp only
        split
        · rwa [accrueGoalBudgetUsage_state]
        · exact hactive
  | loseTurn hphase => exact hended (applications_emit rfl) h.1 rfl
  | interruptTurn reason hcut hphase =>
      exact hended (applications_emit rfl) (h.1.stop .technical reason (by simp)) rfl
  | handle status reason govState signal hphase hcall =>
      exact hrunning (by rw [hphase]; rfl) (applications_emit rfl) rfl
  | request govState hphase hcall => exact hrunning (by rw [hphase]; rfl) rfl rfl
  | invoke plan hphase hinvoked =>
      exact hrunning (by rw [hphase]; rfl) (applications_emit rfl) rfl
  | record status reason govState hphase =>
      exact hrunning (by rw [hphase]; rfl) (applications_emit rfl) rfl
  | settle hphase hrest =>
      exact earnedRun_settle _ _ hthreshold (h.2 (by rw [hphase]; rfl)) h.1
  | graceReturned result hphase =>
      refine earnedRun_blockOnBudget (d := d.refuseGraceCalls result.toolCalls) _ _ ?_
      rw [applications_refuseGraceCalls]
      exact h.1
  | nextTurn hphase =>
      unfold GoalDriver.nextTurn
      split
      · exact hrunning (by rw [hphase]; rfl) rfl rfl
      · exact hended rfl (h.1.stop .technical _ (by simp)) rfl
  | peek plan => exact h
  | executeStale hstale hplan hphase =>
      exact ⟨by rw [applications_emit rfl]; exact h.1, h.2⟩

theorem earnedRun_step {d' : GoalDriver} {action : DriverAction}
    (hthreshold : options.blockedPersistTurns.getD GOAL_BLOCKED_PERSIST_TURNS = N)
    (hstep : d.step host options ts action = some d') (h : EarnedRun N host signals d) :
    EarnedRun N host signals d' := by
  have hedits := GoalDriver.step_edits hstep
  clear hstep
  induction hedits with
  | refl => exact h
  | tail _ hedit ih => exact hedit.earned hthreshold ih

theorem earnedRun_start (hrun : runGoalDrivenLoop host options ts = .ok d)
    (h : Earned N host.toLowerCase (startGoal options ts) signals) : EarnedRun N host signals d := by
  obtain ⟨maxTurns, ⟨-, rfl⟩ | ⟨hactive, rfl⟩⟩ := runGoalDrivenLoop_cases hrun
  · exact ⟨by simpa [applications] using h, by simp [DriverPhase.ended]⟩
  · have hgoal : Earned N host.toLowerCase { startGoal options ts with
        budget := options.params.budget.or (startGoal options ts).budget }
        (signals ++ applications []) := by
      rw [applications, List.filterMap_nil, List.append_nil]
      exact h.of_same rfl rfl id id
    unfold GoalDriver.nextTurn
    split
    · exact ⟨hgoal, fun _ => hactive⟩
    · exact ⟨hgoal.stop .technical _ (by simp), by simp [GoalDriver.finish, DriverPhase.ended]⟩

end Runs

/-- A run, with the signals of the record that it resumed from. -/
structure GoalRun where
  options : RunGoalDrivenLoopOptions
  signals : AppliedSignals
  driver : GoalDriver

/-- Everything that has become of a goal: its runs, and the records that were saved or copied. -/
structure GoalWorld where
  runs : List GoalRun := []
  records : List (GoalRuntimeState × AppliedSignals) := []

inductive GoalWorldAction
  | create (options : RunGoalDrivenLoopOptions) (ts : String)
  | resume (record : ℕ) (options : RunGoalDrivenLoopOptions) (ts : String)
  | step (run : ℕ) (action : DriverAction) (ts : String)
  /-- The goal of a run is persisted, at any moment of it. -/
  | save (run : ℕ)
  | pauseRecord (record : ℕ) (reason ts : String)
  | demoteRecord (record : ℕ) (ts : String)
  | resumeRecord (record : ℕ) (ts : String)

namespace GoalWorld

/-- Each goal record there is, with the signals that were applied on the way to it. -/
def goals (w : GoalWorld) : List (GoalRuntimeState × AppliedSignals) :=
  w.records ++ w.runs.map fun run => (run.driver.goal, run.signals ++ applications run.driver.log)

def start (host : GoalHost) (w : GoalWorld) (options : RunGoalDrivenLoopOptions) (ts : String)
    (signals : AppliedSignals) : Option GoalWorld :=
  match runGoalDrivenLoop host options ts with
  | .ok driver => some { w with runs := w.runs ++ [{ options, signals, driver }] }
  | .error _ => none

/-- A changed copy of a record. -/
def copyRecord (w : GoalWorld) (record : ℕ) (f : GoalRuntimeState → GoalRuntimeState) :
    Option GoalWorld :=
  w.records[record]?.map fun entry => { w with records := w.records ++ [(f entry.1, entry.2)] }

variable (host : GoalHost) (N : ℕ)

def step (w : GoalWorld) : GoalWorldAction → Option GoalWorld
  | .create options ts =>
      if options.resumeFrom = none ∧
          options.blockedPersistTurns.getD GOAL_BLOCKED_PERSIST_TURNS = N then
        w.start host options ts []
      else none
  | .resume record options ts =>
      w.records[record]?.bind fun entry =>
        if options.resumeFrom = some entry.1 ∧
            options.blockedPersistTurns.getD GOAL_BLOCKED_PERSIST_TURNS = N then
          w.start host options ts entry.2
        else none
  | .step run action ts =>
      w.runs[run]?.bind fun entry =>
        (entry.driver.step host entry.options ts action).map fun driver =>
          { w with runs := w.runs.set run { entry with driver } }
  | .save run =>
      w.runs[run]?.map fun entry => { w with
        records := w.records ++
          [(entry.driver.goal, entry.signals ++ applications entry.driver.log)] }
  | .pauseRecord record reason ts => w.copyRecord record (pauseGoal · ts reason)
  | .demoteRecord record ts => w.copyRecord record (demoteActiveOnResume · ts)
  | .resumeRecord record ts => w.copyRecord record (resumeGoal · ts)

/-- Every run of a goal with the same threshold. -/
def system : System GoalWorld GoalWorldAction where
  init w := w = {}
  step := step host N

variable {host N}

structure Earned (host : GoalHost) (N : ℕ) (w : GoalWorld) : Prop where
  runs : ∀ run ∈ w.runs, EarnedRun N host run.signals run.driver ∧
    run.options.blockedPersistTurns.getD GOAL_BLOCKED_PERSIST_TURNS = N
  records : ∀ entry ∈ w.records, Workforce.Earned N host.toLowerCase entry.1 entry.2

theorem earned_createGoal (ts : String) (params : CreateGoalParams) :
    Workforce.Earned N host.toLowerCase (createGoal ts params) [] where
  streak _ := ⟨[], [], rfl, rfl, by simp⟩
  justified := splits_nil
  completed hstate := by simp [createGoal] at hstate

theorem earned_startGoal {options : RunGoalDrivenLoopOptions} {record : GoalRuntimeState}
    {signals : AppliedSignals} (ts : String) (hresume : options.resumeFrom = some record)
    (h : Workforce.Earned N host.toLowerCase record signals) :
    Workforce.Earned N host.toLowerCase (startGoal options ts) signals := by
  unfold startGoal
  rw [hresume]
  dsimp only
  split
  · exact (h.stop .technical _ (by simp)).resume
  · exact h.stop .technical _ (by simp)

theorem Earned.start {w w' : GoalWorld} {options : RunGoalDrivenLoopOptions} {ts : String}
    {signals : AppliedSignals} (h : w.Earned host N)
    (hthreshold : options.blockedPersistTurns.getD GOAL_BLOCKED_PERSIST_TURNS = N)
    (hgoal : Workforce.Earned N host.toLowerCase (startGoal options ts) signals)
    (hstart : w.start host options ts signals = some w') : w'.Earned host N := by
  unfold GoalWorld.start at hstart
  split at hstart
  · rename_i driver hrun
    obtain rfl := Option.some.inj hstart
    refine ⟨fun run hmem => ?_, h.records⟩
    obtain hmem | hmem := List.mem_append.mp hmem
    · exact h.runs run hmem
    · obtain rfl := List.mem_singleton.mp hmem
      exact ⟨earnedRun_start hrun hgoal, hthreshold⟩
  · cases hstart

theorem Earned.addRecord {w : GoalWorld} {goal : GoalRuntimeState} {signals : AppliedSignals}
    (h : w.Earned host N) (hgoal : Workforce.Earned N host.toLowerCase goal signals) :
    Earned host N { w with records := w.records ++ [(goal, signals)] } := by
  refine ⟨h.runs, fun entry hmem => ?_⟩
  obtain hmem | hmem := List.mem_append.mp hmem
  · exact h.records entry hmem
  · obtain rfl := List.mem_singleton.mp hmem
    exact hgoal

theorem Earned.copyRecord {w w' : GoalWorld} {record : ℕ}
    {f : GoalRuntimeState → GoalRuntimeState} (h : w.Earned host N)
    (hf : ∀ goal signals, Workforce.Earned N host.toLowerCase goal signals →
      Workforce.Earned N host.toLowerCase (f goal) signals)
    (hcopy : w.copyRecord record f = some w') : w'.Earned host N := by
  obtain ⟨entry, hentry, rfl⟩ := Option.map_eq_some_iff.mp hcopy
  exact h.addRecord (hf _ _ (h.records entry (List.mem_of_getElem? hentry)))

theorem Earned.step {w w' : GoalWorld} {action : GoalWorldAction} (h : w.Earned host N)
    (hstep : w.step host N action = some w') : w'.Earned host N := by
  cases action with
  | create options ts =>
      simp only [GoalWorld.step] at hstep
      split at hstep
      · rename_i hnew
        refine h.start hnew.2 ?_ hstep
        unfold startGoal
        rw [hnew.1]
        exact earned_createGoal ts options.params
      · cases hstep
  | resume record options ts =>
      obtain ⟨entry, hentry, hstep⟩ := Option.bind_eq_some_iff.mp hstep
      split at hstep
      · rename_i hold
        refine h.start hold.2 (earned_startGoal ts hold.1 ?_) hstep
        exact h.records entry (List.mem_of_getElem? hentry)
      · cases hstep
  | step run action ts =>
      obtain ⟨entry, hentry, hstep⟩ := Option.bind_eq_some_iff.mp hstep
      obtain ⟨driver, hdriver, rfl⟩ := Option.map_eq_some_iff.mp hstep
      obtain ⟨hrun, hthreshold⟩ := h.runs entry (List.mem_of_getElem? hentry)
      refine ⟨fun run' hmem => ?_, h.records⟩
      obtain hmem | rfl := List.mem_or_eq_of_mem_set hmem
      · exact h.runs run' hmem
      · exact ⟨earnedRun_step hthreshold hdriver hrun, hthreshold⟩
  | save run =>
      obtain ⟨entry, hentry, rfl⟩ := Option.map_eq_some_iff.mp hstep
      exact h.addRecord (h.runs entry (List.mem_of_getElem? hentry)).1.1
  | pauseRecord record reason ts =>
      exact h.copyRecord (fun goal signals hgoal => hgoal.stop .technical reason (by simp)) hstep
  | demoteRecord record ts =>
      exact h.copyRecord (fun goal signals hgoal => hgoal.stop .technical _ (by simp)) hstep
  | resumeRecord record ts =>
      exact h.copyRecord (fun goal signals hgoal => hgoal.resume) hstep

theorem Earned.goal {w : GoalWorld} (h : w.Earned host N)
    {entry : GoalRuntimeState × AppliedSignals} (hmem : entry ∈ w.goals) :
    Workforce.Earned N host.toLowerCase entry.1 entry.2 := by
  obtain hmem | hmem := List.mem_append.mp hmem
  · exact h.records entry hmem
  · obtain ⟨run, hrun, rfl⟩ := List.mem_map.mp hmem
    exact (h.runs run hrun).1.1

/-- Whatever becomes of a goal: a signal that blocks it without the impossible mark is the last of
`N` blocked signals with one stated reason, and only a structured complete completes it. -/
theorem blocked_only_persistent {w : GoalWorld} (h : (system host N).Reachable w) :
    ∀ entry ∈ w.goals,
      (∀ before signal after, entry.2 = before ++ (signal, .blocked) :: after →
        signal.impossible = false → Persistent N host.toLowerCase before signal) ∧
      (∀ before signal after, entry.2 = before ++ (signal, .complete) :: after →
        signal.status = .complete) ∧
      (entry.1.state = .complete → ∃ before signal, entry.2 = before ++ [(signal, .complete)]) := by
  have hearned : w.Earned host N := System.Reach.invariant (I := Earned host N)
    (by rintro w rfl; exact ⟨by simp, by simp⟩) (fun w action w' hw _ hstep => hw.step hstep) h
  intro entry hmem
  have hgoal := hearned.goal hmem
  exact ⟨fun before signal after hsplit => (hgoal.justified _ _ _ hsplit).1 rfl,
    fun before signal after hsplit => (hgoal.justified _ _ _ hsplit).2 rfl, hgoal.completed⟩

def twoTurns : RunGoalDrivenLoopOptions where
  params := { goalId := "g", objective := "o" }
  blockedPersistTurns := some 2

/-- A turn whose only call reports a blocker. -/
def blockedTurn (reason : List (String × Json)) : List GoalWorldAction :=
  [.step 0 .admitted "t",
    .step 0 (.modelReturned
      { toolCalls := [⟨GOAL_UPDATE_TOOL_NAME, .obj (("status", .str "blocked") :: reason)⟩] } 0 0) "t",
    .step 0 (.call .done) "t"]

theorem blocked_only_persistent_twice :
    ∃ w, (system plainHost 2).Reachable w ∧ ∃ entry ∈ w.goals,
      entry.2.length = 2 ∧ entry.1.state = .blocked ∧
      (∀ before signal after, entry.2 = before ++ (signal, .blocked) :: after →
        signal.impossible = false → Persistent 2 plainHost.toLowerCase before signal) ∧
      (∀ before signal after, entry.2 = before ++ (signal, .complete) :: after →
        signal.status = .complete) ∧
      (entry.1.state = .complete → ∃ before signal, entry.2 = before ++ [(signal, .complete)]) := by
  obtain ⟨w, hreach, entry, hmem, hlength, hstate⟩ := System.exists_reachable_of_exec
    (S := system plainHost 2)
    ([.create twoTurns "t"] ++ blockedTurn [("reason", .str "no  access")] ++
      [.step 0 (.yielded false) "t"] ++ blockedTurn [("reason", .str "no access")])
    (fun w => ∃ entry ∈ w.goals, entry.2.length = 2 ∧ entry.1.state = .blocked)
    rfl (by decide +kernel)
  exact ⟨w, hreach, entry, hmem, hlength, hstate, blocked_only_persistent hreach entry hmem⟩

/-- A blocker without a reason and one that is called unspecified block a goal together. -/
theorem unspecified_blocks :
    ∃ w, (system plainHost 2).Reachable w ∧ ∃ entry ∈ w.goals, ∃ first second,
      entry.2 = [(first, .active), (second, .blocked)] ∧ second.impossible = false ∧
      reasonWords plainHost.toLowerCase first.reason ≠
        reasonWords plainHost.toLowerCase second.reason := by
  obtain ⟨w, hreach, entry, hmem, hentry⟩ := System.exists_reachable_of_exec
    (S := system plainHost 2)
    ([.create twoTurns "t"] ++ blockedTurn [] ++ [.step 0 (.yielded false) "t"] ++
      blockedTurn [("reason", .str "unspecified")])
    (fun w => ∃ entry ∈ w.goals, entry.2 = [(⟨.blocked, none, false⟩, .active),
      (⟨.blocked, some "unspecified", false⟩, .blocked)])
    rfl (by decide +kernel)
  exact ⟨w, hreach, entry, hmem, _, _, hentry, rfl, by decide⟩

end GoalWorld

end Kyberion.Workforce
