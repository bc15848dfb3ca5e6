import Kyberion.Workforce.JournalRun

/-!
The derived summary index of a worker journal. The journal is the authority; the index file may be
missing, unreadable or left over from an earlier moment.
-/

namespace Kyberion.Workforce

open Transition

structure GoalDelegationSummary where
  goalId : Option String
  goalState : Option GoalState
  delegationCount : ℕ
  activeDelegationCount : ℕ
  pendingApprovalCount : ℕ
  hasPendingReminder : Bool
  projectedThroughSeq : ℤ
  deriving DecidableEq

def summarize (state : WorkerRestorableState) (projectedThroughSeq : ℤ) :
    GoalDelegationSummary where
  goalId := state.goal.map (·.goalId)
  goalState := state.goal.map (·.state)
  delegationCount := state.delegations.values.length
  activeDelegationCount := (state.delegations.values.filter (·.status = .started)).length
  pendingApprovalCount := state.pendingApprovals.values.length
  hasPendingReminder := state.pendingReminder.isSome
  projectedThroughSeq

/-- The index file; a saved summary with the records that it was projected from. -/
inductive IndexFile
  | missing
  | corrupt
  | saved (summary : GoalDelegationSummary) (events : List JournalEventEnvelope)

variable (isUuid : String → Bool)

/-- `summarize` of the projection of a whole journal. -/
def projectedSummary (events : List JournalEventEnvelope) : Except String GoalDelegationSummary :=
  (project isUuid events).map fun state => summarize state ((nextSeq events : ℤ) - 1)

structure SummaryWorld where
  journal : JournalWorld := {}
  index : IndexFile := .missing
  /-- The records of the journal at every earlier moment. -/
  past : List (List JournalEventEnvelope) := []
  /-- What each call of `summary` returned, with the records of the journal at that moment. -/
  returned : List (Except String GoalDelegationSummary × List JournalEventEnvelope) := []

inductive SummaryAction
  | journal (action : JournalAction)
  /-- Whether a corrupt index could be removed, and the new one written. -/
  | summary (removed written : Bool)
  | rebuildSummary (written : Bool)
  | removeIndex
  | corruptIndex
  /-- The file of an earlier moment is put back. -/
  | leaveIndex (events : List JournalEventEnvelope)

namespace SummaryWorld

variable (w : SummaryWorld)

def events : List JournalEventEnvelope :=
  w.journal.file.events

def rebuildSummary (written : Bool) : Except String GoalDelegationSummary × SummaryWorld :=
  match projectedSummary isUuid w.events with
  | .ok summary =>
      (.ok summary, if written then { w with index := .saved summary w.events } else w)
  | .error e => (.error e, w)

/-- The loaded index, and the file after the attempt. -/
def loadIndex (removed : Bool) : Option GoalDelegationSummary × SummaryWorld :=
  match w.index with
  | .saved summary _ => (some summary, w)
  | .corrupt => (none, if removed then { w with index := .missing } else w)
  | .missing => (none, w)

def summary (removed written : Bool) : Except String GoalDelegationSummary × SummaryWorld :=
  match w.loadIndex removed with
  | (some summary, w) => (.ok summary, w)
  | (none, w) => w.rebuildSummary isUuid written

def step : SummaryAction → Option SummaryWorld
  | .journal action =>
      ((workerJournals isUuid).step w.journal action).map fun journal =>
        { w with journal, past := w.past ++ [w.events] }
  | .summary removed written =>
      let (result, w') := w.summary isUuid removed written
      some { w' with returned := w'.returned ++ [(result, w.events)] }
  | .rebuildSummary written => some (w.rebuildSummary isUuid written).2
  | .removeIndex => some { w with index := .missing }
  | .corruptIndex => some { w with index := .corrupt }
  | .leaveIndex events =>
      match projectedSummary isUuid events with
      | .ok summary =>
          if events ∈ w.past then some { w with index := .saved summary events } else none
      | .error _ => none

def system : System SummaryWorld SummaryAction where
  init w := w = {}
  step := step isUuid

/-- An index that `summary` finds was projected from the journal as it is now. -/
def current : SummaryAction → Bool
  | .summary _ _ =>
      match w.index with
      | .saved _ events => events = w.events
      | .missing | .corrupt => true
  | _ => true

/-- A saved index is the summary of its records; each answer is that of the journal then. -/
structure Derived : Prop where
  index : ∀ summary events, w.index = .saved summary events →
    projectedSummary isUuid events = .ok summary
  returned : ∀ entry ∈ w.returned, entry.1 = projectedSummary isUuid entry.2

variable {isUuid w}

theorem Derived.rebuild (h : w.Derived isUuid) (written : Bool) :
    (w.rebuildSummary isUuid written).1 = projectedSummary isUuid w.events ∧
      (w.rebuildSummary isUuid written).2.Derived isUuid := by
  unfold rebuildSummary
  split
  · rename_i summary hprojected
    refine ⟨hprojected.symm, ?_⟩
    split
    · refine ⟨fun summary' events hsaved => ?_, h.returned⟩
      cases hsaved
      exact hprojected
    · exact h
  · rename_i e hprojected
    exact ⟨hprojected.symm, h⟩

theorem Derived.summary (h : w.Derived isUuid) (removed written : Bool)
    (hcurrent : w.current (.summary removed written)) :
    (w.summary isUuid removed written).1 = projectedSummary isUuid w.events ∧
      (w.summary isUuid removed written).2.Derived isUuid := by
  unfold SummaryWorld.summary loadIndex
  cases hindex : w.index with
  | saved summary events =>
      simp only [current, hindex, decide_eq_true_eq] at hcurrent
      rw [← hcurrent]
      exact ⟨(h.index summary events hindex).symm, h⟩
  | missing => exact h.rebuild written
  | corrupt =>
      cases removed with
      | false => exact h.rebuild written
      | true =>
          have hremoved : Derived isUuid { w with index := .missing } :=
            ⟨fun _ _ hsaved => (by cases hsaved), h.returned⟩
          exact hremoved.rebuild written

theorem Derived.step {w' : SummaryWorld} {action : SummaryAction} (h : w.Derived isUuid)
    (hcurrent : w.current action) (hstep : w.step isUuid action = some w') :
    w'.Derived isUuid := by
  cases action with
  | journal action =>
      obtain ⟨journal, -, rfl⟩ := Option.map_eq_some_iff.mp hstep
      exact ⟨h.index, h.returned⟩
  | summary removed written =>
      obtain rfl := Option.some.inj hstep
      obtain ⟨hresult, hderived⟩ := h.summary removed written hcurrent
      refine ⟨hderived.index, fun entry hmem => ?_⟩
      obtain hmem | hmem := List.mem_append.mp hmem
      · exact hderived.returned entry hmem
      · obtain rfl := List.mem_singleton.mp hmem
        exact hresult
  | rebuildSummary written =>
      obtain rfl := Option.some.inj hstep
      exact (h.rebuild written).2
  | removeIndex | corruptIndex =>
      obtain rfl := Option.some.inj hstep
      exact ⟨fun _ _ hsaved => (by cases hsaved), h.returned⟩
  | leaveIndex events =>
      simp only [SummaryWorld.step] at hstep
      split at hstep
      · rename_i summary hprojected
        split at hstep
        · obtain rfl := Option.some.inj hstep
          refine ⟨fun summary' events' hsaved => ?_, h.returned⟩
          cases hsaved
          exact hprojected
        · cases hstep
      · cases hstep

/-- As long as `summary` finds no index from before the last append, it agrees with the journal. -/
theorem summary_agrees
    (h : (system isUuid).Reach (fun w action => w.current action) w) :
    ∀ entry ∈ w.returned, entry.1 = projectedSummary isUuid entry.2 := by
  have hderived : w.Derived isUuid := System.Reach.invariant (I := Derived isUuid)
    (by rintro w rfl; exact ⟨by simp, by simp⟩)
    (fun w action w' hw hcurrent hstep => hw.step hcurrent hstep) h
  exact hderived.returned

/-- One append of a journal object. -/
def recordGoal (goalId : String) : List SummaryAction :=
  [.journal (.append 0 (.goalUpsert
      { goalId, objective := "o", state := .active, turnCount := 0, blockedStreak := 0,
        createdAt := "t", updatedAt := "t" })),
    .journal (.write 0 "t"), .journal (.finish 0)]

/-- The index is removed before the second call. -/
theorem summary_agrees_removed :
    ∃ w, (system fun _ => true).Reach (fun w action => w.current action) w ∧
      w.returned.length = 2 ∧
      ∀ entry ∈ w.returned, entry.1 = projectedSummary (fun _ => true) entry.2 := by
  obtain ⟨w, hreach, hlength⟩ := System.exists_reach_of_execOk (S := system fun _ => true)
    (fun w action => w.current action)
    (recordGoal "a" ++ [.summary true true] ++ recordGoal "b" ++
      [.removeIndex, .summary true true])
    (fun w => w.returned.length = 2) rfl (by decide +kernel)
  exact ⟨w, hreach, hlength, summary_agrees hreach⟩

/-- The second call returns the goal that the first one has saved. -/
theorem summary_stale :
    ∃ w, (system fun _ => true).Reachable w ∧
      ∃ entry ∈ w.returned, entry.1 ≠ projectedSummary (fun _ => true) entry.2 := by
  obtain ⟨w, hreach, entry, hmem, hreturned, hprojected⟩ := System.exists_reachable_of_exec
    (S := system fun _ => true)
    (recordGoal "a" ++ [.summary true true] ++ recordGoal "b" ++ [.summary true true])
    (fun w => ∃ entry ∈ w.returned,
      entry.1.toOption.bind (·.goalId) = some "a" ∧
        (projectedSummary (fun _ => true) entry.2).toOption.bind (·.goalId) = some "b")
    rfl (by decide +kernel)
  refine ⟨w, hreach, entry, hmem, fun heq => ?_⟩
  rw [heq, hprojected] at hreturned
  simp at hreturned

end SummaryWorld

end Kyberion.Workforce
