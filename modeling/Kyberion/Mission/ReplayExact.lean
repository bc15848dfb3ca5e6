import Kyberion.Mission.Reducible
import Kyberion.Mission.ReplayPlan
import Mathlib.Data.List.DropRight

/-!
The plan names the events behind the last completed one. An unfinished event in front of it is
skipped, so that the plan is exact for journals in which no event overtakes an earlier one.
-/

namespace Kyberion.Mission

open Js

section Segments

variable {α β : Type} {p q : α → Bool}

/-- Each element satisfies `q` when it and all behind it satisfy `p`. -/
def suffixDecides (p q : α → Bool) : List α → Bool
  | [] => true
  | a :: rest => (q a == (a :: rest).all p) && suffixDecides p q rest

theorem rtakeWhile_cons (a : α) (l : List α) :
    (a :: l).rtakeWhile p = if (a :: l).all p then a :: l else l.rtakeWhile p := by
  induction l using List.reverseRecOn with
  | nil => by_cases ha : p a <;> simp [List.rtakeWhile, ha]
  | append_singleton l b ih =>
      have hall : (a :: (l ++ [b])).all p = ((a :: l).all p && p b) := by
        rw [← List.cons_append, List.all_append]
        simp only [List.all_cons, List.all_nil, Bool.and_true]
      rw [← List.cons_append, List.rtakeWhile_concat, List.rtakeWhile_concat, ih,
        List.cons_append, hall]
      by_cases hb : p b
      · rw [if_pos hb, if_pos hb, hb, Bool.and_true]
        split <;> rfl
      · simp [hb]

theorem rtakeWhile_append_cons {a : α} (ha : p a = false) {front rest : List α}
    (hrest : ∀ b ∈ rest, p b = true) : (front ++ a :: rest).rtakeWhile p = rest := by
  induction front with
  | nil =>
      rw [List.nil_append, rtakeWhile_cons, if_neg (by simp [ha])]
      exact List.rtakeWhile_eq_self_iff.mpr hrest
  | cons first front ih =>
      rw [List.cons_append, rtakeWhile_cons, if_neg (by simp [ha]), ih]

/-- The terminal segment of `p` is all of what satisfies `q`. -/
theorem rtakeWhile_eq_filter (l : List α) :
    l.rtakeWhile p = l.filter q ↔ suffixDecides p q l = true := by
  induction l with
  | nil => simp [suffixDecides]
  | cons a l ih =>
      have hshort : (l.filter q).length ≤ l.length := List.length_filter_le ..
      rw [rtakeWhile_cons, List.filter_cons, suffixDecides, Bool.and_eq_true, beq_iff_eq, ← ih]
      by_cases hall : (a :: l).all p = true
      · have hself : l.rtakeWhile p = l :=
          List.rtakeWhile_eq_self_iff.mpr fun b hb =>
            List.all_eq_true.mp hall b (List.mem_cons_of_mem a hb)
        rw [if_pos hall, hself, hall]
        by_cases hq : q a = true
        · simp [hq]
        · rw [if_neg hq]
          refine ⟨fun h => ?_, fun h => absurd h.1 hq⟩
          have hlength := congrArg List.length h
          rw [List.length_cons] at hlength
          omega
      · rw [if_neg hall, Bool.eq_false_iff.mpr hall]
        by_cases hq : q a = true
        · rw [if_pos hq]
          refine ⟨fun h => ?_, fun h => absurd h.1 (by simp [hq])⟩
          -- The segment would be longer than what of it satisfies `q`, which is all of it.
          have hsegment : (l.rtakeWhile p).filter q = l.rtakeWhile p := by
            rw [h, List.filter_cons_of_pos hq, List.filter_filter]
            simp only [Bool.and_self]
          have hsub := (List.rtakeWhile_suffix p l).sublist.filter q
          have hlength := hsub.length_le
          rw [hsegment, h, List.length_cons] at hlength
          omega
        · rw [if_neg hq]
          simp [hq]

theorem map_rtakeWhile (f : β → α) (l : List β) :
    (l.map f).rtakeWhile p = (l.rtakeWhile fun b => p (f b)).map f := by
  rw [List.rtakeWhile, List.rtakeWhile, ← List.map_reverse, List.takeWhile_map, List.map_reverse]
  rfl

theorem suffixDecides_map (f : β → α) (l : List β) :
    suffixDecides p q (l.map f) = suffixDecides (fun b => p (f b)) (fun b => q (f b)) l := by
  induction l with
  | nil => rfl
  | cons b l ih =>
      rw [List.map_cons, suffixDecides, suffixDecides, ih, ← List.map_cons, List.all_map]
      rfl

end Segments

section Reduce

variable {records : List MissionOrchestrationJournalEntry}
  {operations operations' : Record ReducedMissionOperation}

/-- The outcome that an entry is reduced to. -/
def entryStatus (entry : MissionOrchestrationJournalEntry) : MissionOperationOutcomeStatus :=
  (normalizeOutcome entry.status entry.outcome).status

/-- The latest outcome of an operation. -/
def latestStatus (key : MissionOrchestrationJournalEntry → Option String)
    (records : List MissionOrchestrationJournalEntry) (id : String) :
    Option MissionOperationOutcomeStatus :=
  (lastFor key id records).map entryStatus

theorem reduceEntry_ok {raw : MissionOrchestrationJournalEntry}
    (hget : ∀ id, operations.get id = .inherited ↔ id ∈ inheritedNames)
    (h : reduceEntry operations raw = .ok operations') :
    raw.operation.id ∉ inheritedNames ∧ ∃ reduced : ReducedMissionOperation,
      reduced.outcome.status = entryStatus raw ∧
        operations' = operations.set raw.operation.id reduced := by
  obtain ⟨entry, hentry, h⟩ := except_bind_ok h
  obtain ⟨scope, -, hentry⟩ := except_bind_ok hentry
  obtain rfl := Except.ok.inj hentry
  dsimp only at h
  rw [← hget]
  split at h
  · cases h
  · rename_i habsent
    rw [habsent]
    exact ⟨nofun, _, rfl, (Except.ok.inj h).symm⟩
  · rename_i previous hown
    rw [hown]
    exact ⟨nofun, _, rfl, (Except.ok.inj (throwIf_eq_ok.mp h).2).symm⟩

/-- The reduced operations answer with the latest outcome of every operation. -/
theorem reduce_get (h : records.foldlM reduceEntry Record.empty = .ok operations) (id : String) :
    (operations.get id = .inherited ↔ id ∈ inheritedNames) ∧
      (id ∉ inheritedNames →
        operationStatus operations id = .ok (latestStatus operationKey records id)) := by
  induction records using List.reverseRecOn generalizing operations id with
  | nil =>
      obtain rfl := Except.ok.inj h
      by_cases hid : id ∈ inheritedNames <;> simp [operationStatus, latestStatus, hid]
  | append_singleton records raw ih =>
      rw [List.foldlM_append] at h
      obtain ⟨before, hbefore, h⟩ := except_bind_ok h
      rw [List.foldlM_cons] at h
      obtain ⟨after, hafter, h⟩ := except_bind_ok h
      obtain rfl := Except.ok.inj h
      obtain ⟨hnamed, reduced, hreduced, rfl⟩ := reduceEntry_ok (fun id => (ih hbefore id).1) hafter
      rw [operationStatus, Record.get_set, latestStatus, lastFor_concat]
      by_cases hid : id = raw.operation.id
      · subst hid
        simp [operationKey, hreduced, hnamed]
      · have hkey : operationKey raw ≠ some id := fun hkey => hid (Option.some.inj hkey).symm
        rw [if_neg hid, if_neg hkey]
        exact ih hbefore id

end Reduce

section Loops

variable {operations : Record ReducedMissionOperation} {events : List MissionOrchestrationEvent}
  {status : String → Option MissionOperationOutcomeStatus}

/-- The last completed event and what comes behind it. -/
theorem lastCompletedIndex_spec
    (h : ∀ event ∈ events, operationStatus operations event.eventId = .ok (status event.eventId))
    (index : ℕ) (last : Option ℕ) :
    ∃ found, lastCompletedIndex operations index last events = .ok found ∧
      ((found = last ∧ ∀ event ∈ events, status event.eventId ≠ some .completed) ∨
        ∃ front event rest, events = front ++ event :: rest ∧
          status event.eventId = some .completed ∧ found = some (index + front.length) ∧
            ∀ later ∈ rest, status later.eventId ≠ some .completed) := by
  induction events generalizing index last with
  | nil => exact ⟨last, rfl, .inl ⟨rfl, by simp⟩⟩
  | cons event rest ih =>
      obtain ⟨hevent, hrest⟩ := List.forall_mem_cons.mp h
      obtain ⟨found, hfound, hcases⟩ := ih hrest (index + 1)
        (if status event.eventId = some .completed then some index else last)
      refine ⟨found, ?_, ?_⟩
      · rw [lastCompletedIndex, hevent]
        exact hfound
      · rcases hcases with ⟨rfl, hnone⟩ | ⟨front, later, behind, rfl, hlater, rfl, hbehind⟩
        · by_cases hcompleted : status event.eventId = some .completed
          · rw [if_pos hcompleted]
            exact .inr ⟨[], event, rest, rfl, hcompleted, rfl, hnone⟩
          · rw [if_neg hcompleted]
            exact .inl ⟨rfl, List.forall_mem_cons.mpr ⟨hcompleted, hnone⟩⟩
        · refine .inr ⟨event :: front, later, behind, rfl, hlater, ?_, hbehind⟩
          rw [List.length_cons, Nat.add_assoc, Nat.add_comm 1]

theorem keepUnfinished_all
    (h : ∀ event ∈ events, operationStatus operations event.eventId = .ok (status event.eventId))
    (hopen : ∀ event ∈ events, status event.eventId ≠ some .completed) :
    keepUnfinished operations events = .ok events := by
  induction events with
  | nil => rfl
  | cons event rest ih =>
      obtain ⟨hevent, hrest⟩ := List.forall_mem_cons.mp h
      obtain ⟨hfirst, hbehind⟩ := List.forall_mem_cons.mp hopen
      rw [keepUnfinished, hevent, except_ok_bind, ih hrest hbehind]
      exact congrArg Except.ok (if_neg hfirst)

/-- The cut and the filter together leave the events behind the last completed one. -/
theorem pendingEvents_eq
    (h : ∀ event ∈ events, operationStatus operations event.eventId = .ok (status event.eventId)) :
    ∃ last, lastCompletedIndex operations 0 none events = .ok last ∧
      keepUnfinished operations (events.drop ((last.map (· + 1)).getD 0)) =
        .ok (events.rtakeWhile fun event => status event.eventId ≠ some .completed) := by
  obtain ⟨last, hlast, ⟨rfl, hnone⟩ | ⟨front, event, rest, rfl, hevent, rfl, hrest⟩⟩ :=
    lastCompletedIndex_spec h 0 none
  · refine ⟨none, hlast, ?_⟩
    rw [List.rtakeWhile_eq_self_iff.mpr (by simpa using hnone)]
    exact keepUnfinished_all h hnone
  · refine ⟨_, hlast, ?_⟩
    have hdrop : (front ++ event :: rest).drop (((some (0 + front.length)).map (· + 1)).getD 0) =
        rest := by
      simp [List.drop_append]
    have hcut : (front ++ event :: rest).rtakeWhile
        (fun event => status event.eventId ≠ some .completed) = rest :=
      rtakeWhile_append_cons (by simp [hevent]) (by simpa using hrest)
    rw [hdrop, hcut]
    exact keepUnfinished_all (fun later hlater =>
      h later (List.mem_append_right _ (List.mem_cons_of_mem _ hlater))) hrest

/-- An event with an inherited name ends the loop. -/
theorem lastCompletedIndex_error {event : MissionOrchestrationEvent} (hevent : event ∈ events)
    {error : String} (h : operationStatus operations event.eventId = .error error) (index : ℕ)
    (last : Option ℕ) : ∀ found, lastCompletedIndex operations index last events ≠ .ok found := by
  induction events generalizing index last with
  | nil => cases hevent
  | cons first rest ih =>
      intro found hfound
      obtain ⟨status, hstatus, hrest⟩ := except_bind_ok hfound
      rcases List.mem_cons.mp hevent with rfl | hmem
      · rw [h] at hstatus
        cases hstatus
      · exact ih hmem _ _ found hrest

end Loops

section Exact

variable (records : List MissionOrchestrationJournalEntry)

def eventKey (entry : MissionOrchestrationJournalEntry) : Option String :=
  some entry.eventId

/-- The outcome of the last journal entry with the key. -/
def latestOutcome (key : MissionOrchestrationJournalEntry → Option String) (id : String) :
    Option MissionOperationOutcomeStatus :=
  (lastFor key id records).map (·.outcome.status)

/-- The last journal entry of the event does not have it completed. -/
def unfinished (event : MissionOrchestrationEvent) : Bool :=
  latestOutcome records eventKey event.eventId ≠ some .completed

/-- The operation that is named like the event is not completed. -/
def operationOpen (event : MissionOrchestrationEvent) : Bool :=
  latestOutcome records operationKey event.eventId ≠ some .completed

/-- No event has the name of a property that every object inherits, and an event is unfinished when
neither its own operation nor that of a later event is completed. -/
def finishInOrder (events : List MissionOrchestrationEvent) : Bool :=
  events.all (fun event => !inheritedNames.contains event.eventId) &&
    suffixDecides (operationOpen records) (unfinished records) events

variable {records} {journal : List MissionOrchestrationJournalEntry}

/-- Loaded entries are normalized. -/
theorem entryStatus_loaded
    (h : loadMissionOrchestrationJournal journal = .ok records)
    {entry : MissionOrchestrationJournalEntry} (hentry : entry ∈ records) :
    entryStatus entry = entry.outcome.status := by
  have hload : ∀ (lines records : List MissionOrchestrationJournalEntry) (lineNumber : ℕ),
      readJsonLines loadEntry unreadableEntry lineNumber lines = .ok records →
      ∀ entry ∈ records, entryStatus entry = entry.outcome.status := by
    intro lines
    induction lines with
    | nil =>
        intro records lineNumber h entry hentry
        obtain rfl := Except.ok.inj h
        cases hentry
    | cons line lines ih =>
        intro records lineNumber h entry hentry
        rw [readJsonLines] at h
        cases hline : loadEntry line with
        | error _ =>
            rw [hline] at h
            cases h
        | ok value =>
            rw [hline] at h
            cases hrest : readJsonLines loadEntry unreadableEntry (lineNumber + 1) lines with
            | error _ =>
                rw [hrest] at h
                cases h
            | ok rest =>
                rw [hrest] at h
                obtain rfl := Except.ok.inj h
                rcases List.mem_cons.mp hentry with rfl | hmem
                · obtain ⟨raw, -, hnormal⟩ := except_bind_ok hline
                  obtain ⟨scope, -, hnormal⟩ := except_bind_ok hnormal
                  obtain rfl := Except.ok.inj hnormal
                  exact congrArg MissionOperationOutcome.status (normalizeOutcome_self ..)
                · exact ih rest _ hrest entry hmem
  exact hload journal records 1 h entry hentry

theorem latestStatus_loaded (h : loadMissionOrchestrationJournal journal = .ok records)
    (key : MissionOrchestrationJournalEntry → Option String) (id : String) :
    latestStatus key records id = latestOutcome records key id := by
  rw [latestStatus, latestOutcome]
  refine Option.map_congr fun entry hentry => ?_
  exact entryStatus_loaded h (mem_of_lastFor hentry).1

/-- Ids of the pending events and of the unfinished ones agree when the events do. -/
theorem pending_ids_iff (events : List MissionOrchestrationEvent) :
    (events.rtakeWhile (operationOpen records)).map (·.eventId) =
        (events.filter (unfinished records)).map (·.eventId) ↔
      events.rtakeWhile (operationOpen records) = events.filter (unfinished records) := by
  refine ⟨fun h => ?_, congrArg _⟩
  let openId (id : String) : Bool := latestOutcome records operationKey id ≠ some .completed
  let unfinishedId (id : String) : Bool := latestOutcome records eventKey id ≠ some .completed
  have hids : (events.map (·.eventId)).rtakeWhile openId =
      (events.map (·.eventId)).filter unfinishedId := by
    rw [map_rtakeWhile, List.filter_map]
    exact h
  rw [rtakeWhile_eq_filter, suffixDecides_map] at hids
  exact (rtakeWhile_eq_filter events).mpr hids

section Plan

variable {R : Type} {host : ReplayHost}
  {eventFiles : List (String × Option MissionOrchestrationEvent)} {missionId : String}
  {scope : Option EventScope} {check : ProvisionedCheck R} {reduced : ReducedMissionState}

theorem operationStatus_reduced (hload : loadMissionOrchestrationJournal journal = .ok records)
    (hreduced : reduceMissionState records = .ok reduced) {id : String}
    (hid : id ∉ inheritedNames) :
    operationStatus reduced.operations id = .ok (latestOutcome records operationKey id) := by
  obtain ⟨operations, hoperations, hreduced⟩ := except_bind_ok hreduced
  obtain rfl := Except.ok.inj hreduced
  rw [← latestStatus_loaded hload]
  exact (reduce_get hoperations id).2 hid

theorem operationStatus_inherited (hreduced : reduceMissionState records = .ok reduced)
    {id : String} (hid : id ∈ inheritedNames) :
    operationStatus reduced.operations id =
      .error "Cannot read properties of undefined (reading 'status')" := by
  obtain ⟨operations, hoperations, hreduced⟩ := except_bind_ok hreduced
  obtain rfl := Except.ok.inj hreduced
  rw [operationStatus, (reduce_get hoperations id).1.mpr hid]

/-- The plan of a mission none of whose events has an inherited name. -/
theorem loadMissionOrchestrationReplayPlan_ok
    (hload : loadMissionOrchestrationJournal journal = .ok records)
    (hreduced : reduceMissionState records = .ok reduced)
    (hprovisioned : check.unverified = [] ∧ check.missing = [])
    (hnames : ∀ event ∈ missionEvents host eventFiles missionId scope,
      event.eventId ∉ inheritedNames) :
    ∃ plan, loadMissionOrchestrationReplayPlan host eventFiles journal (.ok check) missionId
        scope = .ok plan ∧
      plan.pendingEventIds = ((missionEvents host eventFiles missionId scope).rtakeWhile
        (operationOpen records)).map (·.eventId) ∧
      plan.nextEvent = ((missionEvents host eventFiles missionId scope).rtakeWhile
        (operationOpen records)).head? := by
  obtain ⟨last, hlast, hpending⟩ := pendingEvents_eq fun event hevent =>
    operationStatus_reduced hload hreduced (hnames event hevent)
  change keepUnfinished _ _ = .ok (List.rtakeWhile (operationOpen records) _) at hpending
  have hreason : check.recoveryReason = none := by
    simp [ProvisionedCheck.recoveryReason, hprovisioned]
  have hsnapshot : readSnapshot journal = .ok reduced := by
    rw [readSnapshot, hload]
    exact hreduced
  refine ⟨replayPlan (missionEvents host eventFiles missionId scope) check last _, ?_, rfl, ?_⟩
  · rw [loadMissionOrchestrationReplayPlan, hsnapshot]
    dsimp only [except_ok_bind]
    rw [hlast, except_ok_bind, hpending]
    rfl
  · simp [replayPlan, hreason]

/-- The plan lists the unfinished events of the mission exactly when they finish in order. -/
theorem replay_plan_exact (hload : loadMissionOrchestrationJournal journal = .ok records)
    (hreduced : reduceMissionState records = .ok reduced)
    (hprovisioned : check.unverified = [] ∧ check.missing = []) :
    (∃ plan, loadMissionOrchestrationReplayPlan host eventFiles journal (.ok check) missionId
        scope = .ok plan ∧
      plan.pendingEventIds = ((missionEvents host eventFiles missionId scope).filter
        (unfinished records)).map (·.eventId) ∧
      plan.nextEvent = ((missionEvents host eventFiles missionId scope).filter
        (unfinished records)).head?) ↔
      finishInOrder records (missionEvents host eventFiles missionId scope) = true := by
  rw [finishInOrder, Bool.and_eq_true, List.all_eq_true, ← rtakeWhile_eq_filter]
  by_cases hnames : ∀ event ∈ missionEvents host eventFiles missionId scope,
      event.eventId ∉ inheritedNames
  · obtain ⟨plan, hplan, hids, hnext⟩ :=
      loadMissionOrchestrationReplayPlan_ok hload hreduced hprovisioned hnames
    constructor
    · rintro ⟨other, hother, hsame, -⟩
      obtain rfl := Except.ok.inj (hplan.symm.trans hother)
      refine ⟨fun event hevent => by simpa using hnames event hevent, ?_⟩
      exact (pending_ids_iff _).mp (hids.symm.trans hsame)
    · rintro ⟨-, hsame⟩
      exact ⟨plan, hplan, hids.trans (congrArg _ hsame), hnext.trans (congrArg _ hsame)⟩
  · refine iff_of_false ?_ fun h => hnames fun event hevent => by simpa using h.1 event hevent
    rintro ⟨plan, hplan, -⟩
    obtain ⟨event, hevent, hname⟩ : ∃ event ∈ missionEvents host eventFiles missionId scope,
        event.eventId ∈ inheritedNames := by
      simpa using hnames
    obtain ⟨state, hstate, hplan⟩ := except_bind_ok hplan
    obtain ⟨_, -, hplan⟩ := except_bind_ok hplan
    obtain ⟨found, hfound, -⟩ := except_bind_ok hplan
    rw [readSnapshot, hload] at hstate
    obtain rfl := Except.ok.inj (hreduced.symm.trans hstate)
    exact lastCompletedIndex_error hevent (operationStatus_inherited hreduced hname) 0 none found
      hfound

end Plan

end Exact

def plainHost : ReplayHost where
  toUpperCase := id
  localeCompare a b := if textLt a b then .lt else if textLt b a then .gt else .eq

def storedEvent (eventId createdAt : String) : String × Option MissionOrchestrationEvent :=
  (eventId ++ ".json",
    some ⟨eventId, "MSN-1", createdAt, { tier := .public_, scopeKind := .system }⟩)

def journalEntry (eventId : String) (status : MissionOrchestrationJournalStatus) :
    MissionOrchestrationJournalEntry where
  ts := "2026-01-01"
  eventId
  eventType := .missionKickoffRequested
  missionId := "MSN-1"
  status
  payloadHash := "00"
  operation := ⟨eventId, .run, 1⟩
  outcome := outcomeForStatus status

def twoEvents : List (String × Option MissionOrchestrationEvent) :=
  [storedEvent "ME-1" "2026-01-01", storedEvent "ME-2" "2026-01-02"]

/-- The first of two events is completed, the second pending. -/
def firstCompleted : List MissionOrchestrationJournalEntry :=
  [journalEntry "ME-1" .enqueued, journalEntry "ME-2" .enqueued, journalEntry "ME-1" .completed]

theorem replay_plan_exact_first : ∃ plan, loadMissionOrchestrationReplayPlan plainHost twoEvents
    firstCompleted (.ok ({} : ProvisionedCheck String)) "MSN-1" none = .ok plan ∧
      plan.pendingEventIds = ["ME-2"] := by
  have hload : loadMissionOrchestrationJournal firstCompleted = .ok firstCompleted := rfl
  obtain ⟨reduced, hreduced⟩ : ∃ reduced, reduceMissionState firstCompleted = .ok reduced :=
    ⟨_, rfl⟩
  have horder : finishInOrder firstCompleted
      (missionEvents plainHost twoEvents "MSN-1" none) = true := by
    decide +kernel
  have hids : ((missionEvents plainHost twoEvents "MSN-1" none).filter
      (unfinished firstCompleted)).map (·.eventId) = ["ME-2"] := by
    decide +kernel
  have hcheck : ({} : ProvisionedCheck String).unverified = [] ∧
      ({} : ProvisionedCheck String).missing = [] :=
    ⟨rfl, rfl⟩
  obtain ⟨plan, hplan, hpending, -⟩ := (replay_plan_exact hload hreduced hcheck).mpr horder
  exact ⟨plan, hplan, hpending.trans hids⟩

/-- The second event is completed, the first pending. -/
def secondCompleted : List MissionOrchestrationJournalEntry :=
  [journalEntry "ME-1" .enqueued, journalEntry "ME-2" .enqueued, journalEntry "ME-2" .completed]

theorem replay_plan_loses_first :
    (∃ reduced, reduceMissionState secondCompleted = .ok reduced) ∧
      ¬ ∃ plan, loadMissionOrchestrationReplayPlan plainHost twoEvents secondCompleted
          (.ok ({} : ProvisionedCheck String)) "MSN-1" none = .ok plan ∧
        plan.pendingEventIds = ((missionEvents plainHost twoEvents "MSN-1" none).filter
          (unfinished secondCompleted)).map (·.eventId) := by
  refine ⟨⟨_, rfl⟩, ?_⟩
  rintro ⟨plan, hplan, hids⟩
  have hlost : (loadMissionOrchestrationReplayPlan plainHost twoEvents secondCompleted
      (.ok ({} : ProvisionedCheck String)) "MSN-1" none).toOption.map (·.pendingEventIds) =
        some [] := by
    decide +kernel
  have hopen : ((missionEvents plainHost twoEvents "MSN-1" none).filter
      (unfinished secondCompleted)).map (·.eventId) = ["ME-1"] := by
    decide +kernel
  rw [hplan] at hlost
  rw [hopen] at hids
  cases hids.symm.trans (Option.some.inj hlost)

end Kyberion.Mission
