import Kyberion.Js.Text
import Kyberion.Mission.Journal
import Mathlib.Data.List.Sort

/-!
The replay plan of a mission: its stored events in the order of their creation, cut behind the last
one that the journal has as completed.
-/

namespace Kyberion.Mission

open Js

/-- An event as its file loads; the scope is the one resolved against the mission. -/
structure MissionOrchestrationEvent where
  eventId : String
  missionId : String
  createdAt : String
  scope : EventScope
  deriving DecidableEq

structure ReplayHost where
  toUpperCase : String → String
  localeCompare : String → String → Ordering

inductive RecoveryReason
  | unverifiedProvisionedEntries | missingProvisionedEntries
  deriving DecidableEq

/-- `R` is the type of the provisioned receipts. -/
structure MissionOrchestrationReplayPlan (R : Type) where
  lastCompletedEventId : Option String
  nextEvent : Option MissionOrchestrationEvent
  pendingEventIds : List String
  replayCount : ℕ
  recoveryRequired : Bool
  recoveryReason : Option RecoveryReason
  unverifiedProvisionedEntries : List R
  missingProvisionedEntries : List R

/-- What `findUnverifiedProvisionedEntries` and `findMissingProvisionedEntries` return. -/
structure ProvisionedCheck (R : Type) where
  unverified : List R := []
  missing : List R := []

def ProvisionedCheck.recoveryReason {R : Type} (check : ProvisionedCheck R) :
    Option RecoveryReason :=
  if check.unverified ≠ [] then some .unverifiedProvisionedEntries
  else if check.missing ≠ [] then some .missingProvisionedEntries
  else none

section Events

variable (host : ReplayHost)

/-- `eventScopeMatches` for a filter that is itself a scope. -/
def eventScopeMatches (scope filter : EventScope) : Bool :=
  let matchesField (filtered value : Option String) :=
    (filtered.filter (· ≠ "")).all fun id => value = some id
  filter.scopeKind = scope.scopeKind &&
    matchesField filter.tenantSlug scope.tenantSlug &&
    matchesField filter.organizationId scope.organizationId &&
    matchesField filter.projectId scope.projectId &&
    matchesField (filter.missionId.map host.toUpperCase) scope.missionId &&
    matchesField filter.taskId scope.taskId && matchesField filter.sessionId scope.sessionId

def belongsTo (missionId : String) (scope : Option EventScope)
    (event : MissionOrchestrationEvent) : Bool :=
  event.missionId = host.toUpperCase missionId && scope.all (eventScopeMatches host event.scope)

/-- The events of the mission as the plan lists them, of a directory whose unreadable files are
`none`. -/
def missionEvents (eventFiles : List (String × Option MissionOrchestrationEvent))
    (missionId : String) (scope : Option EventScope) : List MissionOrchestrationEvent :=
  let files := (eventFiles.filter fun file => ".json".toList.isSuffixOf file.1.toList).insertionSort
    fun a b => textLt b.1 a.1 = false
  (files.filterMap fun file => file.2.filter (belongsTo host missionId scope)).insertionSort
    fun a b => host.localeCompare a.createdAt b.createdAt ≠ .gt

end Events

/-- `operations[eventId]?.outcome.status` -/
def operationStatus (operations : Record ReducedMissionOperation) (eventId : String) :
    Except String (Option MissionOperationOutcomeStatus) :=
  match operations.get eventId with
  | .inherited => .error "Cannot read properties of undefined (reading 'status')"
  | .absent => .ok none
  | .own operation => .ok (some operation.outcome.status)

/-- The loop that looks for the last completed event. -/
def lastCompletedIndex (operations : Record ReducedMissionOperation) :
    ℕ → Option ℕ → List MissionOrchestrationEvent → Except String (Option ℕ)
  | _, last, [] => .ok last
  | index, last, event :: rest => do
      let status ← operationStatus operations event.eventId
      lastCompletedIndex operations (index + 1)
        (if status = some .completed then some index else last) rest

/-- `events.filter` with the callback of the plan. -/
def keepUnfinished (operations : Record ReducedMissionOperation) :
    List MissionOrchestrationEvent → Except String (List MissionOrchestrationEvent)
  | [] => .ok []
  | event :: rest => do
      let status ← operationStatus operations event.eventId
      let kept ← keepUnfinished operations rest
      return if status = some .completed then kept else event :: kept

def replayPlan {R : Type} (events : List MissionOrchestrationEvent) (check : ProvisionedCheck R)
    (lastCompleted : Option ℕ) (pendingEvents : List MissionOrchestrationEvent) :
    MissionOrchestrationReplayPlan R where
  lastCompletedEventId := (lastCompleted.bind (events[·]?)).map (·.eventId)
  nextEvent := if check.recoveryReason.isSome then none else pendingEvents.head?
  pendingEventIds := pendingEvents.map (·.eventId)
  replayCount := pendingEvents.length
  recoveryRequired := check.recoveryReason.isSome
  recoveryReason := check.recoveryReason
  unverifiedProvisionedEntries := check.unverified
  missingProvisionedEntries := check.missing

/-- `provisioned` is the check of the provisioned receipts, an error when it throws. -/
def loadMissionOrchestrationReplayPlan {R : Type} (host : ReplayHost)
    (eventFiles : List (String × Option MissionOrchestrationEvent))
    (journal : List MissionOrchestrationJournalEntry)
    (provisioned : Except String (ProvisionedCheck R)) (missionId : String)
    (scope : Option EventScope) : Except String (MissionOrchestrationReplayPlan R) := do
  let events := missionEvents host eventFiles missionId scope
  let reduced ← readSnapshot journal
  let check ← provisioned
  let last ← lastCompletedIndex reduced.operations 0 none events
  let pendingEvents ← keepUnfinished reduced.operations
    (events.drop ((last.map (· + 1)).getD 0))
  return replayPlan events check last pendingEvents

end Kyberion.Mission
