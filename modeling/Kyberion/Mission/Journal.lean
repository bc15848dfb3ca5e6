import Kyberion.Js.Record
import Kyberion.Latest
import Kyberion.Mission.EventScope

/-!
The orchestration journal of a mission. Every entry carries an operation with
its attempt; reading the journal back reduces it to the last entry of every
operation and refuses an attempt that falls.
-/

namespace Kyberion.Mission

open Js

inductive MissionOrchestrationEventType
  | missionIssueRequested | missionTeamPrewarmRequested | missionKickoffRequested
  | missionFollowupRequested | missionReconciliationRequested | missionDistillationRequested
  | missionCompletionRequested | missionControlRequested | missionWorkerRecoveryRequested
  | surfaceControlRequested
  deriving DecidableEq

inductive MissionOrchestrationJournalStatus
  | enqueued | completed | failed
  deriving DecidableEq

inductive MissionOperationKind
  | run | compaction | handoff | checkpoint
  deriving DecidableEq

inductive MissionOperationOutcomeStatus
  | pending | completed | declined | aborted | failed | suspended
  deriving DecidableEq

structure MissionOperation where
  id : String
  kind : MissionOperationKind
  attempt : ℕ
  deriving DecidableEq

structure MissionOperationOutcome where
  status : MissionOperationOutcomeStatus
  reason : Option String := none
  deriving DecidableEq

/-- An entry as a line holds it; reading it back normalizes its scope. -/
structure MissionOrchestrationJournalEntry where
  ts : String
  eventId : String
  eventType : MissionOrchestrationEventType
  missionId : String
  status : MissionOrchestrationJournalStatus
  payloadHash : String
  operation : MissionOperation
  outcome : MissionOperationOutcome
  requestedBy : Option String := none
  causationId : Option String := none
  correlationId : Option String := none
  scope : Option EventScopeInput := none
  deriving DecidableEq

structure ReducedMissionOperation where
  eventId : String
  operation : MissionOperation
  outcome : MissionOperationOutcome
  status : MissionOrchestrationJournalStatus
  deriving DecidableEq

structure ReducedMissionState where
  operations : Record ReducedMissionOperation
  pendingOperationIds : List String
  terminalFailure : Option ReducedMissionOperation
  deriving DecidableEq

/-- `Partial<Pick<MissionOperation, 'id' | 'kind' | 'attempt'>>`; a number that is not an
integer counts as no attempt. -/
structure PartialOperation where
  id : Option String := none
  kind : Option MissionOperationKind := none
  attempt : Option ℤ := none

/-- What a call appends: `payloadHash` is the digest of its payload. -/
structure JournalInput where
  missionId : String
  eventId : String
  eventType : MissionOrchestrationEventType
  status : MissionOrchestrationJournalStatus
  payloadHash : String
  requestedBy : Option String := none
  causationId : Option String := none
  correlationId : Option String := none
  scope : Option EventScopeInput := none
  operation : PartialOperation := {}
  outcome : Option MissionOperationOutcome := none

/-- `operation?.id || eventId` -/
def JournalInput.operationId (input : JournalInput) : String :=
  orElse input.operation.id input.eventId

def outcomeForStatus : MissionOrchestrationJournalStatus → MissionOperationOutcome
  | .enqueued => { status := .pending }
  | .completed => { status := .completed }
  | .failed => { status := .failed }

/-- The entry schema, as far as the types leave it open. -/
def fitsSchema (entry : MissionOrchestrationJournalEntry) : Bool :=
  entry.ts ≠ "" && entry.eventId ≠ "" && entry.missionId ≠ "" && entry.payloadHash ≠ "" &&
    entry.operation.id ≠ "" && decide (1 ≤ entry.operation.attempt) &&
    entry.requestedBy ≠ some "" && entry.causationId ≠ some "" && entry.correlationId ≠ some "" &&
    entry.scope.all fun scope => scope.scopeKind.isSome && scope.tier.isSome

/-- `validate` of the entry catalog. -/
def validateEntry (entry : MissionOrchestrationJournalEntry) :
    Except String MissionOrchestrationJournalEntry :=
  throwIf (fitsSchema entry = false) "Invalid catalog mission-orchestration-journal-entry"
    (.ok entry)

def normalizeScope : Option EventScopeInput → Except String (Option EventScopeInput)
  | none => .ok none
  | some scope =>
      match normalizeEventScope scope with
      | .ok normalized => .ok (some normalized.toInput)
      | .error _ => .error "record scope shape"

/-- A pending outcome is read again from the status of the entry. -/
def normalizeOutcome (status : MissionOrchestrationJournalStatus)
    (outcome : MissionOperationOutcome) : MissionOperationOutcome where
  status := if outcome.status = .pending then (outcomeForStatus status).status else outcome.status
  reason := outcome.reason

def normalizeJournalEntry (raw : MissionOrchestrationJournalEntry) :
    Except String MissionOrchestrationJournalEntry := do
  let scope ← normalizeScope raw.scope
  return { raw with
    operation.attempt := if 0 < raw.operation.attempt then raw.operation.attempt else 1
    outcome := normalizeOutcome raw.status raw.outcome
    scope }

def loadEntry (line : MissionOrchestrationJournalEntry) :
    Except String MissionOrchestrationJournalEntry := do
  normalizeJournalEntry (← validateEntry line)

def unreadableEntry (lineNumber : ℕ) : String :=
  "MISSION_LOG_CORRUPT:journal_entry_unreadable:" ++ toString lineNumber

/-- The loop over the lines of a journal; `lineNumber` is that of the first one. -/
def readJsonLines {α β : Type} (map : α → Except String β) (onMalformed : ℕ → String)
    (lineNumber : ℕ) : List α → Except String (List β)
  | [] => .ok []
  | line :: lines =>
      match map line with
      | .ok value => (readJsonLines map onMalformed (lineNumber + 1) lines).map (value :: ·)
      | .error _ => .error (onMalformed lineNumber)

def loadMissionOrchestrationJournal (journal : List MissionOrchestrationJournalEntry) :
    Except String (List MissionOrchestrationJournalEntry) :=
  readJsonLines loadEntry unreadableEntry 1 journal

def isRetry (status : MissionOrchestrationJournalStatus)
    (previous : Option MissionOrchestrationJournalEntry) : Bool :=
  status = .enqueued && previous.any fun entry =>
    entry.outcome.status = .failed || entry.outcome.status = .aborted ||
      entry.outcome.status = .declined || entry.outcome.status = .suspended

/-- The attempt that `resolveOperation` gives. -/
def resolveAttempt (explicitAttempt : Option ℤ) (status : MissionOrchestrationJournalStatus)
    (previous : Option MissionOrchestrationJournalEntry) : ℕ :=
  let previousAttempt := (previous.map (·.operation.attempt)).getD 0
  match explicitAttempt.filter (0 < ·) with
  | some attempt => attempt.toNat
  | none => if isRetry status previous then previousAttempt + 1 else max previousAttempt 1

def operationKey (entry : MissionOrchestrationJournalEntry) : Option String :=
  some entry.operation.id

def resolveOperation (journal : List MissionOrchestrationJournalEntry) (input : JournalInput) :
    Except String MissionOperation := do
  let entries ← loadMissionOrchestrationJournal journal
  let previous := lastFor operationKey input.operationId entries
  return {
    id := input.operationId
    kind := input.operation.kind.getD ((previous.map (·.operation.kind)).getD .run)
    attempt := resolveAttempt input.operation.attempt input.status previous }

/-- One round of the loop of `reduceMissionState`. -/
def reduceEntry (operations : Record ReducedMissionOperation)
    (raw : MissionOrchestrationJournalEntry) :
    Except String (Record ReducedMissionOperation) := do
  let entry ← normalizeJournalEntry raw
  let reduced : ReducedMissionOperation :=
    ⟨entry.eventId, entry.operation, entry.outcome, entry.status⟩
  match operations.get entry.operation.id with
  | .inherited => .error "Cannot read properties of undefined (reading 'attempt')"
  | .absent => .ok (operations.set entry.operation.id reduced)
  | .own previous =>
      throwIf (entry.operation.attempt < previous.operation.attempt)
        ("MISSION_LOG_CORRUPT:operation_attempt_regression:" ++ entry.operation.id)
        (.ok (operations.set entry.operation.id reduced))

def reduceMissionState (records : List MissionOrchestrationJournalEntry) :
    Except String ReducedMissionState := do
  let operations ← records.foldlM reduceEntry Record.empty
  let pending := operations.values.filter fun entry => entry.outcome.status ≠ .completed
  return {
    operations
    pendingOperationIds := pending.map (·.operation.id)
    terminalFailure := pending.find? fun entry => entry.outcome.status = .failed }

/-- What the replay plan makes of the journal. -/
def readSnapshot (journal : List MissionOrchestrationJournalEntry) :
    Except String ReducedMissionState := do
  reduceMissionState (← loadMissionOrchestrationJournal journal)

/-- The entry that a call builds and validates before it takes the writer lease. -/
def buildEntry (toUpperCase : String → String) (ts : String)
    (journal : List MissionOrchestrationJournalEntry) (input : JournalInput) :
    Except String MissionOrchestrationJournalEntry := do
  let operation ← resolveOperation journal input
  validateEntry {
    ts
    eventId := input.eventId
    eventType := input.eventType
    missionId := toUpperCase input.missionId
    status := input.status
    payloadHash := input.payloadHash
    operation
    outcome := input.outcome.getD (outcomeForStatus input.status)
    requestedBy := input.requestedBy.filter (· ≠ "")
    causationId := input.causationId.filter (· ≠ "")
    correlationId := input.correlationId.filter (· ≠ "")
    scope := input.scope }

end Kyberion.Mission
