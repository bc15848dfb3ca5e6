import Kyberion.Js.Record
import Kyberion.Js.Throw
import Mathlib.Data.Rat.Defs

/-!
The state of a worker as its journal gives it: every record applies one
operation. A compaction receipt extends the chain of its scope and is refused
by the replay when it does not.
-/

namespace Kyberion.Workforce

open Js

inductive GoalState
  | active | paused | blocked | complete
  deriving DecidableEq

inductive GoalTerminalKind
  | technical | business
  deriving DecidableEq

structure GoalBudget where
  tokenBudget : Option ℚ := none
  turnBudget : Option ℚ := none
  wallClockBudgetMs : Option ℚ := none
  deriving DecidableEq

structure GoalBudgetStats where
  tokensUsed : ℚ
  turnsUsed : ℚ
  wallClockMsUsed : ℚ
  deriving DecidableEq

structure GoalRuntimeState where
  goalId : String
  objective : String
  state : GoalState
  turnCount : ℚ
  blockedStreak : ℚ
  pendingBlockerSignature : Option String := none
  terminalKind : Option GoalTerminalKind := none
  terminalReason : Option String := none
  missionId : Option String := none
  createdAt : String
  updatedAt : String
  budget : Option GoalBudget := none
  budgetStats : Option GoalBudgetStats := none
  deriving DecidableEq

inductive DelegationStatus
  | started | completed | failed
  deriving DecidableEq

structure DelegationLedgerEntry where
  delegationId : String
  owner : String
  instruction : String
  status : DelegationStatus
  background : Option Bool := none
  createdAt : String
  completedAt : Option String := none
  resultSummary : Option String := none
  error : Option String := none
  missionId : Option String := none
  deriving DecidableEq

structure PendingApprovalRef where
  requestId : String
  channel : Option String := none
  requestedBy : Option String := none
  deriving DecidableEq

inductive OneShotReminderOrigin
  | goalCancel | missionFork
  deriving DecidableEq

structure OneShotReminder where
  id : String
  text : String
  origin : OneShotReminderOrigin
  deriving DecidableEq

structure CompactionSnapshotReceipt where
  id : String
  parentId : Option String := none
  generation : ℕ
  scopeKey : String
  artifactPath : String
  sha256 : String
  sourceSha256 : String
  createdAt : ℚ
  expiresAt : ℚ
  deriving DecidableEq

structure WorkerRestorableState where
  compactionSnapshots : Option (Record (List CompactionSnapshotReceipt)) := none
  goal : Option GoalRuntimeState := none
  delegations : Record DelegationLedgerEntry := Record.empty
  pendingApprovals : Record PendingApprovalRef := Record.empty
  pendingReminder : Option OneShotReminder := none

/-- The operations of `WORKER_STATE_OPS` with their payloads. -/
inductive WorkerOp
  | compactionCommit (receipt : CompactionSnapshotReceipt)
  | goalUpsert (goal : GoalRuntimeState)
  | goalCancel (goalId reminderId : String)
  | delegationUpsert (entry : DelegationLedgerEntry)
  | approvalRequest (ref : PendingApprovalRef)
  | approvalResolve (requestId : String)
  | missionFork (reminderId : String) (forkedFrom : Option String)
  | reminderConsume (reminderId : String)
  deriving DecidableEq

/-- A record of the current version. -/
structure JournalEventEnvelope where
  seq : ℕ
  ts : String
  op : WorkerOp
  deriving DecidableEq

def GOAL_CANCEL_SYSTEM_REMINDER : String :=
  "The previously active goal has been cleared. Ignore all earlier active-goal reminders and " ++
  "continuation instructions; there is no active goal to pursue unless a new one is stated."

def MISSION_FORK_SYSTEM_REMINDER : String :=
  "This worker was forked to a new mission. Ignore all earlier active-goal and continuation " ++
  "reminders inherited from the parent; only goals stated for THIS mission apply."

def MAX_COMPACTION_RETENTION_MS : ℚ := 30 * 86400000

/-- `/^[a-f0-9]{64}$/` -/
def isSha256 (s : String) : Bool :=
  s.length = 64 && s.toList.all fun c => c.isDigit || ['a', 'b', 'c', 'd', 'e', 'f'].contains c

section Kernel

variable (isUuid : String → Bool)

/-- `compactionSnapshotReceiptSchema` -/
def fitsReceiptSchema (receipt : CompactionSnapshotReceipt) : Bool :=
  isUuid receipt.id && receipt.parentId.all isUuid && decide (1 ≤ receipt.generation) &&
    receipt.scopeKey ≠ "" && receipt.artifactPath ≠ "" && isSha256 receipt.sha256 &&
    isSha256 receipt.sourceSha256 && decide (0 ≤ receipt.createdAt) &&
    decide (0 < receipt.expiresAt) && decide (receipt.createdAt < receipt.expiresAt) &&
    decide (receipt.expiresAt - receipt.createdAt ≤ MAX_COMPACTION_RETENTION_MS)

/-- `validatePayload`: the types leave only the receipts open. -/
def WorkerOp.valid : WorkerOp → Bool
  | .compactionCommit receipt => fitsReceiptSchema isUuid receipt
  | _ => true

/-- `state.compactionSnapshots?.[scopeKey] ?? []` -/
def snapshotsFor (state : WorkerRestorableState) (scopeKey : String) :
    Except String (List CompactionSnapshotReceipt) :=
  match state.compactionSnapshots with
  | none => .ok []
  | some record =>
      match record.get scopeKey with
      | .own snapshots => .ok snapshots
      | .absent => .ok []
      | .inherited => .error "snapshots.at is not a function"

/-- The receipt names the last one as its parent and takes the next generation. -/
def extendsTip (snapshots : List CompactionSnapshotReceipt) (receipt : CompactionSnapshotReceipt) :
    Bool :=
  receipt.parentId = snapshots.getLast?.map (·.id) &&
    receipt.generation = (snapshots.getLast?.map (·.generation)).getD 0 + 1

def addSnapshot (state : WorkerRestorableState) (snapshots : List CompactionSnapshotReceipt)
    (receipt : CompactionSnapshotReceipt) : WorkerRestorableState :=
  { state with
    compactionSnapshots := some ((state.compactionSnapshots.getD Record.empty).set receipt.scopeKey
      (snapshots ++ [receipt])) }

def applyCompaction (state : WorkerRestorableState) (receipt : CompactionSnapshotReceipt) :
    Except String WorkerRestorableState := do
  let snapshots ← snapshotsFor state receipt.scopeKey
  match snapshots.find? fun row => row.id = receipt.id with
  | some row => throwIf (row ≠ receipt) "[COMPACTION_LINEAGE] Conflicting receipt" (.ok state)
  | none =>
      throwIf (extendsTip snapshots receipt = false)
        "[COMPACTION_LINEAGE] Ambiguous or stale snapshot parent"
        (.ok (addSnapshot state snapshots receipt))

/-- The `apply` of an operation. -/
def WorkerOp.apply (state : WorkerRestorableState) :
    WorkerOp → Except String WorkerRestorableState
  | .compactionCommit receipt => applyCompaction state receipt
  | .goalUpsert goal => .ok { state with goal := some goal }
  | .goalCancel _ reminderId => .ok { state with
      goal := none
      pendingReminder := some ⟨reminderId, GOAL_CANCEL_SYSTEM_REMINDER, .goalCancel⟩ }
  | .delegationUpsert entry => .ok { state with
      delegations := state.delegations.set entry.delegationId entry }
  | .approvalRequest ref => .ok { state with
      pendingApprovals := state.pendingApprovals.set ref.requestId ref }
  | .approvalResolve requestId =>
      if state.pendingApprovals.has requestId then
        .ok { state with pendingApprovals := state.pendingApprovals.erase requestId }
      else .ok state
  | .missionFork reminderId _ => .ok { state with
      pendingReminder := some ⟨reminderId, MISSION_FORK_SYSTEM_REMINDER, .missionFork⟩ }
  | .reminderConsume reminderId =>
      if state.pendingReminder.all fun reminder => reminder.id ≠ reminderId then .ok state
      else .ok { state with pendingReminder := none }

/-- One round of `project`; a payload that does not validate is skipped, a receipt refused. -/
def projectEvent (state : WorkerRestorableState) (event : JournalEventEnvelope) :
    Except String WorkerRestorableState :=
  if event.op.valid isUuid then event.op.apply state
  else
    match event.op with
    | .compactionCommit _ => .error "[COMPACTION_LINEAGE] Invalid snapshot receipt"
    | _ => .ok state

def project (events : List JournalEventEnvelope) : Except String WorkerRestorableState :=
  events.foldlM (projectEvent isUuid) {}

/-- What `recordCompaction` checks of a receipt before it appends it. -/
def checkCompaction (events : List JournalEventEnvelope) (receipt : CompactionSnapshotReceipt) :
    Except String Unit := do
  let state ← project isUuid events
  let snapshots ← snapshotsFor state receipt.scopeKey
  throwIf (fitsReceiptSchema isUuid receipt = false) "Invalid snapshot receipt" <|
  throwIf (extendsTip snapshots receipt = false) "[COMPACTION_LINEAGE] Stale snapshot commit" <|
  .ok ()

end Kernel

/-- `maxSeq + 1` -/
def nextSeq (events : List JournalEventEnvelope) : ℕ :=
  events.foldl (fun next event => max next (event.seq + 1)) 0

end Kyberion.Workforce
