import Kyberion.Call
import Kyberion.Grammar
import Kyberion.Js.Fields
import Kyberion.Js.Text
import Kyberion.Js.Throw
import Kyberion.Latest
import Mathlib.Data.List.Sort

/-!
Work items, leases and the two append-only logs of the coordination store. The
current record of an id is its last one. Instants are the millisecond clock;
the event feed, which no operation reads back, is left out.
-/

namespace Kyberion.Work

open Js (Json isBlank trim throwIf)

inductive WorkItemStatus
  | backlog | ready | inProgress | blocked | review | done | archived
  deriving DecidableEq, Repr

inductive WorkItemPriority
  | low | normal | high | urgent
  deriving DecidableEq, Repr

inductive WorkItemSource
  | localStore | github | jira | peer
  deriving DecidableEq, Repr

inductive WorkShape
  | solutionProject | serviceOperation | routineOperation | incidentResponse
  | governanceCadence | improvementExperiment
  deriving DecidableEq, Repr

structure WorkItemContext where
  organizationId : Option String := none
  tenantSlug : Option String := none
  missionId : Option String := none
  projectId : Option String := none
  taskId : Option String := none
  workShape : Option WorkShape := none
  deriving DecidableEq, Repr

/-- A metadata object; a caller may put in it what `JSON.stringify` throws on. -/
structure Metadata where
  fields : List (String × Json)
  serializable : Bool := true

inductive WorkItemAttemptStatus
  | running | released | completed | blocked | failed | handedOff
  deriving DecidableEq, Repr

structure WorkItemAttempt where
  attemptId : String
  runId : String
  status : WorkItemAttemptStatus
  startedAt : ℤ
  endedAt : Option ℤ := none
  actorPeerId : Option String := none
  actorUserId : Option String := none
  leaseId : Option String := none
  summary : Option String := none
  blockedReason : Option String := none
  failureReason : Option String := none
  traceId : Option String := none
  metadata : Option Metadata := none

inductive OwnershipState
  | held | settled
  deriving DecidableEq, Repr

inductive Settlement
  | completed | preEffect | humanVerified | executionAborted
  deriving DecidableEq, Repr

structure WorkEffectOwnership where
  target : String
  attemptId : String
  actorId : String
  tenantSlug : Option String := none
  state : OwnershipState
  acquiredAt : ℤ
  settledAt : Option ℤ := none
  settlement : Option Settlement := none
  settlementEvidenceRef : Option String := none
  approvalRequestId : Option String := none
  deriving DecidableEq, Repr

structure WorkItem where
  effectOwnership : Option WorkEffectOwnership := none
  itemId : String
  title : String
  description : String
  status : WorkItemStatus
  priority : WorkItemPriority
  source : WorkItemSource
  sourceRef : String
  projectId : String
  assigneePeerId : Option String := none
  assigneeUserId : Option String := none
  labels : List String
  dependencies : List String
  version : ℕ
  createdAt : ℤ
  updatedAt : ℤ
  leaseId : Option String := none
  claimedAt : Option ℤ := none
  releasedAt : Option ℤ := none
  claimedByPeerId : Option String := none
  claimedByUserId : Option String := none
  currentAttemptId : Option String := none
  attempts : Option (List WorkItemAttempt) := none
  context : Option WorkItemContext := none
  metadata : Option Metadata := none

inductive WorkLeaseStatus
  | active | released | expired
  deriving DecidableEq, Repr

structure WorkLease where
  leaseId : String
  itemId : String
  holderPeerId : String
  holderUserId : Option String := none
  purpose : String
  status : WorkLeaseStatus
  expiresAt : ℤ
  createdAt : ℤ
  renewedAt : ℤ
  releasedAt : Option ℤ := none
  idempotencyKey : Option String := none
  payloadHash : Option String := none
  expectedVersion : Option ℤ := none
  previousLeaseId : Option String := none
  deriving DecidableEq, Repr

/-- `items.jsonl` and `leases.jsonl`. -/
structure Store where
  items : List WorkItem
  leases : List WorkLease

inductive ErrorCode
  | itemNotFound | leaseConflict | leaseNotFound | versionConflict | validationError
  | idempotencyConflict
  /-- Thrown below the coordination module. -/
  | thrown
  deriving DecidableEq, Repr

structure WorkError where
  code : ErrorCode
  message : String
  deriving DecidableEq, Repr

abbrev WorkCall (α : Type) := Call Store WorkError α

/-- An optional text that counts: the empty one is falsy. -/
def truthy (s : Option String) : Option String :=
  s.filter fun t => t ≠ ""

namespace Metadata

def get (m : Option Metadata) (key : String) : Option Json :=
  m.bind fun metadata => metadata.fields.lookup key

/-- `{ ...(base || {}), ...extra }` -/
def merge (base : Option Metadata) (extra : Metadata) : Metadata :=
  match base with
  | none => extra
  | some base => ⟨Js.spread base.fields extra.fields, base.serializable && extra.serializable⟩

/-- The object as a line holds it. -/
def persisted (m : Metadata) : Metadata :=
  { fields := Json.printedFields m.fields }

end Metadata

def WorkItemAttempt.persisted (a : WorkItemAttempt) : WorkItemAttempt :=
  { a with metadata := a.metadata.map Metadata.persisted }

def isTerminalStatus (status : WorkItemStatus) : Bool :=
  status = .done || status = .archived

namespace WorkItem

def attemptList (item : WorkItem) : List WorkItemAttempt :=
  item.attempts.getD []

/-- `JSON.stringify` returns. -/
def serializable (item : WorkItem) : Bool :=
  item.metadata.all (·.serializable) &&
    item.attemptList.all fun attempt => attempt.metadata.all (·.serializable)

/-- The snapshot as its line reads back. -/
def persisted (item : WorkItem) : WorkItem :=
  { item with
    metadata := item.metadata.map Metadata.persisted
    attempts := item.attempts.map fun attempts => attempts.map WorkItemAttempt.persisted }

end WorkItem

/-- `/^[A-Za-z0-9][A-Za-z0-9_-]*$/` -/
def isLabelValue (cs : List Char) : Bool :=
  let alnum (c : Char) : Bool := isLower c || isDigit c || ('A' ≤ c && c ≤ 'Z')
  match cs with
  | [] => false
  | c :: rest => alnum c && rest.all fun d => alnum d || d = '_' || d = '-'

/-- The text after `name:`, or the empty text after a bare `name`. -/
def afterNamespace (name : String) (label : String) : Option (List Char) :=
  match name.toList.isPrefixOf? label.toList with
  | some [] => some []
  | some (':' :: value) => some (':' :: value)
  | _ => none

/-- The label taxonomy: three governed namespaces, anything else that is not empty. -/
def isDisplayLabel (label : String) : Bool :=
  match afterNamespace "mission" label, afterNamespace "team_role" label,
      afterNamespace "governance" label with
  | some value, _, _ => isLabelValue (value.drop 1)
  | none, some value, _ => isLabelValue (value.drop 1)
  | none, none, some value => value.isEmpty || isLabelValue (value.drop 1)
  | none, none, none => label ≠ ""

def reservedTenants : List String :=
  ["public", "confidential", "personal", "shared"]

def nonEmpty (s : Option String) : Bool :=
  s.all fun t => t ≠ ""

/-- The `context` schema of a work item. -/
def isGovernedContext (context : WorkItemContext) : Bool :=
  nonEmpty context.organizationId && nonEmpty context.missionId && nonEmpty context.taskId &&
    context.projectId.any (fun t => t ≠ "") && context.workShape.isSome &&
    context.tenantSlug.all fun t => isValidMemberId t.toList && !reservedTenants.contains t

/-- The `governed-work-item` schema, as far as the types leave it open. -/
def isGovernedWorkItem (item : WorkItem) : Bool :=
  [item.itemId, item.title, item.description, item.sourceRef, item.projectId].all (· ≠ "") &&
    item.labels.all isDisplayLabel && decide (1 ≤ item.version) &&
    item.context.any isGovernedContext

def validateWorkItem (item : WorkItem) : Except WorkError Unit :=
  throwIf (!isGovernedWorkItem item) ⟨.validationError, "work-item schema violation"⟩ (.ok ())

def maxRetainedItemAttempts : ℕ := 10

def boundItemAttempts (item : WorkItem) : WorkItem :=
  match item.attempts with
  | none => item
  | some attempts =>
      if attempts.length ≤ maxRetainedItemAttempts then item
      else { item with attempts := some (attempts.drop (attempts.length - maxRetainedItemAttempts)) }

namespace Store

def empty : Store :=
  ⟨[], []⟩

/-- Only a non-empty id is indexed. -/
def itemKey (item : WorkItem) : Option String :=
  if item.itemId = "" then none else some item.itemId

def leaseKey (lease : WorkLease) : Option String :=
  if lease.leaseId = "" then none else some lease.leaseId

/-- Newest first. -/
def currentWorkItems (s : Store) : List WorkItem :=
  (latestById itemKey s.items).insertionSort fun a b => b.updatedAt ≤ a.updatedAt

def currentWorkItem (s : Store) (itemId : String) : Option WorkItem :=
  if isBlank itemId then none
  else s.currentWorkItems.find? fun item => item.itemId = trim itemId

def currentLeaseRecords (s : Store) : List WorkLease :=
  latestById leaseKey s.leases

def currentLeaseById (s : Store) (leaseId : String) : Option WorkLease :=
  if isBlank leaseId then none
  else s.currentLeaseRecords.find? fun lease => lease.leaseId = trim leaseId

end Store

/-- An unserialisable snapshot throws before it is written. -/
def appendItemSnapshot (item : WorkItem) : WorkCall WorkItem := do
  let bounded := boundItemAttempts item
  Call.lift (validateWorkItem bounded)
  Call.refuse (bounded.serializable = false) ⟨.thrown, "JSON.stringify"⟩
  Call.write fun s => { s with items := s.items ++ [bounded.persisted] }
  pure bounded

def appendLeaseSnapshot (lease : WorkLease) : WorkCall Unit :=
  Call.write fun s => { s with leases := s.leases ++ [lease] }

/-- Active and not lapsed. -/
def WorkLease.live (lease : WorkLease) (now : ℤ) : Bool :=
  lease.status = .active && decide (now < lease.expiresAt)

/-- The live lease of an item that was renewed last. -/
def Store.currentLeaseForItem (s : Store) (now : ℤ) (itemId : String) : Option WorkLease :=
  ((s.currentLeaseRecords.filter fun lease => lease.itemId = itemId && lease.live now).insertionSort
    fun a b => a.renewedAt ≤ b.renewedAt).getLast?

end Kyberion.Work
