import Kyberion.Js.Json
import Kyberion.Js.Throw
import Kyberion.Keyed
import Kyberion.Latest

/-!
The ledger of dot actions: a shared index, and for each private scope a file of full records. An
index row of a private record holds the hash of the record and is read through it.
-/

namespace Kyberion.Dot

open Js (Json throwIf)

inductive ScopeTier
  | public_
  | confidential
  | personal
  deriving DecidableEq

structure DotScope where
  tier : ScopeTier
  tenantSlug : Option String := none
  organizationId : Option String := none
  projectId : Option String := none
  ownerNhi : Option String := none
  deriving DecidableEq

structure FrontDeskExecutionBinding where
  diagnosticProtocol : Option String := none
  mappingId : String
  configDigest : String
  conversationKey : String
  requestId : String
  revision : ℕ
  requestDigest : String
  workItemId : String
  parentRequestId : Option String := none
  parentRevision : Option ℕ := none
  parentSha256 : Option String := none
  receiptFormat : Option String := none
  deriving DecidableEq

/-- `D` stands for the texts of 64 hexadecimal digits. -/
structure RecoveryReceipt (D : Type) where
  binding : FrontDeskExecutionBinding
  actionRef : String
  approvalRequestId : String
  approvalHash : D
  actionHash : D
  displayDigest : D
  actorId : String
  memberId : String
  browserSessionId : String
  terminatedAt : String
  recoveryId : Option D := none
  deriving DecidableEq

inductive DotActionStatus
  | admitted
  | dispatched
  | parked
  | waitingCapacity
  | refused
  | shadow
  | declined
  deriving DecidableEq

inductive WorkShape
  | mission
  | taskSession
  | pipeline
  | directReply
  deriving DecidableEq

/-- What a row holds under `private_content_hash`; `blank` is falsy. -/
inductive ContentHash (D : Type)
  | blank
  | malformed
  | digest (d : D)

structure DotActionRecord (D : Type) where
  scope : Option DotScope := none
  privateContentHash : Option (ContentHash D) := none
  semanticJudgment : Option Json := none
  admission : Option Json := none
  recoveryReceipt : Option (RecoveryReceipt D) := none
  frontDeskExecution : Option FrontDeskExecutionBinding := none
  actionRef : String
  dotId : String
  actorId : String
  actionId : String
  title : String
  objective : String
  workShape : WorkShape
  status : DotActionStatus
  proposalHash : String
  requestId : Option String := none
  workItemId : Option String := none
  handoffTo : Option String := none
  reason : Option String := none
  at_ : String
  /-- The fields of the proposal and of the gate, which the ledger only hands on. -/
  content : List (String × Json) := []

variable {D : Type}

def DotActionRecord.carriesHash (row : DotActionRecord D) : Bool :=
  match row.privateContentHash with
  | none | some .blank => false
  | some .malformed | some (.digest _) => true

inductive Evidence (D : Type)
  | action (record : DotActionRecord D)
  | binding (binding : FrontDeskExecutionBinding)
  | receipt (receipt : RecoveryReceipt D)

/-- What the ledger is given: the hash, the paths of the scoped files, and the schemas. -/
structure Host (D : Type) where
  recoveryEvidenceHash : Evidence D → D
  dotStatePath : DotScope → Except String String
  parseBinding : FrontDeskExecutionBinding → Bool
  parseReceipt : RecoveryReceipt D → Bool
  assertDotActionJudgmentBinding : DotActionRecord D → Except String Unit
  validRow : DotActionRecord D → Bool

/-- The lines of the files; a line that does not parse is `none`. -/
structure Ledger (D : Type) where
  index : List (Option (DotActionRecord D))
  scopedFiles : String → List (Option (DotActionRecord D))

def Ledger.rows (files : Ledger D) : List (DotActionRecord D) :=
  files.index.filterMap id

def Ledger.appendIndex (files : Ledger D) (row : DotActionRecord D) : Ledger D :=
  { files with index := files.index ++ [some row] }

def Ledger.appendScoped (files : Ledger D) (file : String) (row : DotActionRecord D) : Ledger D :=
  { files with scopedFiles :=
      Function.update files.scopedFiles file (files.scopedFiles file ++ [some row]) }

/-- An optional text that counts: the empty one is falsy. -/
def present (s : Option String) : Option String :=
  s.filter fun t => t ≠ ""

section Reads

variable [DecidableEq D] (host : Host D)

def Host.dotActionRecordHash (record : DotActionRecord D) : D :=
  host.recoveryEvidenceHash (.action record)

def Host.sameRecoveryReceipt (a b : RecoveryReceipt D) : Bool :=
  host.recoveryEvidenceHash (.receipt a) = host.recoveryEvidenceHash (.receipt b)

def assertPrivateIndexHasNoJudgmentBody (record : DotActionRecord D) : Except String Unit :=
  throwIf (record.privateContentHash.isSome ∧
      (record.semanticJudgment.isSome ∨ record.admission.isSome))
    "[DOT_ACTION_CONTENT_UNAVAILABLE] shared index contains private judgment body" (.ok ())

def actionIndex (record : DotActionRecord D) : DotActionRecord D where
  scope := record.scope
  privateContentHash := some (.digest (host.dotActionRecordHash record))
  actionRef := record.actionRef
  dotId := record.dotId
  actorId := record.actorId
  actionId := record.actionId
  title := "[scoped action]"
  objective := "[scoped action]"
  workShape := record.workShape
  status := record.status
  proposalHash := record.proposalHash
  at_ := record.at_
  workItemId := present record.workItemId
  requestId := present record.requestId
  handoffTo := present record.handoffTo
  frontDeskExecution := record.frontDeskExecution

/-- The first row of a scoped file with this reference and hash. -/
def scopedEvidence (lines : List (Option (DotActionRecord D))) (actionRef : String) (hash : D) :
    Option (DotActionRecord D) :=
  (lines.filterMap id).find? fun row =>
    row.actionRef = actionRef && !row.carriesHash && host.dotActionRecordHash row = hash

/-- `nhi` is the trimmed identity of the process. -/
def hydratePrivateAction (nhi : Option String) (files : Ledger D) (record : DotActionRecord D) :
    Except String (DotActionRecord D) := do
  assertPrivateIndexHasNoJudgmentBody record
  match record.privateContentHash with
  | none =>
      host.assertDotActionJudgmentBinding record
      .ok record
  | some (.digest hash) =>
      match record.scope with
      | none => .error "[DOT_ACTION_CONTENT_UNAVAILABLE] invalid private index scope"
      | some scope =>
          throwIf (scope.tier = .public_)
            "[DOT_ACTION_CONTENT_UNAVAILABLE] invalid private index scope" <|
          throwIf (scope.tier = .personal ∧ scope.ownerNhi ≠ nhi)
            "[DOT_PERSONAL_OWNER] personal action belongs to another process owner" <| do
          let file ← host.dotStatePath scope
          match scopedEvidence host (files.scopedFiles file) record.actionRef hash with
          | none =>
              .error ("[DOT_ACTION_CONTENT_UNAVAILABLE] scoped action evidence missing or " ++
                "changed; do not execute the shared index")
          | some full =>
              throwIf (full.scope ≠ record.scope)
                ("[DOT_ACTION_CONTENT_UNAVAILABLE] scoped action evidence missing or changed; " ++
                  "do not execute the shared index") <| do
              host.assertDotActionJudgmentBinding full
              .ok full
  | some _ => .error "[DOT_ACTION_CONTENT_UNAVAILABLE] invalid private content identity"

/-- A row of the shared index as its readers see it: an inline private record is its own index. -/
def indexedRow (row : DotActionRecord D) : DotActionRecord D :=
  match row.scope with
  | none => actionIndex host row
  | some scope => if scope.tier ≠ .public_ && !row.carriesHash then actionIndex host row else row

/-- One row of `iterateDotActionLedger`, read in full. -/
def readRow (nhi : Option String) (files : Ledger D) (row : DotActionRecord D) :
    Except String (DotActionRecord D) := do
  assertPrivateIndexHasNoJudgmentBody row
  hydratePrivateAction host nhi files (indexedRow host row)

/-- `Map.set`. -/
def setEntry (key : String) (value : DotActionRecord D)
    (entries : List (String × DotActionRecord D)) : List (String × DotActionRecord D) :=
  if (Keyed.find Prod.fst key entries).isSome then
    Keyed.update Prod.fst key (fun _ => (key, value)) entries
  else entries ++ [(key, value)]

/-- One row entered into the map of the latest records of a dot. -/
def latestEntry (nhi : Option String) (files : Ledger D) (dotId : String)
    (latest : List (String × DotActionRecord D)) (row : DotActionRecord D) :
    Except String (List (String × DotActionRecord D)) := do
  assertPrivateIndexHasNoJudgmentBody row
  if row.dotId = dotId then
    let full ← hydratePrivateAction host nhi files (indexedRow host row)
    .ok (setEntry row.actionRef full latest)
  else .ok latest

def currentDotActions (nhi : Option String) (files : Ledger D) (dotId : String) :
    Except String (List (DotActionRecord D)) := do
  let latest ← files.rows.foldlM (latestEntry host nhi files dotId) []
  .ok (latest.map Prod.snd)

/-- The receipt of a row belongs to the row. -/
def receiptMatches (row : DotActionRecord D) (receipt : RecoveryReceipt D) : Bool :=
  receipt.actionRef = row.actionRef && row.requestId = some receipt.approvalRequestId &&
    row.frontDeskExecution.any fun binding =>
      host.recoveryEvidenceHash (.binding receipt.binding) =
        host.recoveryEvidenceHash (.binding binding)

/-- The strict checks of one row of the dot. -/
def validateRow (nhi : Option String) (files : Ledger D) (row : DotActionRecord D) :
    Except String (DotActionRecord D) := do
  assertPrivateIndexHasNoJudgmentBody row
  throwIf (row.privateContentHash.any fun hash => hash matches .blank | .malformed)
    "invalid_action_evidence" <|
  throwIf (row.scope = none)
    "[DOT_STATE_MIGRATION_REQUIRED] legacy action evidence has no trustworthy scope" <|
  throwIf (¬ host.validRow row ∨ row.recoveryReceipt.any fun receipt =>
      !host.parseReceipt receipt || row.status ≠ .declined)
    "invalid_action_evidence" <|
  throwIf (row.recoveryReceipt.any fun receipt => !receiptMatches host row receipt)
    "invalid_recovery_action_evidence" <| do
  if row.privateContentHash.isNone then host.assertDotActionJudgmentBinding row
  hydratePrivateAction host nhi files (indexedRow host row)

/-- The strict read of one dot: every row of the dot is read in full, or the read fails. -/
def strictRows (nhi : Option String) (files : Ledger D) (dotId : String) :
    List (Option (DotActionRecord D)) → Except String (List (DotActionRecord D))
  | [] => .ok []
  | none :: _ => .error "malformed line"
  | some row :: rest =>
      if row.dotId = dotId then do
        let full ← validateRow host nhi files row
        let others ← strictRows nhi files dotId rest
        .ok (full :: others)
      else strictRows nhi files dotId rest

def readDotActionLedgerStrict (nhi : Option String) (files : Ledger D) (dotId : String) :
    Except String (List (DotActionRecord D)) :=
  strictRows host nhi files dotId files.index

end Reads

section Writes

variable [DecidableEq D] (host : Host D)

/-- The checks of `appendActionRecord` in front of its locks. -/
def assertAppendable (record : DotActionRecord D) : Except String Unit := do
  match record.scope with
  | none =>
      .error "[DOT_ACTION_SCOPE_REQUIRED] action writers must bind a trusted charter scope"
  | some scope =>
      let _ ← host.dotStatePath scope
      host.assertDotActionJudgmentBinding record

inductive AppendStep (D : Type)
  | returned (current : DotActionRecord D)
  | scopedFile (file : String)
  | shared

/-- What `write` reads first, for a record with a binding. -/
def currentForWrite (nhi : Option String) (files : Ledger D) (record : DotActionRecord D) :
    Except String (Option (DotActionRecord D)) :=
  match record.frontDeskExecution with
  | none => .ok none
  | some _ => do
      let actions ← currentDotActions host nhi files record.dotId
      .ok (actions.find? fun row => row.actionRef = record.actionRef)

/-- What `write` does under its locks: a stale writer does not write over a recovery receipt. -/
def appendStep (nhi : Option String) (files : Ledger D) (record : DotActionRecord D) :
    Except String (AppendStep D) := do
  let current ← currentForWrite host nhi files record
  match current.filter fun row => row.recoveryReceipt.isSome with
  | some row => .ok (.returned row)
  | none =>
      throwIf record.privateContentHash.isSome
        ("[DOT_ACTION_CONTENT_UNAVAILABLE] shared index cannot be appended as executable " ++
          "evidence") <|
      match record.scope with
      | none => .ok .shared
      | some scope =>
          if scope.tier = .public_ then .ok .shared
          else do
            let file ← host.dotStatePath scope
            .ok (.scopedFile file)

/-- The arguments of `declineRecoveredDotAction` belong together. -/
def recoveryMatches (expected : DotActionRecord D) (receipt : RecoveryReceipt D) : Bool :=
  expected.frontDeskExecution.any (fun binding =>
    host.parseReceipt receipt &&
      host.recoveryEvidenceHash (.binding binding) =
        host.recoveryEvidenceHash (.binding receipt.binding)) &&
    receipt.actionRef = expected.actionRef &&
    expected.requestId = some receipt.approvalRequestId

/-- What is known of the request outside the ledger. -/
structure FrontDeskRequest (D : Type) where
  terminatedUnstarted : Bool
  recoveryReceipt : Option (RecoveryReceipt D)
  /-- `assertUndispatchedWorkItemEvidenceHeld` returns. -/
  undispatched : Bool

def recoveredRecord (latest : DotActionRecord D) (receipt : RecoveryReceipt D) :
    DotActionRecord D :=
  { latest with
    status := .declined
    reason := some "terminated_unstarted"
    recoveryReceipt := some receipt
    at_ := receipt.terminatedAt }

inductive DeclineStep (D : Type)
  | returned (latest : DotActionRecord D)
  | append (record : DotActionRecord D)

/-- The reads and checks of `declineRecoveredDotAction` under the dispatch lock. -/
def declineStep (nhi : Option String) (files : Ledger D) (expected : DotActionRecord D)
    (receipt : RecoveryReceipt D) (request : FrontDeskRequest D) :
    Except String (DeclineStep D) :=
  throwIf (¬ request.terminatedUnstarted ∨
      ¬ request.recoveryReceipt.any fun tombstone => host.sameRecoveryReceipt tombstone receipt)
    "recovery_tombstone_required" <| do
  let rows ← readDotActionLedgerStrict host nhi files expected.dotId
  match (rows.filter fun row => row.actionRef = expected.actionRef).getLast? with
  | none => .error "recovery_action_changed"
  | some latest =>
      if latest.status = .declined ∧
          latest.recoveryReceipt.any fun known => host.sameRecoveryReceipt known receipt then
        .ok (.returned latest)
      else
        throwIf (latest.status ≠ .parked ∨ (present latest.workItemId).isSome ∨
            host.dotActionRecordHash latest ≠ receipt.actionHash ∨
            host.dotActionRecordHash expected ≠ receipt.actionHash)
          "recovery_action_changed" <|
        throwIf (¬ request.undispatched) "work item evidence" <| do
        -- the checks of the append it makes
        assertAppendable host (recoveredRecord latest receipt)
        .ok (.append (recoveredRecord latest receipt))

structure DotCharter where
  dotId : String
  scope : DotScope

/-- The record that a migration writes for a row, and the scoped file it goes to. -/
def migrateRow (charter : DotCharter) (row : DotActionRecord D) :
    Except String (Option (String × DotActionRecord D)) :=
  if row.dotId ≠ charter.dotId ∨ row.carriesHash ∨
      row.scope.any (fun scope => scope.tier = .public_) then .ok none
  else
    throwIf (row.scope.any fun scope => scope ≠ charter.scope)
      "[DOT_STATE_MIGRATION_SCOPE] inline action scope differs from reviewed charter" <| do
    let full := { row with scope := some charter.scope }
    host.assertDotActionJudgmentBinding full
    let file ← host.dotStatePath charter.scope
    .ok (some (file, full))

/-- The row of the shared index after a migration. -/
def migratedRow (charter : DotCharter) (row : DotActionRecord D) : DotActionRecord D :=
  match migrateRow host charter row with
  | .ok (some (_, full)) =>
      if charter.scope.tier = .public_ then full else actionIndex host full
  | _ => row

end Writes

end Kyberion.Dot
