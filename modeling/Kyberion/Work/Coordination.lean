import Kyberion.Work.Effect

/-!
The operations of the coordination store. Each runs under the coordination
lock, reads the clock once, and appends in the order of the source, so an
operation that throws keeps what it appended before.
-/

namespace Kyberion.Work

open Js (Json isBlank trim orElse)
open Approval (Host)

/-- A value of `randomUUID()`. -/
structure Uuid where
  chars : List Char
  wellFormed : chars.all (fun c => isDigit c || isLower c || c = '-') = true

structure HaltState where
  by_ : Option String := none

/-- What one call reads outside the store. -/
structure Env where
  now : ℤ
  host : Host
  halt : Option HaltState := none
  /-- The actor policy is enforced and does not know the actor. -/
  refusesActor : String → Bool
  tenantRegistered : String → Bool
  /-- The ids drawn in this call. -/
  uuids : ℕ → Uuid
  loadApproval : String → Option WorkEffectReleaseApproval
  separationEnabled : Bool

namespace Env

variable (env : Env)

def randomId (name : String) (n : ℕ) : String :=
  String.ofList (name.toList ++ '-' :: (env.uuids n).chars.take 8)

end Env

structure CreateWorkItemInput where
  itemId : Option String := none
  title : String
  description : String
  status : Option WorkItemStatus := none
  priority : Option WorkItemPriority := none
  source : Option WorkItemSource := none
  sourceRef : Option String := none
  projectId : Option String := none
  assigneePeerId : Option String := none
  assigneeUserId : Option String := none
  labels : List String := []
  dependencies : List String := []
  currentAttemptId : Option String := none
  attempts : Option (List WorkItemAttempt) := none
  context : WorkItemContext := {}
  metadata : Option Metadata := none

def normalizeWorkItemContext (input : WorkItemContext) (fallbackProjectId : Option String) :
    WorkItemContext where
  tenantSlug := truthy input.tenantSlug
  organizationId := truthy input.organizationId
  projectId := some (((truthy input.projectId).or (truthy fallbackProjectId)).getD "default")
  missionId := truthy input.missionId
  taskId := truthy input.taskId
  workShape := some (input.workShape.getD .routineOperation)

def buildWorkItemCreation (env : Env) (input : CreateWorkItemInput) :
    Except WorkError WorkItem :=
  let title := trim input.title
  let description := trim input.description
  Js.throwIf (title = "") ⟨.validationError, "title is required"⟩ <|
  Js.throwIf (description = "") ⟨.validationError, "description is required"⟩ <|
  .ok {
    itemId := orElse input.itemId (env.randomId "witem" 0)
    title := title
    description := description
    status := input.status.getD .backlog
    priority := input.priority.getD .normal
    source := input.source.getD .localStore
    sourceRef := orElse input.sourceRef (orElse input.itemId (env.randomId "src" 1))
    projectId := orElse input.projectId "default"
    assigneePeerId := truthy input.assigneePeerId
    assigneeUserId := truthy input.assigneeUserId
    labels := input.labels
    dependencies := input.dependencies
    version := 1
    createdAt := env.now
    updatedAt := env.now
    currentAttemptId := truthy input.currentAttemptId
    attempts := input.attempts
    context := some (normalizeWorkItemContext input.context input.projectId)
    metadata := input.metadata }

/-- The tenant is checked under the caller's authority, before the lock. -/
def assertWorkItemTenantRegistered (env : Env) (context : WorkItemContext) : WorkCall Unit :=
  Call.refuse ((truthy context.tenantSlug).any fun slug => !env.tenantRegistered slug)
    ⟨.thrown, "tenant is not registered"⟩

def createWorkItemInternal (env : Env) (input : CreateWorkItemInput) : WorkCall WorkItem := do
  let item ← Call.lift (buildWorkItemCreation env input)
  let s ← Call.read
  Call.refuse (s.currentWorkItem item.itemId).isSome
    ⟨.idempotencyConflict, "work item already exists: " ++ item.itemId⟩
  let _ ← appendItemSnapshot item
  pure item

def createWorkItem (env : Env) (input : CreateWorkItemInput) : WorkCall WorkItem := do
  assertWorkItemTenantRegistered env input.context
  createWorkItemInternal env input

/-- Equal metadata, whatever the order of the keys. -/
def sameMetadata (a b : Option Metadata) : Bool :=
  match a, b with
  | none, none => true
  | some a, some b => Json.deepEqual (.obj a.fields) (.obj b.fields)
  | _, _ => false

def sameAttempt (a b : WorkItemAttempt) : Bool :=
  a.attemptId = b.attemptId && a.runId = b.runId && a.status = b.status &&
    a.startedAt = b.startedAt && a.endedAt = b.endedAt && a.actorPeerId = b.actorPeerId &&
    a.actorUserId = b.actorUserId && a.leaseId = b.leaseId && a.summary = b.summary &&
    a.blockedReason = b.blockedReason && a.failureReason = b.failureReason &&
    a.traceId = b.traceId && sameMetadata a.metadata b.metadata

def sameAttempts (a b : Option (List WorkItemAttempt)) : Bool :=
  match a, b with
  | none, none => true
  | some a, some b => a.length = b.length && (a.zip b).all fun p => sameAttempt p.1 p.2
  | _, _ => false

/-- Two snapshots as their lines hold them, without `version`, `created_at` and `updated_at`. -/
def sameCreationIdentity (a b : WorkItem) : Bool :=
  a.itemId = b.itemId && a.title = b.title && a.description = b.description &&
    a.status = b.status && a.priority = b.priority && a.source = b.source &&
    a.sourceRef = b.sourceRef && a.projectId = b.projectId &&
    a.assigneePeerId = b.assigneePeerId && a.assigneeUserId = b.assigneeUserId &&
    a.labels = b.labels && a.dependencies = b.dependencies && a.leaseId = b.leaseId &&
    a.claimedAt = b.claimedAt && a.releasedAt = b.releasedAt &&
    a.claimedByPeerId = b.claimedByPeerId && a.claimedByUserId = b.claimedByUserId &&
    a.currentAttemptId = b.currentAttemptId && a.context = b.context &&
    a.effectOwnership = b.effectOwnership && sameAttempts a.attempts b.attempts &&
    sameMetadata a.metadata b.metadata

/-- The records are the history of one creation, and it is the candidate's. -/
def assertOriginalWorkItemIdentity (records : List WorkItem) (candidate : WorkItem) :
    Except WorkError Unit :=
  match records with
  | [] => .ok ()
  | original :: _ =>
      let conflict : WorkError :=
        ⟨.idempotencyConflict, "work item creation identity conflict: " ++ candidate.itemId⟩
      Js.throwIf (original.version ≠ 1 ∨ (records.filter fun item => item.version = 1).length ≠ 1)
        conflict <|
      Js.throwIf (candidate.serializable = false) ⟨.thrown, "JSON.stringify"⟩ <|
      Js.throwIf (¬ sameCreationIdentity original candidate.persisted) conflict (.ok ())

def createWorkItemIfAbsent (env : Env) (input : CreateWorkItemInput) : WorkCall WorkItem := do
  assertWorkItemTenantRegistered env input.context
  Call.refuse (isBlank (input.itemId.getD "")) ⟨.validationError, "itemId is required"⟩
  let candidate ← Call.lift (buildWorkItemCreation env input)
  let s ← Call.read
  let records := s.items.filter fun item => some item.itemId = input.itemId
  match records.getLast? with
  | none => createWorkItemInternal env input
  | some last =>
      Call.lift (assertOriginalWorkItemIdentity records candidate)
      pure last

/-- What the end of an attempt records about it. -/
structure AttemptEnd where
  summary : Option String := none
  blockedReason : Option String := none
  failureReason : Option String := none
  traceId : Option String := none
  metadata : Option Metadata := none

structure FinalizedAttempt where
  attempts : List WorkItemAttempt
  attempt : Option WorkItemAttempt

/-- The current attempt, else the last one. -/
def attemptIndex (current : WorkItem) : Option ℕ :=
  match truthy current.currentAttemptId with
  | some runId => current.attemptList.findIdx? fun attempt => attempt.runId = runId
  | none => if current.attemptList.isEmpty then none else some (current.attemptList.length - 1)

def finalizeWorkItemAttempt (now : ℤ) (current : WorkItem) (nextStatus : WorkItemAttemptStatus)
    (input : AttemptEnd) : FinalizedAttempt :=
  match attemptIndex current with
  | none => ⟨current.attemptList, none⟩
  | some index =>
      match current.attemptList[index]? with
      | none => ⟨current.attemptList, none⟩
      | some previous =>
          let attempt : WorkItemAttempt := { previous with
            status := nextStatus
            endedAt := some now
            summary := (truthy input.summary).or previous.summary
            blockedReason := (truthy input.blockedReason).or previous.blockedReason
            failureReason := (truthy input.failureReason).or previous.failureReason
            traceId := (truthy input.traceId).or previous.traceId
            metadata := match input.metadata with
              | some metadata => some (Metadata.merge previous.metadata metadata)
              | none => previous.metadata }
          ⟨current.attemptList.set index attempt, some attempt⟩

structure UpdateWorkItemInput where
  itemId : String
  expectedVersion : Option ℤ := none
  title : Option String := none
  description : Option String := none
  status : Option WorkItemStatus := none
  priority : Option WorkItemPriority := none
  projectId : Option String := none
  assigneePeerId : Option String := none
  assigneeUserId : Option String := none
  labels : Option (List String) := none
  dependencies : Option (List String) := none
  context : Option WorkItemContext := none
  metadata : Option Metadata := none
  endAttempt : Bool := false

/-- The next snapshot: cleared of its lease, or brought in line with the live one. -/
def nextItemSnapshot (env : Env) (current patched : WorkItem) (activeLease : Option WorkLease)
    (clearLease : Bool) : WorkItem :=
  let next := { patched with version := current.version + 1, updatedAt := env.now }
  if clearLease then
    { next with
      leaseId := none
      claimedAt := none
      releasedAt := some env.now
      claimedByPeerId := none
      claimedByUserId := none
      currentAttemptId := none }
  else match activeLease with
    | some lease =>
        { next with
          leaseId := some lease.leaseId
          claimedAt := some (current.claimedAt.getD lease.createdAt)
          claimedByPeerId := some lease.holderPeerId
          claimedByUserId := (truthy lease.holderUserId).or patched.claimedByUserId
          releasedAt := none }
    | none =>
        { next with
          leaseId := none
          claimedAt := none
          releasedAt := none
          claimedByPeerId := none
          claimedByUserId := none }

/-- The fields of a context that bind the execution scope. -/
def boundScope (context : WorkItemContext) : List (Option String) :=
  [context.tenantSlug, context.organizationId, context.projectId, context.missionId,
    context.taskId]

def textMetadata (metadata : Option Metadata) (key : String) : Option String :=
  match Metadata.get metadata key with
  | some (.str text) => some text
  | _ => none

/-- The refusals of an update that would resume or move held effects. -/
def assertUpdateAllowed (env : Env) (current : WorkItem) (input : UpdateWorkItemInput) :
    Except WorkError Unit := do
  assertVersion current input.expectedVersion
  if input.status = some .inProgress ∧ current.status ≠ .inProgress then
    let hold ← workEffectOwnership env.host current
    Js.throwIf (isHeld hold)
      ⟨.leaseConflict,
        "held effects cannot be resumed through a status update; governed recovery required"⟩
      (.ok ())
  match input.context with
  | none => .ok ()
  | some context => do
      let fixed ← if (truthy current.leaseId).isSome then .ok true
        else (workEffectOwnership env.host current).map isHeld
      Js.throwIf (fixed = true ∧ boundScope context ≠ boundScope (current.context.getD {}))
        ⟨.leaseConflict,
          "claimed or held execution scope is immutable until governed effect recovery"⟩
        (.ok ())

/-- The end of an attempt that a status update closes. -/
def closingStatus (nextStatus : WorkItemStatus) : WorkItemAttemptStatus :=
  if nextStatus = .blocked then .blocked
  else if isTerminalStatus nextStatus then .completed
  else .released

def updateClearsLease (input : UpdateWorkItemInput) (nextStatus : WorkItemStatus) : Bool :=
  isTerminalStatus nextStatus || (input.endAttempt && nextStatus = .blocked)

def patchWorkItem (env : Env) (current : WorkItem) (input : UpdateWorkItemInput)
    (hold : Option WorkEffectOwnership) : WorkItem :=
  let nextStatus := input.status.getD current.status
  let patched : WorkItem := { current with
    effectOwnership := hold.or current.effectOwnership
    title := (truthy input.title).getD current.title
    description := (truthy input.description).getD current.description
    status := nextStatus
    priority := input.priority.getD current.priority
    projectId := (truthy input.projectId).getD current.projectId
    assigneePeerId := input.assigneePeerId.or current.assigneePeerId
    assigneeUserId := input.assigneeUserId.or current.assigneeUserId
    labels := input.labels.getD current.labels
    dependencies := input.dependencies.getD current.dependencies
    context := input.context.or current.context
    metadata := input.metadata.or current.metadata }
  if updateClearsLease input nextStatus then
    let final := finalizeWorkItemAttempt env.now current (closingStatus nextStatus)
      { summary := textMetadata input.metadata "summary"
        blockedReason := textMetadata input.metadata "blocked_reason"
        failureReason := textMetadata input.metadata "failure_reason"
        traceId := textMetadata input.metadata "trace_id"
        metadata := input.metadata }
    { patched with attempts := some final.attempts }
  else patched

def WorkLease.released (lease : WorkLease) (now : ℤ) : WorkLease :=
  { lease with status := .released, releasedAt := some now }

def updateWorkItem (env : Env) (input : UpdateWorkItemInput) : WorkCall WorkItem := do
  let s ← Call.read
  match s.currentWorkItem input.itemId with
  | none => Call.fail ⟨.itemNotFound, "item not found: " ++ input.itemId⟩
  | some current =>
      Call.lift (assertUpdateAllowed env current input)
      let hold ← Call.lift (workEffectOwnership env.host current)
      let clearLease := updateClearsLease input (input.status.getD current.status)
      let activeLease := s.currentLeaseForItem env.now current.itemId
      let next ← appendItemSnapshot
        (nextItemSnapshot env current (patchWorkItem env current input hold) activeLease clearLease)
      match clearLease, activeLease with
      | true, some lease => appendLeaseSnapshot (lease.released env.now)
      | _, _ => pure ()
      pure next

structure ImportExternalWorkItemInput where
  source : WorkItemSource
  sourceRef : String
  title : String
  description : String
  status : WorkItemStatus
  priority : Option WorkItemPriority := none
  projectId : Option String := none
  assigneePeerId : Option String := none
  assigneeUserId : Option String := none
  labels : Option (List String) := none
  dependencies : Option (List String) := none
  context : Option WorkItemContext := none
  metadata : Option Metadata := none

/-- The newest item of the source that names the reference. -/
def Store.importedItem (s : Store) (input : ImportExternalWorkItemInput) : Option WorkItem :=
  ((s.currentWorkItems.filter fun item => item.source = input.source).insertionSort
    fun a b => b.updatedAt ≤ a.updatedAt).find? fun item => item.sourceRef = input.sourceRef

def importedUpdate (existing : WorkItem) (input : ImportExternalWorkItemInput) :
    UpdateWorkItemInput where
  itemId := existing.itemId
  expectedVersion := some existing.version
  title := some input.title
  description := some input.description
  status := some input.status
  priority := some (input.priority.getD existing.priority)
  projectId := some (orElse input.projectId existing.projectId)
  assigneePeerId := input.assigneePeerId
  assigneeUserId := input.assigneeUserId
  labels := some (input.labels.getD existing.labels)
  dependencies := some (input.dependencies.getD existing.dependencies)
  context := input.context.or existing.context
  metadata := input.metadata.or existing.metadata

def importedCreation (input : ImportExternalWorkItemInput) : CreateWorkItemInput where
  title := input.title
  description := input.description
  status := some input.status
  priority := input.priority
  source := some input.source
  sourceRef := some input.sourceRef
  projectId := input.projectId
  assigneePeerId := input.assigneePeerId
  assigneeUserId := input.assigneeUserId
  labels := input.labels.getD []
  dependencies := input.dependencies.getD []
  context := input.context.getD {}
  metadata := input.metadata

/-- Only a new item, or one that moves to another tenant, needs a registered tenant. -/
def importChecksTenant (input : ImportExternalWorkItemInput) (previous : Option WorkItem) : Bool :=
  match previous with
  | none => true
  | some previous =>
      let tenant := input.context.bind (·.tenantSlug)
      tenant.isSome && tenant ≠ previous.context.bind (·.tenantSlug)

def importExternalWorkItem (env : Env) (input : ImportExternalWorkItemInput) :
    WorkCall WorkItem := do
  let s ← Call.read
  let existing := s.importedItem input
  if importChecksTenant input existing then
    assertWorkItemTenantRegistered env (input.context.getD {})
  match existing with
  | some existing => updateWorkItem env (importedUpdate existing input)
  | none => createWorkItemInternal env (importedCreation input)

structure ClaimWorkItemInput where
  requireNewLease : Bool := false
  itemId : String
  actorPeerId : String
  actorUserId : Option String := none
  purpose : String
  ttlMs : Option ℤ := none
  expectedVersion : Option ℤ := none
  idempotencyKey : Option String := none
  payloadHash : Option String := none
  traceId : Option String := none
  metadata : Option Metadata := none

namespace ClaimWorkItemInput

/-- `input.idempotencyKey?.trim()`, when it is not empty. -/
def key (input : ClaimWorkItemInput) : Option String :=
  truthy (input.idempotencyKey.map trim)

def payload (input : ClaimWorkItemInput) : Option String :=
  truthy (input.payloadHash.map trim)

end ClaimWorkItemInput

/-- One key, two payloads. -/
def claimPayloadConflicts (lease : WorkLease) (input : ClaimWorkItemInput) : Bool :=
  input.key.isSome && lease.idempotencyKey = input.key && input.payload.isSome &&
    (truthy lease.payloadHash).isSome && lease.payloadHash ≠ input.payload

def canReplayWorkItemClaim (current : WorkItem) (lease : WorkLease) (input : ClaimWorkItemInput) :
    Bool :=
  !input.requireNewLease && input.key.isSome && lease.idempotencyKey = input.key &&
    (input.payload.isNone || (truthy lease.payloadHash).isNone ||
      lease.payloadHash = input.payload) &&
    lease.holderPeerId = input.actorPeerId && lease.holderUserId = input.actorUserId &&
    lease.purpose = input.purpose && current.leaseId = some lease.leaseId &&
    current.status = .inProgress && current.attemptList.any fun attempt =>
      some attempt.runId = current.currentAttemptId && attempt.leaseId = some lease.leaseId &&
        attempt.status = .running

def defaultTtlMs : ℤ := 15 * 60 * 1000

/-- The instants that `toISOString` prints. -/
def maxInstant : ℤ := 8640000000000000

/-- `new Date(instant).toISOString()` returns. -/
def printableInstant (instant : ℤ) : Except WorkError ℤ :=
  Js.throwIf (instant < -maxInstant ∨ maxInstant < instant)
    ⟨.thrown, "RangeError: Invalid time value"⟩ (.ok instant)

def leaseExpiry (now : ℤ) (ttlMs : Option ℤ) : Except WorkError ℤ :=
  printableInstant <| now + match ttlMs with
    | some ttl => if ttl = 0 then defaultTtlMs else ttl
    | none => defaultTtlMs

def claimedLease (env : Env) (current : WorkItem) (input : ClaimWorkItemInput) (expiresAt : ℤ) :
    WorkLease where
  leaseId := env.randomId "wlease" 0
  itemId := current.itemId
  holderPeerId := input.actorPeerId
  holderUserId := truthy input.actorUserId
  purpose := input.purpose
  status := .active
  expiresAt := expiresAt
  createdAt := env.now
  renewedAt := env.now
  idempotencyKey := input.key
  payloadHash := if input.key.isSome then input.payload else none
  expectedVersion := input.expectedVersion

def createWorkItemAttempt (env : Env) (input : ClaimWorkItemInput) (leaseId : String) :
    WorkItemAttempt where
  attemptId := env.randomId "wattempt" 1
  runId := env.randomId "wrun" 2
  status := .running
  startedAt := env.now
  actorPeerId := some input.actorPeerId
  actorUserId := truthy input.actorUserId
  leaseId := some leaseId
  traceId := truthy input.traceId
  metadata := input.metadata

def claimedItem (env : Env) (current : WorkItem) (input : ClaimWorkItemInput) (lease : WorkLease)
    (target : Option String) : WorkItem :=
  let attempt := createWorkItemAttempt env input lease.leaseId
  { current with
    status := .inProgress
    version := current.version + 1
    updatedAt := env.now
    leaseId := some lease.leaseId
    claimedAt := some env.now
    releasedAt := none
    claimedByPeerId := some input.actorPeerId
    claimedByUserId := (truthy input.actorUserId).or current.claimedByUserId
    currentAttemptId := some attempt.runId
    attempts := some (current.attemptList ++ [attempt])
    effectOwnership :=
      claimedEffectOwnership current target attempt.runId input.actorPeerId env.now }

/-- A halted system hands out no claims. -/
def assertWorkClaimsAllowed (env : Env) : WorkCall Unit :=
  match env.halt with
  | some halt =>
      Call.fail ⟨.validationError, "operations are halted" ++
        ((truthy halt.by_).map (" by " ++ ·)).getD "" ++
        " — no new work claims | next: pnpm kyberion halt resume"⟩
  | none => pure ()

/-- The lease is written before the item that carries it. -/
def claimWorkItem (env : Env) (input : ClaimWorkItemInput) : WorkCall (WorkItem × WorkLease) := do
  assertWorkClaimsAllowed env
  Call.refuse (env.refusesActor input.actorPeerId) ⟨.thrown, "NHI actor policy"⟩
  let s ← Call.read
  match s.currentWorkItem input.itemId with
  | none => Call.fail ⟨.itemNotFound, "item not found: " ++ input.itemId⟩
  | some current =>
      Call.lift (assertVersion current input.expectedVersion)
      match s.currentLeaseForItem env.now current.itemId with
      | some lease =>
          Call.refuse (claimPayloadConflicts lease input)
            ⟨.idempotencyConflict,
              "claim idempotency key reused with a different payload: " ++ lease.itemId⟩
          Call.refuse (¬ canReplayWorkItemClaim current lease input)
            ⟨.leaseConflict, "item is already leased: " ++ current.itemId⟩
          pure (current, lease)
      | none =>
          Call.refuse (isTerminalStatus current.status)
            ⟨.validationError, "cannot claim terminal work item: " ++ current.itemId⟩
          let target ← Call.lift (assertEffectClaimable env.host current s.currentWorkItems)
          let expiresAt ← Call.lift (leaseExpiry env.now input.ttlMs)
          let lease := claimedLease env current input expiresAt
          appendLeaseSnapshot lease
          let next ← appendItemSnapshot (claimedItem env current input lease target)
          pure (next, lease)

def defaultMaxClaimAttempts : ℕ := 5

def defaultMaxErrorAttempts : ℕ := 3

/-- Attempts released as failed, counted from the last one. -/
def countTrailingFailedReleases (attempts : List WorkItemAttempt) : ℕ :=
  (attempts.reverse.takeWhile fun attempt => attempt.status = .released &&
    textMetadata attempt.metadata "execution_status" = some "failed").length

def parkedMetadata (host : Host) (at_ : ℤ) (reason : String) : Metadata :=
  ⟨[("parked", .bool true), ("parked_at", .str (host.isoString at_)),
    ("parked_reason", .str reason)], true⟩

/-- `{ ...(base || {}), ...(extra || {}) }` -/
def mergeMetadata (base extra : Option Metadata) : Option Metadata :=
  match extra with
  | some extra => some (Metadata.merge base extra)
  | none => base

/-- Without the claim that the snapshot carries. -/
def unclaimed (at_ : ℤ) (item : WorkItem) : WorkItem :=
  { item with
    version := item.version + 1
    updatedAt := at_
    leaseId := none
    claimedAt := none
    releasedAt := some at_
    claimedByPeerId := none
    claimedByUserId := none
    currentAttemptId := none }

def releasedItem (env : Env) (current : WorkItem) (input : ReleaseWorkItemInput)
    (effectOwnership : Option WorkEffectOwnership) : WorkItem :=
  let final := finalizeWorkItemAttempt env.now current .released
    { summary := input.summary, traceId := input.traceId, metadata := input.metadata }
  let failures := countTrailingFailedReleases final.attempts
  let requested := input.nextStatus.getD .ready
  let park := requested = .ready && decide (defaultMaxErrorAttempts ≤ failures)
  let merged := mergeMetadata current.metadata input.metadata
  { unclaimed env.now current with
    status := if park then .blocked else requested
    effectOwnership := effectOwnership
    attempts := some final.attempts
    metadata := if park then
        some <| Metadata.merge merged <| parkedMetadata env.host env.now <|
          "release-path attempt budget exhausted (consecutive failures=" ++ toString failures ++
            "/" ++ toString defaultMaxErrorAttempts ++ ")"
      else merged }

def releaseWorkItem (env : Env) (input : ReleaseWorkItemInput) :
    WorkCall (WorkItem × WorkLease) := do
  let s ← Call.read
  match s.currentWorkItem input.itemId with
  | none => Call.fail ⟨.itemNotFound, "item not found: " ++ input.itemId⟩
  | some current =>
      Call.lift (assertVersion current input.expectedVersion)
      match s.currentLeaseForItem env.now current.itemId with
      | none => Call.fail ⟨.leaseNotFound, "no active lease for " ++ current.itemId⟩
      | some lease =>
          Call.refuse (lease.leaseId ≠ input.leaseId)
            ⟨.leaseConflict, "lease mismatch for " ++ current.itemId⟩
          Call.refuse (lease.holderPeerId ≠ input.actorPeerId)
            ⟨.leaseConflict, "lease owner mismatch for " ++ current.itemId⟩
          let hold ← Call.lift (prepareEffectSettlement env.host current input env.now)
          appendLeaseSnapshot (lease.released env.now)
          let next ← appendItemSnapshot (releasedItem env current input hold)
          pure (next, lease.released env.now)

structure QuarantineInput where
  itemId : String
  leaseId : String
  actorPeerId : String
  reason : String
  deriving DecidableEq, Repr

def quarantinedItem (env : Env) (current : WorkItem) (input : QuarantineInput)
    (hold : WorkEffectOwnership) : WorkItem :=
  { current with
    status := .blocked
    version := current.version + 1
    updatedAt := env.now
    effectOwnership := some hold
    metadata := some <| Metadata.merge current.metadata
      ⟨[("execution_outcome", .str "unknown"), ("recovery_required", .bool true),
        ("last_transport_error",
          .str (String.ofList (Js.sliceHead 4000 input.reason.toList)))], true⟩ }

/-- The hold that quarantine keeps or sets up. -/
def quarantineHold (env : Env) (current : WorkItem) (attemptId : String) (input : QuarantineInput) :
    Except WorkError WorkEffectOwnership := do
  match (← workEffectOwnership env.host current).filter fun hold => hold.state = .held with
  | some hold =>
      Js.throwIf (hold.attemptId ≠ attemptId)
        ⟨.leaseConflict, "another unresolved effect owner must not be replaced"⟩ (.ok hold)
  | none =>
      .ok {
        target := (← declaredWorkTarget current).getD ("work_item:" ++ current.itemId)
        attemptId := attemptId
        actorId := input.actorPeerId
        tenantSlug := truthy (current.context.bind (·.tenantSlug))
        state := .held
        acquiredAt := env.now }

def quarantineWorkItemExecution (env : Env) (input : QuarantineInput) : WorkCall WorkItem := do
  let s ← Call.read
  match s.currentWorkItem input.itemId, s.currentLeaseById input.leaseId with
  | some current, some lease =>
      Call.refuse (current.leaseId ≠ some input.leaseId ∨ lease.itemId ≠ current.itemId ∨
          lease.holderPeerId ≠ input.actorPeerId ∨ lease.status = .released ∨
          truthy current.currentAttemptId = none)
        ⟨.leaseConflict,
          "uncertain execution quarantine requires the unchanged attempt lease and holder"⟩
      let hold ← Call.lift
        (quarantineHold env current (current.currentAttemptId.getD "") input)
      appendItemSnapshot (quarantinedItem env current input hold)
  | _, _ =>
      Call.fail ⟨.leaseConflict,
        "uncertain execution quarantine requires the unchanged attempt lease and holder"⟩

/-- The lease that a human release clears: what the item carries when nothing is live. -/
def Store.lapsedLease (s : Store) (now : ℤ) (input : EffectReleaseInput)
    (current : Option WorkItem) : Option WorkLease :=
  match current.bind fun item => truthy item.leaseId with
  | none => none
  | some leaseId =>
      if (s.currentLeaseForItem now input.itemId).isSome then none else s.currentLeaseById leaseId

def releaseWorkItemEffectOwnership (env : Env) (input : EffectReleaseInput) : WorkCall WorkItem := do
  let s ← Call.read
  let current := s.currentWorkItem input.itemId
  let prepare (item : Option WorkItem) : Except WorkError WorkItem :=
    prepareHumanEffectRelease env.host env.separationEnabled
      (env.loadApproval input.approvalRequestId) item input env.now
  match current, s.lapsedLease env.now input current with
  | some item, some lease =>
      let verified ← Call.lift (prepare (some { item with leaseId := none }))
      appendLeaseSnapshot { lease with status := .expired, releasedAt := some env.now }
      let final := finalizeWorkItemAttempt env.now item .released
        { summary := some "Authenticated human reconciled the expired uncertain attempt" }
      appendItemSnapshot { verified with
        claimedAt := none
        claimedByPeerId := none
        claimedByUserId := none
        releasedAt := some env.now
        attempts := some final.attempts
        currentAttemptId := none }
  | _, _ =>
      let verified ← Call.lift (prepare current)
      appendItemSnapshot verified

structure RenewWorkItemLeaseInput where
  leaseId : String
  ttlMs : Option ℤ := none
  actorPeerId : Option String := none
  deriving DecidableEq, Repr

def renewWorkItemLease (env : Env) (input : RenewWorkItemLeaseInput) : WorkCall WorkLease := do
  let s ← Call.read
  match s.currentLeaseById input.leaseId with
  | none => Call.fail ⟨.leaseNotFound, "lease not found: " ++ input.leaseId⟩
  | some current =>
      Call.refuse (current.status ≠ .active)
        ⟨.leaseConflict, "lease is not active: " ++ input.leaseId⟩
      Call.refuse ((truthy input.actorPeerId).any fun actor => current.holderPeerId ≠ actor)
        ⟨.leaseConflict, "lease holder mismatch for renewal: " ++ input.leaseId⟩
      Call.refuse (current.expiresAt ≤ env.now)
        ⟨.leaseConflict, "lease already lapsed: " ++ input.leaseId⟩
      let expiresAt ← Call.lift (leaseExpiry env.now input.ttlMs)
      let renewed := { current with expiresAt := expiresAt, renewedAt := env.now }
      appendLeaseSnapshot renewed
      pure renewed

def WorkLease.lapsed (lease : WorkLease) (now : ℤ) : Bool :=
  lease.status = .active && decide (lease.expiresAt ≤ now)

/-- The instant is the caller's. -/
def expireWorkItemLeases (now : ℤ) : WorkCall (List WorkLease) := do
  let s ← Call.read
  let expired := (s.currentLeaseRecords.filter fun lease => lease.lapsed now).map fun lease =>
    { lease with status := .expired }
  Call.each appendLeaseSnapshot expired
  pure expired

structure ReapWorkLeasesOptions where
  now : Option ℤ := none
  maxClaimAttempts : Option ℕ := none
  maxErrorAttempts : Option ℕ := none
  completedEvidence : WorkItem → Bool := fun _ => false
  itemFilter : WorkItem → Bool := fun _ => true

/-- The stranded item as its durable evidence completes it. -/
def replayedItem (env : Env) (at_ : ℤ) (item : WorkItem) : Except WorkError WorkItem := do
  let final := finalizeWorkItemAttempt env.now item .completed
    { summary := some "completion evidence replayed after orphaned worker recovery"
      metadata := some (Metadata.merge item.metadata ⟨[("replayed", .bool true)], true⟩) }
  let hold ← settledWorkEffect env.host item .completed at_
  .ok { unclaimed at_ item with
    status := .done
    effectOwnership := hold
    attempts := some final.attempts
    metadata := some (Metadata.merge item.metadata
      ⟨[("replayed", .bool true), ("replayed_at", .str (env.host.isoString at_))], true⟩) }

/-- The stranded item back in the queue, or parked when its attempts are used up. -/
def recoveredItem (env : Env) (at_ : ℤ) (options : ReapWorkLeasesOptions) (item : WorkItem) :
    Except WorkError WorkItem := do
  let maxClaims := options.maxClaimAttempts.getD defaultMaxClaimAttempts
  let maxErrors := options.maxErrorAttempts.getD defaultMaxErrorAttempts
  let final := finalizeWorkItemAttempt env.now item .released
    { failureReason := some "lease_expired"
      summary := some "lease expired without release; reaped" }
  let claims := final.attempts.length
  let errors := (final.attempts.filter fun attempt =>
    attempt.status = .failed || attempt.failureReason = some "lease_expired").length
  let park := decide (maxClaims ≤ claims) || decide (maxErrors ≤ errors)
  let hold ← workEffectOwnership env.host item
  .ok { unclaimed at_ item with
    effectOwnership := hold.or item.effectOwnership
    status := if park then .blocked else .ready
    attempts := some final.attempts
    metadata := if park then
        some <| Metadata.merge item.metadata <| parkedMetadata env.host at_ <|
          "attempt budget exhausted (claims=" ++ toString claims ++ "/" ++ toString maxClaims ++
            ", errors=" ++ toString errors ++ "/" ++ toString maxErrors ++ ")"
      else item.metadata }

/-- One stranded item; `at_` is the instant the caller named. -/
def reapStranded (env : Env) (at_ : ℤ) (options : ReapWorkLeasesOptions) (item : WorkItem) :
    WorkCall Unit := do
  let s ← Call.read
  if item.status = .inProgress ∧ options.itemFilter item ∧
      s.currentLeaseForItem env.now item.itemId = none then
    let next ← Call.lift (if options.completedEvidence item then replayedItem env at_ item
      else recoveredItem env at_ options item)
    let _ ← appendItemSnapshot next
    pure ()
  else pure ()

def runningAttempt (item : WorkItem) : Option WorkItemAttempt :=
  item.attemptList.find? fun attempt => attempt.status = .running && attempt.endedAt.isNone

/-- The item with its orphaned attempt closed. -/
def reconciledItem (at_ : ℤ) (item : WorkItem) (running : WorkItemAttempt) : WorkItem :=
  let index := item.attemptList.findIdx fun attempt => attempt.runId = running.runId
  { item with
    version := item.version + 1
    updatedAt := at_
    currentAttemptId :=
      if item.currentAttemptId = some running.runId then none else item.currentAttemptId
    attempts := some (item.attemptList.set index { running with
      status := .released
      endedAt := some at_
      failureReason := some "lease_lost"
      summary := some "running attempt orphaned without a live lease; reconciled by reaper" }) }

/-- One item that is not running but whose history says that an attempt is. -/
def reapOrphanedAttempt (env : Env) (at_ : ℤ) (options : ReapWorkLeasesOptions)
    (item : WorkItem) : WorkCall Unit := do
  let s ← Call.read
  match runningAttempt item with
  | none => pure ()
  | some running =>
      if item.status ≠ .inProgress ∧ options.itemFilter item ∧
          s.currentLeaseForItem env.now item.itemId = none ∧
          ¬ (s.currentLeaseById (running.leaseId.getD "")).any (·.live at_) then
        let _ ← appendItemSnapshot (reconciledItem at_ item running)
        pure ()
      else pure ()

def reapExpiredWorkLeases (env : Env) (options : ReapWorkLeasesOptions) : WorkCall Unit := do
  let at_ := options.now.getD env.now
  let _ ← expireWorkItemLeases at_
  let s ← Call.read
  Call.each (reapStranded env at_ options) s.currentWorkItems
  let t ← Call.read
  Call.each (reapOrphanedAttempt env at_ options) t.currentWorkItems

/-- A handoff packet: what the release and the claim record of it. -/
structure HandoffPacket where
  outgoingSummary : String
  value : Json
  serializable : Bool := true

structure HandoffWorkItemInput where
  itemId : String
  fromLeaseId : String
  fromPeerId : String
  toPeerId : String
  toUserId : Option String := none
  purpose : String
  ttlMs : Option ℤ := none
  expectedVersion : Option ℤ := none
  idempotencyKey : Option String := none
  traceId : Option String := none
  /-- The caller's packet, or the one built from the item and the request. -/
  packet : HandoffPacket
  metadata : Option Metadata := none

def handoffMetadata (input : HandoffWorkItemInput) : Metadata :=
  Metadata.merge input.metadata
    ⟨[("handoff_packet", input.packet.value)], input.packet.serializable⟩

def handoffRelease (input : HandoffWorkItemInput) : ReleaseWorkItemInput where
  itemId := input.itemId
  leaseId := input.fromLeaseId
  actorPeerId := input.fromPeerId
  expectedVersion := input.expectedVersion
  nextStatus := some .ready
  summary := some input.packet.outgoingSummary
  traceId := input.traceId
  metadata := some (handoffMetadata input)

def handoffClaim (input : HandoffWorkItemInput) (version : ℕ) : ClaimWorkItemInput where
  itemId := input.itemId
  actorPeerId := input.toPeerId
  actorUserId := input.toUserId
  purpose := input.purpose
  ttlMs := input.ttlMs
  expectedVersion := some version
  idempotencyKey := input.idempotencyKey
  traceId := input.traceId
  metadata := some (handoffMetadata input)

/-- A release to `ready` and a claim of what it left. -/
def handoffWorkItem (env : Env) (input : HandoffWorkItemInput) :
    WorkCall (WorkItem × WorkLease × WorkLease) := do
  Call.refuse (env.refusesActor input.toPeerId) ⟨.thrown, "NHI actor policy"⟩
  let released ← releaseWorkItem env (handoffRelease input)
  let claimed ← claimWorkItem env (handoffClaim input released.1.version)
  pure (claimed.1, released.2, claimed.2)

end Kyberion.Work
