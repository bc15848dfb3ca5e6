import Kyberion.Work.Coordination

/-!
The continuation of a suspended pipeline attempt: after its approval the same
attempt gets a new lease, after a refusal its effect is settled as aborted. The
run journal, the approval and the charter scan are read before the store, and
are part of the request here.
-/

namespace Kyberion.Work

open Js (Json)
open Approval (Host ApprovalRequestRecord)

inductive ScopeTier
  | public_ | confidential | personal
  deriving DecidableEq, Repr

inductive ContinuationAction
  | resume | deny
  deriving DecidableEq, Repr

structure ResumeSuspendedPipelineWorkItemInput where
  itemId : String
  runId : String
  approvalRequestId : String
  storageChannel : String
  actorPeerId : String
  expectedAttemptId : String
  tenantSlug : String
  sourceHash : String
  ttlMs : Option ℤ := none
  deriving DecidableEq, Repr

/-- What the continuation reads of the approval record. -/
structure ContinuationApproval extends ApprovalRequestRecord where
  decidedByType : Option DeciderType := none
  pipelineRunId : Option String := none
  targetStepId : Option String := none
  finalDecision : Option FinalDecision := none
  payloadHash : Option String := none
  tier : Option ScopeTier := none

/-- What it reads of the protected run journal. -/
structure PipelineRunJournal where
  path : String
  workItemId : Option String
  workItemTenantSlug : Option String
  workItemAgentId : Option String
  workItemAttemptId : Option String
  payloadTenantSlug : Option String
  payloadTier : Option ScopeTier
  sourceSha256 : String
  suspendedApprovalRequestId : String
  suspendedStorageChannel : String
  suspendedBindingHash : String
  suspendedStepId : String
  completedNodes : List String
  finished : Bool
  aborted : Bool

/-- What a continuation reads outside the store. -/
structure PipelineEvidence where
  boundTenant : Option String := none
  approval : Option ContinuationApproval
  /-- `none` where the journal has no snapshot or suspension. -/
  journal : Option PipelineRunJournal
  /-- Some delegated execution of the item is executing or unknown. -/
  priorEffect : Bool := false

/-- Why the approval does not decide the continuation. -/
def approvalDecides (env : Env) (action : ContinuationAction) (approval : ContinuationApproval) :
    Bool :=
  match action with
  | .resume => approval.status = .approved && approval.decidedByType = some .human
  | .deny =>
      match approval.status with
      | .rejected => approval.decidedByType = some .human
      | .cancelled => true
      | .expired =>
          match (truthy approval.expiresAt).bind env.host.dateParse with
          | some expiresAt => decide (expiresAt ≤ env.now)
          | none => false
      | _ => false

/-- The hash of the execution that the approval was asked for. -/
def ContinuationApproval.bindingHash (approval : ContinuationApproval) : Option String :=
  truthy (approval.requestedByContext.bind (·.executionBindingHash))

def approvalBinds (env : Env) (action : ContinuationAction)
    (input : ResumeSuspendedPipelineWorkItemInput) (approval : ContinuationApproval) : Bool :=
  approvalDecides env action approval && approval.tenantSlug = some input.tenantSlug &&
    approval.applyClaim.isNone && approval.applyResult.isNone &&
    approval.pipelineRunId = some input.runId && approval.bindingHash.isSome &&
    approval.finalDecision = some .humanOnly && approval.payloadHash = approval.bindingHash

/-- `/^[a-f0-9]{64}$/` -/
def isSha256 (text : String) : Bool :=
  text.toList.length = 64 && text.toList.all fun c => isDigit c || ('a' ≤ c && c ≤ 'f')

def journalMatches (action : ContinuationAction) (input : ResumeSuspendedPipelineWorkItemInput)
    (itemId runId : String) (approval : ContinuationApproval) (journal : PipelineRunJournal) :
    Bool :=
  journal.workItemId = some itemId && journal.workItemTenantSlug = some input.tenantSlug &&
    journal.workItemAgentId = some input.actorPeerId && journal.workItemAttemptId = some runId &&
    journal.payloadTenantSlug = some input.tenantSlug && journal.payloadTier = approval.tier &&
    journal.sourceSha256 = input.sourceHash && isSha256 input.sourceHash &&
    journal.suspendedApprovalRequestId = input.approvalRequestId &&
    journal.suspendedStorageChannel = input.storageChannel &&
    some journal.suspendedBindingHash = approval.bindingHash &&
    approval.targetStepId = some journal.suspendedStepId &&
    !journal.completedNodes.contains journal.suspendedStepId &&
    match action with
    | .resume => !journal.finished
    | .deny => journal.finished && journal.aborted

/-- The suspension that the item recorded for its executor. -/
def suspensionMatches (input : ResumeSuspendedPipelineWorkItemInput) (item : WorkItem) : Bool :=
  let pending := Metadata.get item.metadata "dot_executor"
  textField pending "mode" = some "pipeline" &&
    (match pending.bind (Json.get "awaiting_approval") with
      | some (.bool true) => true
      | _ => false) &&
    textField pending "pipeline_run_id" = some input.runId &&
    textField pending "approval_request_id" = some input.approvalRequestId &&
    textField pending "storage_channel" = some input.storageChannel

def continuationDenied (reason : String) : WorkError :=
  ⟨.validationError, "[PIPELINE_CONTINUATION_DENIED] " ++ reason⟩

/-- What the checks of a continuation establish. -/
structure Continuation where
  original : WorkItemAttempt
  hold : WorkEffectOwnership
  approval : ContinuationApproval
  journal : PipelineRunJournal

/-- The checks on the suspended item and the hold of its last attempt. -/
def suspendedHold (env : Env) (input : ResumeSuspendedPipelineWorkItemInput) (current : WorkItem) :
    Except WorkError (WorkItemAttempt × WorkEffectOwnership) :=
  Js.throwIf ((current.status ≠ .blocked ∧ current.status ≠ .inProgress) ∨
      current.context.bind (·.tenantSlug) ≠ some input.tenantSlug)
    (continuationDenied "work item is not suspended in this tenant") <|
  match current.attemptList.getLast? with
  | none => .error (continuationDenied "original attempt changed")
  | some original =>
      Js.throwIf (original.runId ≠ input.expectedAttemptId ∨
          (truthy current.currentAttemptId).any fun runId => runId ≠ original.runId)
        (continuationDenied "original attempt changed") do
      match ← workEffectOwnership env.host current with
      | none => .error (continuationDenied "original effect ownership is not held by this runner")
      | some hold =>
          Js.throwIf (hold.state ≠ .held ∨ hold.attemptId ≠ original.runId ∨
              hold.tenantSlug ≠ some input.tenantSlug ∨ hold.actorId ≠ input.actorPeerId ∨
              original.actorPeerId ≠ some input.actorPeerId)
            (continuationDenied "original effect ownership is not held by this runner")
            (.ok (original, hold))

def prepareContinuation (env : Env) (evidence : PipelineEvidence) (action : ContinuationAction)
    (input : ResumeSuspendedPipelineWorkItemInput) (current : WorkItem) :
    Except WorkError Continuation := do
  let (original, hold) ← suspendedHold env input current
  Js.throwIf (¬ suspensionMatches input current)
    (continuationDenied "suspension handoff changed") <|
  match evidence.approval with
  | none => .error (continuationDenied "exact human approval unavailable")
  | some approval =>
      Js.throwIf (¬ approvalBinds env action input approval)
        (continuationDenied "exact human approval unavailable") <|
      match if action = .resume then Approval.assertApprovalUsable env.host env.separationEnabled
          approval.toApprovalRequestRecord none else .ok () with
      | .error refusal => .error ⟨.thrown, refusal⟩
      | .ok () =>
          Js.throwIf approval.tier.isNone
            (continuationDenied "protected journal tier missing") <|
          match evidence.journal with
          | none =>
              .error (continuationDenied "protected original pipeline snapshot does not match")
          | some journal =>
              Js.throwIf (¬ journalMatches action input current.itemId original.runId approval
                  journal)
                (continuationDenied "protected original pipeline snapshot does not match") <|
              Js.throwIf evidence.priorEffect
                (continuationDenied "a prior effect requires authoritative reconciliation")
                (.ok ⟨original, hold, approval, journal⟩)

def deniedItem (env : Env) (input : ResumeSuspendedPipelineWorkItemInput) (current : WorkItem)
    (c : Continuation) : WorkItem :=
  let pending := match Metadata.get current.metadata "dot_executor" with
    | some (.obj fields) => fields
    | _ => []
  { current with
    status := .archived
    version := current.version + 1
    updatedAt := env.now
    leaseId := none
    claimedAt := none
    releasedAt := some env.now
    claimedByPeerId := none
    currentAttemptId := none
    attempts := some (current.attemptList.dropLast ++ [{ c.original with
      status := .blocked
      endedAt := some env.now
      blockedReason := some ("pipeline " ++ c.approval.status.text ++ "; execution aborted")
      metadata := some (Metadata.merge c.original.metadata ⟨[("pipeline_abort", .obj
        [("run_id", .str input.runId), ("approval_request_id", .str input.approvalRequestId),
          ("journal", .str c.journal.path), ("source_sha256", .str input.sourceHash)])], true⟩) }])
    effectOwnership := some { c.hold with
      state := .settled
      settledAt := some env.now
      settlement := some .executionAborted
      settlementEvidenceRef := some c.journal.path }
    metadata := some (Metadata.merge current.metadata ⟨[("dot_executor", .obj
      (Js.spread pending [("status", .str "denied"), ("awaiting_approval", .bool false),
        ("reason_code", .str ("pipeline_" ++ c.approval.status.text)),
        ("verified_terminal_journal", .str c.journal.path)]))], true⟩) }

/-- `Math.min(Math.max(ttlMs ?? 900000, 1000), 900000)` -/
def continuationTtl (ttlMs : Option ℤ) : ℤ :=
  min (max (ttlMs.getD 900000) 1000) 900000

def resumedLease (env : Env) (input : ResumeSuspendedPipelineWorkItemInput) (current : WorkItem)
    (c : Continuation) (oldLease : WorkLease) (expiresAt : ℤ) : WorkLease where
  leaseId := env.randomId "wlease" 0
  itemId := current.itemId
  holderPeerId := input.actorPeerId
  purpose := "resume original approved pipeline"
  status := .active
  expiresAt := expiresAt
  createdAt := env.now
  renewedAt := env.now
  idempotencyKey := some ("pipeline-continuation:" ++ input.runId ++ ":" ++
    input.approvalRequestId ++ ":" ++ c.original.runId)
  previousLeaseId := some oldLease.leaseId

def resumedItem (env : Env) (input : ResumeSuspendedPipelineWorkItemInput) (current : WorkItem)
    (c : Continuation) (lease : WorkLease) : WorkItem :=
  { current with
    status := .inProgress
    version := current.version + 1
    updatedAt := env.now
    leaseId := some lease.leaseId
    claimedAt := some env.now
    releasedAt := none
    claimedByPeerId := some input.actorPeerId
    currentAttemptId := some c.original.runId
    attempts := some (current.attemptList.dropLast ++ [{ c.original with
      status := .running
      leaseId := some lease.leaseId
      endedAt := none
      blockedReason := none
      metadata := some (Metadata.merge c.original.metadata ⟨[("pipeline_resume", .obj
        [("run_id", .str input.runId), ("approval_request_id", .str input.approvalRequestId),
          ("source_sha256", .str input.sourceHash),
          ("resumed_at", .str (env.host.isoString env.now))])], true⟩) }])
    effectOwnership := some c.hold }

/-- The lease of the suspended attempt, which must still name the item and the runner. -/
def Store.originalLease (s : Store) (input : ResumeSuspendedPipelineWorkItemInput)
    (current : WorkItem) (original : WorkItemAttempt) : Option WorkLease :=
  ((truthy original.leaseId).bind s.currentLeaseById).filter fun lease =>
    lease.itemId = current.itemId && lease.holderPeerId = input.actorPeerId

def continueSuspendedPipelineWorkItem (env : Env) (evidence : PipelineEvidence)
    (action : ContinuationAction) (input : ResumeSuspendedPipelineWorkItemInput) :
    WorkCall WorkItem := do
  assertWorkClaimsAllowed env
  Call.refuse ((truthy evidence.boundTenant).any fun tenant => tenant ≠ input.tenantSlug)
    (continuationDenied "caller tenant differs from suspended work item")
  let s ← Call.read
  match s.currentWorkItem input.itemId with
  | none => Call.fail (continuationDenied "work item is not suspended in this tenant")
  | some current =>
      let c ← Call.lift (prepareContinuation env evidence action input current)
      Call.refuse (s.currentLeaseForItem env.now current.itemId).isSome
        (continuationDenied "a live runner still owns this work item")
      Call.refuse (env.refusesActor input.actorPeerId) ⟨.thrown, "NHI actor policy"⟩
      match s.originalLease input current c.original with
      | none => Call.fail (continuationDenied "original scheduling lease missing")
      | some oldLease =>
          if oldLease.status = .active then
            appendLeaseSnapshot
              { oldLease with status := .expired, releasedAt := some env.now }
          match action with
          | .deny => appendItemSnapshot (deniedItem env input current c)
          | .resume =>
              let expiresAt ← Call.lift (printableInstant (env.now + continuationTtl input.ttlMs))
              let lease := resumedLease env input current c oldLease expiresAt
              appendLeaseSnapshot lease
              appendItemSnapshot (resumedItem env input current c lease)

end Kyberion.Work
