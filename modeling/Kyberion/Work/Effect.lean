import Kyberion.Approval.SeparationOfDuties
import Kyberion.Work.Item
import Kyberion.Work.Target

/-!
Ownership of the effects of an attempt, and what claims, releases and human
approvals make of it. Everything here is computed from the snapshots it is
given; the calls of the store append the results.
-/

namespace Kyberion.Work

open Js (Json isBlank trim throwIf textLt)
open Approval (Host ApprovalRequestRecord)

def maxTargetLength : ℕ := 4096

def isTargetText (target : String) : Bool :=
  !isBlank target && decide (Js.utf16Length target ≤ maxTargetLength)

def declaredWorkTarget (item : WorkItem) : Except WorkError (Option String) :=
  match Metadata.get item.metadata "target" with
  | none => .ok none
  | some (.str target) =>
      throwIf (!isTargetText target)
        ⟨.validationError, "invalid declared work target; operator reconciliation required"⟩
        (.ok (some target))
  | some _ =>
      .error ⟨.validationError, "invalid declared work target; operator reconciliation required"⟩

/-- Which settlements carry the evidence they name. -/
def WorkEffectOwnership.settledWell (hold : WorkEffectOwnership) : Bool :=
  hold.state ≠ .settled ||
    (hold.settlement.isSome && hold.settledAt.isSome &&
      (hold.settlement ≠ some .humanVerified || hold.approvalRequestId.isSome) &&
      (hold.settlement ≠ some .executionAborted ||
        hold.settlementEvidenceRef.any fun ref => !isBlank ref))

def WorkEffectOwnership.wellFormed (hold : WorkEffectOwnership) : Bool :=
  isTargetText hold.target && hold.attemptId ≠ "" && hold.actorId ≠ ""

/-- `value?.[key]` when it is a text. -/
def textField (value : Option Json) (key : String) : Option String :=
  match value.bind (Json.get key) with
  | some (.str text) => some text
  | _ => none

/-- `value?.[key] ?? ''` as a text. -/
def stringField (value : Option Json) (key : String) : String :=
  match value.bind (Json.get key) with
  | none => ""
  | some .null => ""
  | some v => v.asString

section Ownership

variable (host : Host)

/-- A targeted dot attempt of before ownership was recorded, while it may still have effects. -/
def legacyEffectOwnership (item : WorkItem) : Except WorkError (Option WorkEffectOwnership) := do
  match Metadata.get item.metadata "dot_id" with
  | some (.str dotId) =>
      match ← declaredWorkTarget item with
      | none => .ok none
      | some target =>
          let executor := Metadata.get item.metadata "dot_executor"
          let verified := (textField executor "operator_verified_at").getD ""
          let attempt := item.attemptList.getLast?
          let expired := item.attemptList.any fun a =>
            a.failureReason = some "lease_expired" &&
              textLt verified (host.isoString (a.endedAt.getD a.startedAt))
          let uncertain := textField executor "status" = some "blocked" &&
            textField executor "mode" ≠ some "escalated" &&
            textLt verified (stringField executor "completed_at")
          if item.status ≠ .inProgress && !expired && !uncertain then .ok none
          else
            let handoffTo := match Metadata.get item.metadata "handoff_to" with
              | none => dotId
              | some .null => dotId
              | some v => v.asString
            .ok <| some {
              target := target
              attemptId := (item.currentAttemptId.or (attempt.map (·.runId))).getD
                ("legacy:" ++ item.itemId)
              actorId := (attempt.bind (·.actorPeerId)).getD ("dot:" ++ handoffTo)
              tenantSlug := truthy (item.context.bind (·.tenantSlug))
              state := .held
              acquiredAt := (attempt.map (·.startedAt)).getD item.updatedAt }
  | _ => .ok none

def workEffectOwnership (item : WorkItem) : Except WorkError (Option WorkEffectOwnership) :=
  match item.effectOwnership with
  | some hold =>
      throwIf (!hold.settledWell)
        ⟨.validationError, "invalid stored effect settlement; operator reconciliation required"⟩ <|
      throwIf (!hold.wellFormed)
        ⟨.validationError, "invalid stored effect ownership; operator reconciliation required"⟩ <|
      .ok (some hold)
  | none => legacyEffectOwnership host item

def isHeld (hold : Option WorkEffectOwnership) : Bool :=
  hold.any fun hold => hold.state = .held

/-- The first item that holds a target of the tenant that overlaps. -/
def findHeldWorkTarget (items : List WorkItem) (target : String) (tenant : Option String) :
    Except WorkError (Option WorkItem) :=
  match items with
  | [] => .ok none
  | item :: items => do
      let hold ← workEffectOwnership host item
      if hold.any fun hold => hold.state = .held && hold.tenantSlug = tenant &&
          workTargetsOverlap target hold.target then .ok (some item)
      else findHeldWorkTarget items target tenant

def settledWorkEffect (item : WorkItem) (settlement : Settlement) (at_ : ℤ) :
    Except WorkError (Option WorkEffectOwnership) := do
  match ← workEffectOwnership host item with
  | none => .ok none
  | some hold =>
      if hold.state = .settled then .ok (some hold)
      else
        throwIf (some hold.attemptId ≠ item.currentAttemptId)
          ⟨.leaseConflict, "effect ownership belongs to a different attempt; retained"⟩
          (.ok (some { hold with
            state := .settled, settledAt := some at_, settlement := some settlement }))

def assertEffectClaimable (current : WorkItem) (items : List WorkItem) :
    Except WorkError (Option String) := do
  let hold ← workEffectOwnership host current
  throwIf (isHeld hold)
    ⟨.leaseConflict,
      "this item retains unresolved effect ownership; governed human release required"⟩ do
  match ← declaredWorkTarget current with
  | none => .ok none
  | some target =>
      match ← findHeldWorkTarget host items target (current.context.bind (·.tenantSlug)) with
      | some held =>
          .error ⟨.leaseConflict, "target ownership retained by " ++ held.itemId ++
            "; verify stopped execution and use governed human release before conflicting work"⟩
      | none => .ok (some target)

def claimedEffectOwnership (current : WorkItem) (target : Option String) (attemptId actorId : String)
    (now : ℤ) : Option WorkEffectOwnership :=
  match target, Metadata.get current.metadata "dot_id" with
  | some target, some (.str _) => some {
      target := target
      attemptId := attemptId
      actorId := actorId
      tenantSlug := truthy (current.context.bind (·.tenantSlug))
      state := .held
      acquiredAt := now }
  | _, _ => current.effectOwnership

inductive EffectDisposition
  | completed | preEffect
  deriving DecidableEq, Repr

def EffectDisposition.settlement : EffectDisposition → Settlement
  | .completed => .completed
  | .preEffect => .preEffect

structure ReleaseWorkItemInput where
  effectDisposition : Option EffectDisposition := none
  itemId : String
  leaseId : String
  actorPeerId : String
  expectedVersion : Option ℤ := none
  nextStatus : Option WorkItemStatus := none
  summary : Option String := none
  traceId : Option String := none
  metadata : Option Metadata := none

/-- The disposition fits the outcome that the release records. -/
def EffectDisposition.fits (input : ReleaseWorkItemInput) : EffectDisposition → Bool
  | .completed => input.nextStatus = some .done
  | .preEffect =>
      (input.nextStatus = some .ready || input.nextStatus = some .archived) &&
        textField (Metadata.get input.metadata "dot_executor") "reason_code" =
          some "pre_effect_failure"

def prepareEffectSettlement (current : WorkItem) (input : ReleaseWorkItemInput) (now : ℤ) :
    Except WorkError (Option WorkEffectOwnership) :=
  match input.effectDisposition with
  | some disposition =>
      throwIf (!disposition.fits input)
        ⟨.validationError, "effect settlement does not match the durable executor outcome"⟩
        (settledWorkEffect host current disposition.settlement now)
  | none => workEffectOwnership host current

end Ownership

inductive DeciderType
  | human | aiAgent | service
  deriving DecidableEq, Repr

inductive FinalDecision
  | humanOnly | shared
  deriving DecidableEq, Repr

/-- What the release of an effect reads of an approval record. -/
structure WorkEffectReleaseApproval extends ApprovalRequestRecord where
  correlationId : Option String := none
  decidedByType : Option DeciderType := none
  authenticated : Bool := false
  vetoed : Bool := false
  finalDecision : Option FinalDecision := none
  effectBinding : Option String := none
  decidedAt : Option String := none
  scope : WorkItemContext := {}
  justificationReason : String := ""

structure EffectReleaseInput where
  itemId : String
  expectedVersion : ℤ
  approvalRequestId : String
  deriving DecidableEq, Repr

/-- The dot behind an actor id `dot:…`. -/
def dotOf (actorId : String) : Option String :=
  ("dot:".toList.isPrefixOf? actorId.toList).map String.ofList

structure ReleaseProofBinding where
  correlationId : String
  effectBinding : String

def workEffectReleaseProofBinding (item : WorkItem) (hold : WorkEffectOwnership) :
    ReleaseProofBinding :=
  match dotOf hold.actorId with
  | some dot =>
      ⟨"dot-release:" ++ dot ++ ":" ++ item.itemId,
        "dot_work_item_release:" ++ dot ++ ":" ++ item.itemId ++ "@v" ++ toString item.version⟩
  | none =>
      ⟨"work-effect-release:" ++ item.itemId ++ ":" ++ hold.attemptId,
        "work_effect_release:" ++ hold.actorId ++ ":" ++ item.itemId ++ ":" ++ hold.attemptId ++
          "@v" ++ toString item.version⟩

/-- Decided after its own expiry, or at no recorded time. -/
def decidedLate (host : Host) (record : WorkEffectReleaseApproval) : Bool :=
  (truthy record.expiresAt).any fun expiresAt =>
    match truthy record.decidedAt with
    | none => true
    | some decidedAt =>
        match host.dateParse decidedAt, host.dateParse expiresAt with
        | some d, some e => decide (e < d)
        | _, _ => false

/-- The four entity fields that an approval of a non-dot release binds. -/
def entityScope (scope : WorkItemContext) : List (Option String) :=
  [scope.organizationId, scope.projectId, scope.missionId, scope.taskId].map truthy

def assertWorkEffectReleaseApproval (host : Host) (separationEnabled : Bool)
    (record : Option WorkEffectReleaseApproval) (item : WorkItem) (hold : WorkEffectOwnership) :
    Except WorkError WorkEffectReleaseApproval :=
  match record with
  | none =>
      .error ⟨.thrown,
        "effect ownership release requires an authenticated human release approval"⟩
  | some record =>
      let binding := workEffectReleaseProofBinding item hold
      throwIf (record.status ≠ .approved ∨ record.applyResult.isSome ∨
          record.decidedByType ≠ some .human ∨ record.authenticated = false ∨ record.vetoed ∨
          record.finalDecision ≠ some .humanOnly)
        ⟨.thrown, "effect ownership release requires an authenticated human release approval"⟩ <|
      match Approval.assertApprovalUsable host separationEnabled record.toApprovalRequestRecord
          none with
      | .error refusal => .error ⟨.thrown, refusal⟩
      | .ok () =>
          throwIf (record.correlationId ≠ some binding.correlationId ∨
              record.effectBinding ≠ some binding.effectBinding ∨
              truthy record.tenantSlug ≠ hold.tenantSlug ∨
              hold.tenantSlug ≠ item.context.bind (·.tenantSlug) ∨ decidedLate host record)
            ⟨.thrown, "effect ownership release approval does not bind this unchanged item, " ++
              "owner and tenant"⟩ <|
          throwIf (dotOf hold.actorId = none ∧
              entityScope record.scope ≠ entityScope (item.context.getD {}))
            ⟨.thrown,
              "effect ownership release approval does not bind the work item entity scope"⟩ <|
          throwIf (hold.attemptId ≠ (item.currentAttemptId.or
              (item.attemptList.getLast?.map (·.runId))).getD ("legacy:" ++ item.itemId))
            ⟨.thrown, "effect ownership attempt changed; retained"⟩ <|
          .ok record

/-- `text.replace(/\s+/g, ' ').trim().slice(0, 300)` -/
def oneLine (text : String) : String :=
  let words := text.toList.splitBy fun a b => Js.isWhiteSpace a = Js.isWhiteSpace b
  let spaced := words.flatMap fun word => if word.any Js.isWhiteSpace then [' '] else word
  String.ofList (Js.sliceHead 300 (trim (String.ofList spaced)).toList)

def assertVersion (item : WorkItem) (expectedVersion : Option ℤ) : Except WorkError Unit :=
  throwIf (expectedVersion.any fun version => (item.version : ℤ) ≠ version)
    ⟨.versionConflict, "version conflict for " ++ item.itemId⟩ (.ok ())

def WorkItemStatus.text : WorkItemStatus → String
  | .backlog => "backlog"
  | .ready => "ready"
  | .inProgress => "in_progress"
  | .blocked => "blocked"
  | .review => "review"
  | .done => "done"
  | .archived => "archived"

/-- The record that a human release leaves in the item's metadata. -/
def releaseRecord (host : Host) (item : WorkItem) (hold : WorkEffectOwnership)
    (approval : WorkEffectReleaseApproval) (input : EffectReleaseInput) (verifiedAt : ℤ) :
    Metadata :=
  let at_ := Json.str (host.isoString verifiedAt)
  let decidedBy := approval.decidedBy.map Json.str
  match dotOf hold.actorId with
  | some _ =>
      let previous := match Metadata.get item.metadata "dot_executor" with
        | some (.obj fields) => fields
        | _ => []
      ⟨[("dot_executor", .obj (Js.spread previous
        ([("operator_verified_at", at_)] ++
          Js.optionalField "operator_verified_by" decidedBy ++
          [("operator_verified_reason", .str (oneLine approval.justificationReason)),
            ("operator_verified_approval_id", .str approval.id),
            ("released_from", .str item.status.text)])))], true⟩
  | none =>
      ⟨[("execution_recovery", .obj ([("verified_at", at_)] ++
          Js.optionalField "verified_by" decidedBy ++
          [("approval_request_id", .str input.approvalRequestId)])),
        ("execution_outcome", .str "reconciled"), ("recovery_required", .bool false)], true⟩

def prepareHumanEffectRelease (host : Host) (separationEnabled : Bool)
    (approval : Option WorkEffectReleaseApproval) (item : Option WorkItem)
    (input : EffectReleaseInput) (verifiedAt : ℤ) : Except WorkError WorkItem :=
  match item with
  | none => .error ⟨.itemNotFound, "effect ownership item missing"⟩
  | some item => do
      assertVersion item (some input.expectedVersion)
      match ← workEffectOwnership host item with
      | none =>
          .error ⟨.leaseConflict, "effect ownership is not a quarantined unleased attempt"⟩
      | some hold =>
          throwIf (hold.state ≠ .held ∨ (truthy item.leaseId).isSome ∨ item.status = .inProgress)
            ⟨.leaseConflict, "effect ownership is not a quarantined unleased attempt"⟩ do
          let approval ← assertWorkEffectReleaseApproval host separationEnabled approval item hold
          .ok { item with
            status := .ready
            version := item.version + 1
            updatedAt := verifiedAt
            metadata := some <| Metadata.merge item.metadata
              (releaseRecord host item hold approval input verifiedAt)
            effectOwnership := some { hold with
              state := .settled
              settlement := some .humanVerified
              settledAt := some verifiedAt
              approvalRequestId := some input.approvalRequestId } }

end Kyberion.Work
