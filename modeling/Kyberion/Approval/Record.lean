import Kyberion.Js.Text

/-!
The durable approval record. Only the fields that the decision, use and
revocation paths read or write are kept; display texts, cards and evidence
copies are left out. Instants are the millisecond clock, `Date.parse` is a
parameter, and an absent optional field is `none`.
-/

namespace Kyberion.Approval

inductive ApprovalStatus
  | pending | approved | rejected | expired | cancelled | applied | failed
  deriving DecidableEq, Repr

def ApprovalStatus.text : ApprovalStatus → String
  | .pending => "pending"
  | .approved => "approved"
  | .rejected => "rejected"
  | .expired => "expired"
  | .cancelled => "cancelled"
  | .applied => "applied"
  | .failed => "failed"

inductive ApprovalKind
  | channelApproval | secretMutation | missionGate
  deriving DecidableEq, Repr

/-- How the surface obtained the decider identity. -/
inductive ApprovalDeciderIdentitySource
  | serverResolved | callerSupplied
  deriving DecidableEq, Repr

inductive StageStatus
  | pending | approved | rejected | skipped
  deriving DecidableEq, Repr

/-- One role approval of a workflow. -/
structure ApprovalStageRecord where
  role : String
  status : StageStatus
  approvedBy : Option String := none
  deciderIdentitySource : Option ApprovalDeciderIdentitySource := none
  deriving DecidableEq, Repr

structure ApprovalApplyClaim where
  claimId : String
  startedAt : String
  startedBy : String
  deriving DecidableEq, Repr

inductive ApplyOutcome
  | success | failed | rolledBack
  deriving DecidableEq, Repr

structure ApprovalApplyResult where
  appliedAt : Option String := none
  appliedBy : Option String := none
  result : Option ApplyOutcome := none
  auditRef : Option String := none
  deriving DecidableEq, Repr

structure ApprovalRevocation where
  revokedBy : String
  revokedByDisplayName : Option String := none
  revokedAt : String
  reason : Option String := none
  deriving DecidableEq, Repr

structure ApprovalConsumption where
  consumer : String
  consumedBy : String
  consumedAt : String
  effectRef : Option String := none
  deriving DecidableEq, Repr

/-- A request that records a data subject's own consent. -/
structure ApprovalConsent where
  subject : String
  subjectOnly : Bool
  deriving DecidableEq, Repr

/-- The part of `requestedByContext` that identifies who and what asked. -/
structure ApprovalRequesterContext where
  actorId : Option String := none
  executionBindingHash : Option String := none
  executionIdentity : Option String := none
  deriving DecidableEq, Repr

structure ApprovalRequestRecord where
  id : String
  kind : ApprovalKind
  storageChannel : String
  channel : String
  requestedBy : Option String := none
  requestedByContext : Option ApprovalRequesterContext := none
  sourceAgentId : Option String := none
  decidedBy : Option String := none
  decidedByIdentitySource : Option ApprovalDeciderIdentitySource := none
  status : ApprovalStatus
  expiresAt : Option String := none
  workflowApprovals : List ApprovalStageRecord := []
  consent : Option ApprovalConsent := none
  tenantSlug : Option String := none
  /-- Only whether a governed effect is attached is read here. -/
  steering : Bool := false
  applyClaim : Option ApprovalApplyClaim := none
  applyResult : Option ApprovalApplyResult := none
  revocation : Option ApprovalRevocation := none
  consumption : Option ApprovalConsumption := none
  deriving DecidableEq, Repr

/-- What the approval modules call outside the repository. -/
structure Host where
  unicode : Js.Unicode
  dateParse : String → Option ℤ
  isoString : ℤ → String
  /-- SHA-256 of the canonical JSON of `{ record }`. -/
  payloadHash : ApprovalRequestRecord → String

/-- A record without a readable future expiry is current only if it names none. -/
def isApprovalRequestExpired (host : Host) (record : ApprovalRequestRecord) (now : ℤ) : Bool :=
  match record.expiresAt with
  | none => false
  | some text =>
      if Js.isBlank text then false
      else match host.dateParse text with
        | none => true
        | some expiresAt => expiresAt ≤ now

end Kyberion.Approval
