import Kyberion.Approval.Decide
import Kyberion.Grant.Record
import Kyberion.Transition
import Mathlib.Logic.Function.Basic

/-!
How a standing grant of an external capability comes to be, is used and is
withdrawn. Its approval is consumed under the id of the grant before the file is
written; a use rebuilds the approved draft from the file. Anybody may edit the
files, while approvals change by the approval store only.
-/

namespace Kyberion.Grant

open Js (throwIf)
open Approval (ApprovalAccountability ApprovalAssuranceLevel ApprovalRequestRecord CallEnv
  RoleApproval)

/-- A stored approval, with the decisions of its roles. -/
structure GrantApproval where
  request : ApprovalRequestRecord
  accountability : Option ApprovalAccountability
  roles : List RoleApproval

/-- The approvals of the grant channel by their ids. -/
abbrev Approvals := String → Option GrantApproval

/-- `/^[0-9a-f]{8}-[0-9a-f]{4}-[0-9a-f]{4}-[0-9a-f]{4}-[0-9a-f]{12}$/i` -/
def isApprovalRequestId (cs : List Char) : Bool :=
  cs.length = 36 && cs.zipIdx.all fun (c, i) =>
    if [8, 13, 18, 23].contains i then c = '-' else isHex c || 'A' ≤ c && c ≤ 'F'

section Calls

variable (host : GrantHost)

def normalizeApprovalRequestId (id : String) : Except String String :=
  throwIf (!isApprovalRequestId (Js.trim id).toList)
    ("[POLICY_VIOLATION] Invalid approval request id: " ++ id) <|
  .ok (host.unicode.toLowerCase (Js.trim id))

def loadApprovalRequest (approvals : Approvals) (id : String) :
    Except String (Option GrantApproval) := do
  .ok (approvals (← normalizeApprovalRequestId host id))

/-- The approval is bound to exactly this draft. -/
def bindsDraft (approval : GrantApproval) (draft : NormalizedGrantDraft) : Bool :=
  approval.accountability.bind (·.effectBinding) = some (grantApprovalEffectBinding draft) &&
    approval.accountability.bind (·.payloadHash) =
      some (computeApprovalPayloadHash host (grantApprovalPayload draft))

structure CheckedApproval where
  approvalId : String
  humanDecider : String
  assurance : ApprovalAssuranceLevel
  role : GrantedByRole
  deriving DecidableEq

def assertGrantApproval (env : CallEnv) (approvals : Approvals) (draft : NormalizedGrantDraft)
    (approvalRequestId : String) : Except String CheckedApproval := do
  let refuse := grantError "approval_invalid"
  let approval ← loadApprovalRequest host approvals approvalRequestId
  match approval with
  | none =>
      .error (refuse ("grant approval " ++ approvalRequestId ++ " is missing, not approved"))
  | some approval =>
      let request := approval.request
      throwIf (request.status ≠ .approved)
        (refuse ("grant approval " ++ approvalRequestId ++ " is " ++ request.status.text ++
          ", not approved")) <|
      throwIf (Approval.isApprovalRequestExpired host.toHost request env.now)
        (refuse ("grant approval has expired: " ++ request.id)) <|
      throwIf (request.consumption.isSome ∨ request.applyClaim.isSome ∨ request.applyResult.isSome)
        (refuse ("grant approval " ++ request.id ++ " was already used")) <| do
      Approval.assertApprovalUsable host.toHost env.separationEnabled request none
      throwIf (approval.accountability.bind (·.effectBinding) ≠
          some (grantApprovalEffectBinding draft))
        (refuse "grant approval is bound to a different effect") <|
      throwIf (approval.accountability.bind (·.payloadHash) ≠
          some (computeApprovalPayloadHash host (grantApprovalPayload draft)))
        (refuse ("grant approval is bound to a different capability/tenant/meetings/purpose/" ++
          "lifetime")) <|
      match approval.roles.find? fun entry => entry.status = .approved &&
          entry.decidedByType = some .human && entry.authenticated = some true with
      | none => .error (refuse "grant approval requires an authenticated human decision")
      | some humanApproval => do
          let _ ← (Approval.validateHumanFinalDecision host.approvalPolicy approval.accountability
            { decidedByType := humanApproval.decidedByType
              authenticated := humanApproval.authenticated
              authMethod := humanApproval.authMethod
              payloadHash := humanApproval.payloadHash
              effectBinding := humanApproval.effectBinding } none true).mapError refuse
          let humanDecider :=
            Js.orElse humanApproval.approvedBy (Js.orElse request.decidedBy "")
          throwIf (humanDecider = "")
            (refuse "grant approval does not name its human decider") <|
          .ok
            { approvalId := request.id
              humanDecider
              assurance := (humanApproval.authMethod.map Approval.assuranceOfAuthMethod).getD .a0
              role := if humanApproval.role = "sovereign" then .sovereign else .operator }

/-- The draft that a stored record claims to have been approved as. -/
def rebuiltDraft (record : GrantRecord) (ttlDays : ℕ) : NormalizedGrantDraft where
  capability := record.capability
  tenantSlug := record.scope.tenantSlug
  credentialProvider := record.scope.credentialProvider.filter (· ≠ "")
  credentialRef := record.scope.credentialRef.filter (· ≠ "")
  meetingSeriesIds := record.scope.meetingSeriesIds.getD []
  meetingUrls := record.scope.meetingUrls.getD []
  purpose := record.purpose
  ttlDays

/-- The whole number of days that the record is for. -/
def lifetimeDays (record : GrantRecord) : Option ℕ := do
  let lifetime := (← host.dateParse record.expiresAt) - (← host.dateParse record.grantedAt)
  if lifetime % dayMs = 0 ∧ dayMs ≤ lifetime then some (lifetime / dayMs).toNat else none

def isExternalIo (capability : String) : Bool :=
  match requireStandingGrantPolicy host capability with
  | .ok policy => policy.externalIo
  | .error _ => false

/-- The approval was consumed for this record and is bound to the draft behind it. -/
def coversRecord (approval : GrantApproval) (record : GrantRecord) : Bool :=
  (approval.request.consumption.any fun consumption =>
    consumption.consumer = grantApprovalConsumer &&
      consumption.effectRef = some record.grantId && consumption.consumedAt = record.grantedAt) &&
  (lifetimeDays host record).any fun ttlDays => bindsDraft host approval (rebuiltDraft record ttlDays)

def verifyGrantBasis (approvals : Approvals) (record : GrantRecord) : Bool :=
  match requireStandingGrantPolicy host record.capability with
  | .error _ => false
  | .ok policy =>
      if !policy.externalIo then true
      else record.basis.any fun basis =>
        basis.approvalChannel = grantApprovalChannel &&
          match loadApprovalRequest host approvals basis.approvalRequestId with
          | .ok (some approval) => approval.request.status = .approved &&
              approval.request.revocation.isNone && coversRecord host approval record
          | _ => false

/-- `hex` is the random part. -/
def generateGrantId (now : ℤ) (hex : String) : String :=
  "GRT-" ++ String.ofList (((host.isoString now).toList.take 10).filter (· ≠ '-')) ++ "-" ++ hex

/-- The record that is to be written, before its audit event. -/
def pendingGrant (draft : NormalizedGrantDraft) (grantedBy : GrantedBy) (basis : GrantBasis)
    (grantId grantedAt : String) : Option GrantRecord :=
  (host.dateParse grantedAt).map fun grantedMs =>
    { grantId
      capability := draft.capability
      scope :=
        { tenantSlug := draft.tenantSlug
          credentialProvider := draft.credentialProvider.filter (· ≠ "")
          credentialRef := draft.credentialRef.filter (· ≠ "")
          meetingSeriesIds :=
            if draft.meetingSeriesIds = [] then none else some draft.meetingSeriesIds
          meetingUrls := if draft.meetingUrls = [] then none else some draft.meetingUrls }
      purpose := draft.purpose
      grantedBy
      basis := some basis
      grantedAt
      expiresAt := host.isoString (grantedMs + draft.ttlDays * dayMs)
      auditEventId := "pending" }

/-- The checks of `grantStanding` down to the approval. -/
def grantStandingChecks (env : CallEnv) (approvals : Approvals) (draft : GrantDraft)
    (approvalRequestId : String) : Except String (NormalizedGrantDraft × CheckedApproval) := do
  let normalized ← normalizeGrantDraft host draft
  let policy ← requireStandingGrantPolicy host normalized.capability
  throwIf (Js.isBlank approvalRequestId)
    (grantError "approval_required" (normalized.capability ++ " needs an approval request id")) <|
  throwIf (!policy.externalIo)
    (grantError "invalid_input" (normalized.capability ++
      " is not external_io; grant it directly without an approval")) <| do
  .ok (normalized,
    ← assertGrantApproval host env approvals normalized (Js.trim approvalRequestId))

/-- `markApprovalConsumed` on the approval that was checked. -/
def consumeForGrant (env : CallEnv) (approvals : Approvals) (checked : CheckedApproval)
    (grantId : String) : Except String GrantApproval := do
  let located ← loadApprovalRequest host approvals checked.approvalId
  let updated ← Approval.consumeApprovalWithin host.toHost env
    { requestId := checked.approvalId
      consumer := grantApprovalConsumer
      consumedBy := checked.humanDecider
      effectRef := some grantId } (located.map (·.request))
  .ok
    { request := updated
      accountability := located.bind (·.accountability)
      roles := (located.map (·.roles)).getD [] }

/-- The grant for which the approval has just been consumed. -/
def consumedGrant (draft : NormalizedGrantDraft) (checked : CheckedApproval) (grantId : String)
    (approval : GrantApproval) : Option GrantRecord := do
  let consumption ← approval.request.consumption
  if consumption.consumedAt = "" then none
  else
    pendingGrant host draft
      { actorId := checked.humanDecider, role := checked.role, assurance := checked.assurance }
      { approvalRequestId := checked.approvalId, approvalChannel := grantApprovalChannel }
      grantId consumption.consumedAt

end Calls

structure GrantActor where
  kind : GrantActorKind
  id : String

/-- A call of `grantStanding`, before and after it has consumed its approval. -/
inductive GrantCall
  | checked (draft : NormalizedGrantDraft) (approval : CheckedApproval)
  | consumed (record : GrantRecord)
  deriving DecidableEq

/-- `made` tells for which grant an approval was consumed, `created` which grants were written,
and `stopped` which calls ended before they wrote theirs. -/
structure GrantState where
  approvals : Approvals
  files : Option String → String → Option GrantRecord
  calls : List GrantCall
  made : List (String × GrantRecord)
  created : List GrantRecord
  stopped : List GrantCall

/-- The record in a file; one that is invalid or misplaced is treated as absent. -/
def loadGrant (host : GrantHost) (s : GrantState) (tenant : Option String) (grantId : String) :
    Option GrantRecord :=
  if isGrantId grantId.toList then
    (s.files tenant grantId).filter fun record => (validateGrantRecord host record).toBool &&
      record.grantId = grantId && record.scope.tenantSlug = tenant
  else none

/-- What other callers of the approval store leave alone. -/
def keepsBasis (before after : GrantApproval) : Bool :=
  after.request.id = before.request.id && after.accountability = before.accountability &&
    (match before.request.consumption with
      | some used => after.request.consumption = some used
      | none => after.request.consumption.all (·.consumer ≠ grantApprovalConsumer)) &&
    (before.request.revocation.isNone || after.request.revocation.isSome)

inductive GrantAction
  | request (id : String) (approval : GrantApproval)
  | settle (id : String) (approval : GrantApproval)
  | check (env : CallEnv) (draft : GrantDraft) (approvalRequestId : String)
  | consume (draft : NormalizedGrantDraft) (checked : CheckedApproval) (env : CallEnv) (now : ℤ)
      (hex : String)
  | write (record : GrantRecord) (auditEventId : String)
  | stop (call : GrantCall)
  | revokeGrant (env : CallEnv) (tenant : Option String) (grantId : String) (actor : GrantActor)
      (reason auditEventId : String)
  | edit (tenant : Option String) (grantId : String) (content : Option GrantRecord)

def GrantState.setFile (s : GrantState) (tenant : Option String) (grantId : String)
    (content : Option GrantRecord) : GrantState :=
  { s with
    files := Function.update s.files tenant
      (Function.update (s.files tenant) grantId content) }

def GrantState.setApproval (s : GrantState) (id : String) (approval : GrantApproval) :
    GrantState :=
  { s with
    approvals := Function.update s.approvals id (some approval) }

@[simp] theorem GrantState.setApproval_self (s : GrantState) (id : String)
    (approval : GrantApproval) : (s.setApproval id approval).approvals id = some approval :=
  Function.update_self ..

theorem GrantState.setApproval_of_ne {s : GrantState} {id id' : String} {approval : GrantApproval}
    (h : id' ≠ id) : (s.setApproval id approval).approvals id' = s.approvals id' :=
  Function.update_of_ne h ..

/-- `writeGrant` of a valid record -/
def GrantState.writeGrant (s : GrantState) (record : GrantRecord) : GrantState :=
  s.setFile record.scope.tenantSlug record.grantId (some record)

section System

variable (host : GrantHost)

/-- The approval that a revoked grant names, once it is withdrawn. -/
def withdrawApproval (env : CallEnv) (approvals : Approvals) (existing : GrantRecord)
    (actor : GrantActor) (reason : String) : Option GrantApproval := do
  let basis ← existing.basis
  if basis.approvalChannel ≠ grantApprovalChannel then none
  else
    let approval ← (← (loadApprovalRequest host approvals basis.approvalRequestId).toOption)
    let updated ← (Approval.revokeStandingEffectApproval host.toHost env
      { channel := basis.approvalChannel
        requestId := basis.approvalRequestId
        revokedBy := actor.id
        reason := some ("standing grant " ++ existing.grantId ++ " revoked: " ++ reason)
        authority := .owner } grantApprovalConsumer existing.grantId
      (some approval.request)).toOption
    some
      { approval with
        request := updated }

def revokedGrant (env : CallEnv) (existing : GrantRecord) (actor : GrantActor)
    (reason auditEventId : String) : GrantRecord :=
  { existing with
    revoked := some
      { at_ := host.isoString env.now
        by_ := actor.id
        byKind := some actor.kind
        reason := some reason
        auditEventId } }

/-- A grant is revoked in its file, whether or not its approval could be withdrawn. -/
def revokeGrant (env : CallEnv) (s : GrantState) (tenant : Option String) (grantId : String)
    (actor : GrantActor) (reason auditEventId : String) : GrantState :=
  let actor := { actor with id := Js.trim actor.id }
  let reason := Js.trim reason
  if actor.id = "" ∨ reason = "" ∨ 500 < Js.utf16Length reason then s
  else match loadGrant host s tenant grantId with
    | none => s
    | some existing =>
        if existing.revoked.isSome then s
        else
          let withdrawn := match withdrawApproval host env s.approvals existing actor reason with
            | some approval => s.setApproval approval.request.id approval
            | none => s
          let revoked := revokedGrant host env existing actor reason auditEventId
          if (validateGrantRecord host revoked).toBool then withdrawn.writeGrant revoked
          else withdrawn

/-- The part of `grantStanding` that consumes the approval, under an id not drawn before. -/
def consumeStep (env : CallEnv) (s : GrantState) (draft : NormalizedGrantDraft)
    (checked : CheckedApproval) (grantId : String) : GrantState :=
  match consumeForGrant host env s.approvals checked grantId with
  | .error _ => s
  | .ok approval =>
      let consumed := s.setApproval approval.request.id approval
      match consumedGrant host draft checked grantId approval with
      | none => consumed
      | some record =>
          { consumed with
            calls := .consumed record :: consumed.calls
            made := (checked.approvalId, record) :: consumed.made }

/-- Calls of any processes on the grants and their approvals, among edits of the files. -/
def grants : Transition.System GrantState GrantAction where
  init s := (∀ id approval, s.approvals id = some approval →
      approval.request.id = id ∧ normalizeApprovalRequestId host id = .ok id ∧
        ∀ used, approval.request.consumption = some used →
          used.consumer ≠ grantApprovalConsumer) ∧
    s.calls = [] ∧ s.made = [] ∧ s.created = [] ∧ s.stopped = []
  step s
    | .request id approval =>
        if s.approvals id = none ∧ approval.request.id = id ∧
            normalizeApprovalRequestId host id = .ok id ∧ approval.request.consumption = none then
          some (s.setApproval id approval)
        else none
    | .settle id approval =>
        if (s.approvals id).any (keepsBasis · approval) then some (s.setApproval id approval)
        else none
    | .check env draft approvalRequestId =>
        match grantStandingChecks host env s.approvals draft approvalRequestId with
        | .error _ => some s
        | .ok (normalized, checked) =>
            some { s with calls := .checked normalized checked :: s.calls }
    | .consume draft checked env now hex =>
        if .checked draft checked ∈ s.calls ∧
            ∀ entry ∈ s.made, entry.2.grantId ≠ generateGrantId host now hex then
          some (consumeStep host env { s with calls := s.calls.erase (.checked draft checked) }
            draft checked (generateGrantId host now hex))
        else none
    | .write record auditEventId =>
        if .consumed record ∈ s.calls ∧ (validateGrantRecord host record).toBool ∧
            (validateGrantRecord host { record with auditEventId }).toBool then
          some (GrantState.writeGrant
            { s with
              calls := s.calls.erase (.consumed record)
              created := { record with auditEventId } :: s.created }
            { record with auditEventId })
        else none
    | .stop call =>
        if call ∈ s.calls then
          some { s with
            calls := s.calls.erase call
            stopped := call :: s.stopped }
        else none
    | .revokeGrant env tenant grantId actor reason auditEventId =>
        some (revokeGrant host env s tenant grantId actor reason auditEventId)
    | .edit tenant grantId content => some (s.setFile tenant grantId content)

end System

end Kyberion.Grant
