import Kyberion.Js.Throw
import Kyberion.Approval.SeparationOfDuties

/-!
The four operations that spend or withdraw an approved record. Each runs under
the record lock, so it is one function from the located record to the record
it writes back; event log, audit and session-cache side outputs are left out.
-/

namespace Kyberion.Approval

open Js (throwIf)

/-- What one locked call reads from its surroundings. -/
structure CallEnv where
  now : ℤ
  separationEnabled : Bool
  deriving DecidableEq, Repr

structure ClaimParams where
  appliedBy : String
  expectedRecordHash : String
  rerequestCommand : Option String := none
  /-- The value `randomUUID()` returns in this call. -/
  uuid : String
  deriving DecidableEq, Repr

def applyClaimOf (host : Host) (env : CallEnv) (params : ClaimParams) : ApprovalApplyClaim where
  claimId := params.uuid
  startedAt := host.isoString env.now
  startedBy := params.appliedBy

/-- The checks of the apply claim read the apply marks, not the consumption. -/
def claimApprovalApply (host : Host) (env : CallEnv) (params : ClaimParams)
    (located : Option ApprovalRequestRecord) : Except String ApprovalRequestRecord :=
  match located with
  | none => .error "[POLICY_VIOLATION] Approval request not found"
  | some record =>
      throwIf (params.expectedRecordHash ≠ host.payloadHash record)
        "[POLICY_VIOLATION] Approval request changed before apply" <|
      throwIf (record.status ≠ .approved ∨ isApprovalRequestExpired host record env.now)
        "[POLICY_VIOLATION] A current approved request is required before apply" <|
      throwIf (record.applyClaim.isSome ∨ record.applyResult.isSome)
        "[POLICY_VIOLATION] Approval apply already started; recovery required" <|
      throwIf (Js.isBlank params.appliedBy)
        "[POLICY_VIOLATION] Approval apply requires an actor" <|
      match assertApprovalUsable host env.separationEnabled record params.rerequestCommand with
      | .error message => .error message
      | .ok () => .ok { record with applyClaim := some (applyClaimOf host env params) }

theorem claimApprovalApply_ok {host : Host} {env : CallEnv} {params : ClaimParams}
    {record updated : ApprovalRequestRecord}
    (h : claimApprovalApply host env params (some record) = .ok updated) :
    record.revocation = none ∧ record.applyClaim = none ∧ record.applyResult = none ∧
      updated = { record with applyClaim := some (applyClaimOf host env params) } := by
  simp only [claimApprovalApply, Js.throwIf_eq_ok, not_or, Option.not_isSome_iff_eq_none] at h
  obtain ⟨-, -, ⟨hclaim, hresult⟩, -, h⟩ := h
  split at h
  · cases h
  · rename_i husable
    exact ⟨assertApprovalUsable_ok husable, hclaim, hresult, (Except.ok.inj h).symm⟩

structure ConsumeParams where
  requestId : String
  consumer : String
  consumedBy : String
  effectRef : Option String := none
  /-- Whether the effect that runs under the lock calls `consume`. -/
  consumes : Bool := true
  deriving DecidableEq, Repr

def consumptionOf (host : Host) (env : CallEnv) (params : ConsumeParams) : ApprovalConsumption where
  consumer := params.consumer
  consumedBy := params.consumedBy
  consumedAt := host.isoString env.now
  effectRef := match params.effectRef with
    | some ref => if ref = "" then none else some ref
    | none => none

/-- The consumption is written at most once, while the record lock is held. -/
def consumeApprovalWithin (host : Host) (env : CallEnv) (params : ConsumeParams)
    (located : Option ApprovalRequestRecord) : Except String ApprovalRequestRecord :=
  match located with
  | none =>
      .error ("[POLICY_VIOLATION] Approval " ++ params.requestId ++ " is missing, not approved")
  | some record =>
      throwIf (record.status ≠ .approved)
        ("[POLICY_VIOLATION] Approval " ++ params.requestId ++ " is " ++ record.status.text ++
          ", not approved") <|
      throwIf (record.consumption.isSome ∨ record.applyClaim.isSome ∨ record.applyResult.isSome)
        ("[POLICY_VIOLATION] Approval " ++ record.id ++ " was already used" ++
          (match record.consumption with
            | some used => " by " ++ used.consumer ++ " at " ++ used.consumedAt
            | none => "") ++ "; approvals are used once") <|
      match assertApprovalUsable host env.separationEnabled record none with
      | .error message => .error message
      | .ok () =>
          .ok (if params.consumes then
            { record with consumption := some (consumptionOf host env params) } else record)

theorem consumeApprovalWithin_ok {host : Host} {env : CallEnv} {params : ConsumeParams}
    {record updated : ApprovalRequestRecord}
    (h : consumeApprovalWithin host env params (some record) = .ok updated) :
    record.revocation = none ∧ record.consumption = none ∧ record.applyClaim = none ∧
      record.applyResult = none ∧
      updated = if params.consumes then
        { record with consumption := some (consumptionOf host env params) } else record := by
  simp only [consumeApprovalWithin, Js.throwIf_eq_ok, not_or, Option.not_isSome_iff_eq_none] at h
  obtain ⟨-, ⟨hconsumption, hclaim, hresult⟩, h⟩ := h
  split at h
  · cases h
  · rename_i husable
    exact ⟨assertApprovalUsable_ok husable, hconsumption, hclaim, hresult,
      (Except.ok.inj h).symm⟩

structure ResultParams where
  channel : String
  requestId : String
  applyResult : ApprovalApplyResult
  claimId : Option String := none
  deriving DecidableEq, Repr

/-- Only a secret mutation moves the status; other kinds stay approved. -/
def appliedStatus (record : ApprovalRequestRecord) (result : ApprovalApplyResult) :
    ApprovalStatus :=
  if record.kind = .secretMutation then
    match result.result with
    | some .success => .applied
    | some .failed => .failed
    | _ => record.status
  else record.status

/-- `''` is no claim id. -/
def givenClaimId (params : ResultParams) : Bool :=
  match params.claimId with
  | some id => id ≠ ""
  | none => false

def recordApprovalApplyResultUnlocked (params : ResultParams)
    (located : Option ApprovalRequestRecord) : Except String ApprovalRequestRecord :=
  match located with
  | none => .error ("Approval request not found: " ++ params.channel ++ "/" ++ params.requestId)
  | some record =>
      throwIf (record.applyClaim.isSome ∧ params.claimId ≠ record.applyClaim.map (·.claimId))
        "[POLICY_VIOLATION] Approval apply claim does not match" <|
      throwIf (givenClaimId params ∧ record.applyClaim.isNone)
        "[POLICY_VIOLATION] Approval apply claim is missing" <|
      throwIf (record.applyClaim.isSome ∧ record.applyResult.isSome)
        "[POLICY_VIOLATION] Approval apply result is already recorded" <|
      .ok { record with
        status := appliedStatus record params.applyResult, applyResult := some params.applyResult }

theorem recordApprovalApplyResultUnlocked_ok {params : ResultParams}
    {record updated : ApprovalRequestRecord}
    (h : recordApprovalApplyResultUnlocked params (some record) = .ok updated) :
    updated = { record with
      status := appliedStatus record params.applyResult,
      applyResult := some params.applyResult } := by
  simp only [recordApprovalApplyResultUnlocked, Js.throwIf_eq_ok] at h
  exact (Except.ok.inj h.2.2.2).symm

/-- On whose authority a revocation is asked. -/
inductive RevokeAuthority
  | owner
  | accountablePrincipal
  | standingEffect (consumer effectRef : String)
  deriving DecidableEq, Repr

structure RevokeParams where
  channel : String
  requestId : String
  reason : Option String := none
  revokedBy : String
  revokedByDisplayName : Option String := none
  authority : RevokeAuthority
  deriving DecidableEq, Repr

def revocationRefusal (record : ApprovalRequestRecord) (why : String) : String :=
  "[POLICY_VIOLATION] Approval " ++ record.id ++ " cannot be revoked: " ++ why

/-- Whether the consumption on the record is the standing effect being withdrawn. -/
def standingEffectMatch (record : ApprovalRequestRecord) : RevokeAuthority → Bool
  | .standingEffect consumer effectRef =>
      match record.consumption with
      | some used => used.consumer = consumer ∧ used.effectRef = some effectRef
      | none => false
  | _ => false

def RevokeAuthority.isStandingEffect : RevokeAuthority → Bool
  | .standingEffect _ _ => true
  | _ => false

/-- The requester, the decider and every workflow approver. -/
def accountablePrincipals (host : Host) (record : ApprovalRequestRecord) : List String :=
  approvalRequesterIdentities host record ++
    ((record.decidedBy :: record.workflowApprovals.map (·.approvedBy)).map
      (normalizeApprovalPrincipalId host)).filter (· ≠ "")

def revocationOf (host : Host) (env : CallEnv) (params : RevokeParams) : ApprovalRevocation where
  revokedBy := params.revokedBy
  revokedByDisplayName := match params.revokedByDisplayName with
    | some name => if name = "" then none else some name
    | none => none
  revokedAt := host.isoString env.now
  reason := match params.reason with
    | some reason => if Js.isBlank reason then none else some (Js.trim reason)
    | none => none

def revoke (host : Host) (env : CallEnv) (params : RevokeParams)
    (located : Option ApprovalRequestRecord) : Except String ApprovalRequestRecord :=
  match located with
  | none => .error ("Approval request not found: " ++ params.channel ++ "/" ++ params.requestId)
  | some record =>
      let refusal := revocationRefusal record
      let effectMatch := standingEffectMatch record params.authority
      let revoker := normalizeApprovalPrincipalId host (some params.revokedBy)
      throwIf record.revocation.isSome
        (refusal ("it was already revoked by " ++
          Js.orElse (record.revocation.map (·.revokedBy)) "")) <|
      throwIf (record.status = .pending) (refusal "it is still pending — cancel it instead") <|
      throwIf (record.status ≠ .approved)
        (refusal ("it is " ++ record.status.text ++ ", not approved")) <|
      throwIf (record.applyClaim.isSome ∨ record.applyResult.isSome)
        (refusal "it was already claimed or applied — its one-shot effect has happened") <|
      throwIf (params.authority.isStandingEffect ∧ ¬ effectMatch)
        (refusal "it was not consumed by the standing effect being withdrawn") <|
      throwIf (record.consumption.isSome ∧ ¬ effectMatch)
        (refusal ("it was already consumed by " ++
          Js.orElse (record.consumption.map (·.consumer)) "" ++ " at " ++
          Js.orElse (record.consumption.map (·.consumedAt)) "" ++
          " — its one-shot effect has happened")) <|
      throwIf record.steering
        (refusal "its effect starts when it is approved (steering request)") <|
      throwIf (revoker = "" ∨ approvalPlaceholderDeciders.contains revoker)
        (refusal "the revoking identity is empty or a surface placeholder") <|
      throwIf (params.authority = .accountablePrincipal ∧
          ¬ (accountablePrincipals host record).contains revoker)
        (refusal (params.revokedBy ++
          " is neither its requester, one of its approvers, nor the local owner")) <|
      .ok { record with revocation := some (revocationOf host env params) }

theorem revoke_ok {host : Host} {env : CallEnv} {params : RevokeParams}
    {record updated : ApprovalRequestRecord}
    (h : revoke host env params (some record) = .ok updated) :
    record.applyClaim = none ∧ record.applyResult = none ∧
      updated = { record with revocation := some (revocationOf host env params) } := by
  simp only [revoke, Js.throwIf_eq_ok, not_or, Option.not_isSome_iff_eq_none] at h
  obtain ⟨-, -, -, ⟨hclaim, hresult⟩, -, -, -, -, -, h⟩ := h
  exact ⟨hclaim, hresult, (Except.ok.inj h).symm⟩

/-- A standing effect is withdrawn by its own consumption only. -/
theorem revoke_standingEffect_ok {host : Host} {env : CallEnv} {params : RevokeParams}
    {consumer effectRef : String} {record updated : ApprovalRequestRecord}
    (h : revoke host env { params with authority := .standingEffect consumer effectRef }
      (some record) = .ok updated) :
    ∃ used, record.consumption = some used ∧ used.consumer = consumer ∧
      used.effectRef = some effectRef := by
  simp only [revoke, Js.throwIf_eq_ok] at h
  obtain ⟨-, -, -, -, hmatch, -⟩ := h
  cases hused : record.consumption with
  | none => simp [RevokeAuthority.isStandingEffect, standingEffectMatch, hused] at hmatch
  | some used =>
      refine ⟨used, rfl, ?_⟩
      simpa [RevokeAuthority.isStandingEffect, standingEffectMatch, hused] using hmatch

/-- An empty consumer or effect is refused before the record is read. -/
def revokeStandingEffectApproval (host : Host) (env : CallEnv) (params : RevokeParams)
    (consumer effectRef : String) (located : Option ApprovalRequestRecord) :
    Except String ApprovalRequestRecord :=
  throwIf (Js.isBlank consumer ∨ Js.isBlank effectRef)
    ("[POLICY_VIOLATION] withdrawing a standing-effect approval needs a consumer and an " ++
      "effectRef") <|
  revoke host env { params with authority := .standingEffect consumer effectRef } located

end Kyberion.Approval
