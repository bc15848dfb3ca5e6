import Kyberion.Approval.Record

/-!
The one check every consumer runs before it turns an approved record into an
effect: a revoked record is refused always, a record whose approving decision
fails separation of duties is refused while the policy switch is on.
-/

namespace Kyberion.Approval

def approvalPrincipalPrefixes : List String :=
  ["user", "human", "operator", "member", "principal", "agent", "service", "persona", "actor",
    "policy"]

/-- Canonical principal id; a missing id is empty. -/
def normalizeApprovalPrincipalId (host : Host) (value : Option String) : String :=
  match value with
  | none => ""
  | some text =>
      Js.trim (Js.dropWordPrefix approvalPrincipalPrefixes
        (host.unicode.toLowerCase (Js.trim (host.unicode.normalizeNfkc text))))

def approvalPlaceholderDeciders : List String :=
  ["concierge", "chronos-localadmin", "sovereign-user", "cowork-operator", "mcp-client",
    "operator", "sovereign", "human", "user", "unknown", "unknown-human", "anonymous"]

/-- Every identity a record keeps for whoever asked for it. -/
def approvalRequesterIdentities (host : Host) (record : ApprovalRequestRecord) : List String :=
  (([record.requestedBy, record.requestedByContext.bind (·.actorId), record.sourceAgentId].map
    (normalizeApprovalPrincipalId host)).filter (· ≠ "")).dedup

def selfConsentStorageChannels : List String :=
  ["custody-provider-attestation"]

/-- The consent a record carries, when its channel honours one. -/
def recordConsent (host : Host) (record : ApprovalRequestRecord) : Option ApprovalConsent :=
  match record.consent with
  | none => none
  | some consent =>
      if normalizeApprovalPrincipalId host (some consent.subject) = "" then none
      else
        let channel := if record.storageChannel = "" then record.channel else record.storageChannel
        if selfConsentStorageChannels.contains channel then some consent else none

inductive SeparationOfDutiesViolation
  | selfApproval | missingRequester | missingDecider | unverifiedDecider
  deriving DecidableEq, Repr

/-- `none` when the decider is a resolved principal other than every requester. -/
def evaluateSeparationOfDuties (host : Host) (record : ApprovalRequestRecord)
    (decidedBy : Option String) (identitySource : Option ApprovalDeciderIdentitySource) :
    Option SeparationOfDutiesViolation :=
  if identitySource = some .callerSupplied then some .unverifiedDecider
  else
    let decider := normalizeApprovalPrincipalId host decidedBy
    if decider = "" || approvalPlaceholderDeciders.contains decider then some .missingDecider
    else
      let requesters := approvalRequesterIdentities host record
      if requesters.isEmpty then some .missingRequester
      else if !requesters.contains decider then none
      else match recordConsent host record with
        | some consent =>
            if normalizeApprovalPrincipalId host (some consent.subject) = decider then none
            else some .selfApproval
        | none => some .selfApproval

def separationOfDutiesMessage : SeparationOfDutiesViolation → String
  | .selfApproval => "the decider is the same principal that requested it"
  | .missingRequester =>
      "the request records no requester identity, so separation cannot be proven"
  | .missingDecider =>
      "the decision carries no real decider identity (empty or a surface placeholder), so " ++
        "separation cannot be proven"
  | .unverifiedDecider =>
      "the decider identity was supplied by the caller, not resolved by the server, so " ++
        "separation cannot be proven"

/-- The record-level decision, then each approved workflow stage. -/
def approvingDecisions (record : ApprovalRequestRecord) :
    List (Option String × Option ApprovalDeciderIdentitySource) :=
  (record.decidedBy, record.decidedByIdentitySource) ::
    (record.workflowApprovals.filter fun approval => approval.status = .approved).map
      fun approval => (approval.approvedBy, approval.deciderIdentitySource)

inductive ApprovalUnusableReason
  | violation (v : SeparationOfDutiesViolation)
  | revoked (revocation : ApprovalRevocation)
  deriving DecidableEq, Repr

/-- Why an approved record may not become an effect. -/
def evaluateApprovalUsability (host : Host) (separationEnabled : Bool)
    (record : ApprovalRequestRecord) : Option ApprovalUnusableReason :=
  match record.revocation with
  | some revocation => some (.revoked revocation)
  | none =>
      if separationEnabled then
        (approvingDecisions record).findSome? fun decision =>
          (evaluateSeparationOfDuties host record decision.1 decision.2).map .violation
      else none

theorem evaluateApprovalUsability_revoked {host : Host} {separationEnabled : Bool}
    {record : ApprovalRequestRecord} (h : record.revocation.isSome) :
    evaluateApprovalUsability host separationEnabled record ≠ none := by
  obtain ⟨revocation, hr⟩ := Option.isSome_iff_exists.mp h
  simp [evaluateApprovalUsability, hr]

/-- The refusal text of an unusable record; `next` says how to get a new approval. -/
def unusableMessage (record : ApprovalRequestRecord) (next : String) :
    ApprovalUnusableReason → String
  | .revoked revocation =>
      "[POLICY_VIOLATION] Approval " ++ record.id ++ " cannot be used because it was revoked by " ++
        revocation.revokedBy ++ " at " ++ revocation.revokedAt ++
        (match revocation.reason with
          | some reason => if reason = "" then "" else " (" ++ reason ++ ")"
          | none => "") ++
        ". A revoked approval is never reused — " ++ next ++
        ", then have it decided again (`pnpm kyberion approvals --approve <new-request-id>`)."
  | .violation v =>
      "[POLICY_VIOLATION] Separation of duties: approval " ++ record.id ++
        " cannot be used because " ++ separationOfDutiesMessage v ++ ". This approval is " ++
        record.status.text ++ " and is never reused — " ++ next ++
        ", then have a different, server-identified principal decide it " ++
        "(`pnpm kyberion approvals --approve <new-request-id>`)." ++
        (if record.status = .approved && record.applyClaim.isNone && record.applyResult.isNone then
          " To revoke it (further uses refused), run `pnpm kyberion approvals --revoke " ++
            record.id ++ "`."
        else "")

def assertApprovalUsable (host : Host) (separationEnabled : Bool) (record : ApprovalRequestRecord)
    (rerequestCommand : Option String) : Except String Unit :=
  match evaluateApprovalUsability host separationEnabled record with
  | none => .ok ()
  | some reason =>
      .error <| unusableMessage record
        (match rerequestCommand with
          | some command =>
              if command = "" then
                "request a new approval by re-running the command that opened this one"
              else "request a new approval with `" ++ command ++ "`"
          | none => "request a new approval by re-running the command that opened this one")
        reason

theorem assertApprovalUsable_ok {host : Host} {separationEnabled : Bool}
    {record : ApprovalRequestRecord} {rerequestCommand : Option String}
    (h : assertApprovalUsable host separationEnabled record rerequestCommand = .ok ()) :
    record.revocation = none := by
  rw [Option.eq_none_iff_forall_ne_some]
  intro revocation hr
  simp [assertApprovalUsable, evaluateApprovalUsability, hr] at h

end Kyberion.Approval
