import Kyberion.Approval.Assurance
import Kyberion.Approval.SeparationOfDuties
import Kyberion.Call

/-!
One decision on a request. It runs under the record lock, so it is a call on the
located record: every refusal leaves the record as it was, but a pending request
past its expiry is written back as expired before the call throws.
-/

namespace Kyberion.Approval

open Js (throwIf)

inductive ApprovalDecision
  | approved | rejected
  deriving DecidableEq, Repr

def ApprovalDecision.status : ApprovalDecision → ApprovalStatus
  | .approved => .approved
  | .rejected => .rejected

def ApprovalDecision.stage : ApprovalDecision → StageStatus
  | .approved => .approved
  | .rejected => .rejected

/-- One role approval of a workflow, with what its decision left on it. -/
structure RoleApproval extends ApprovalStageRecord where
  approvedAt : Option String := none
  authMethod : Option ApprovalAuthMethod := none
  note : Option String := none
  reasonCategory : Option String := none
  decidedByType : Option DeciderType := none
  authenticated : Option Bool := none
  payloadHash : Option String := none
  effectBinding : Option String := none
  deriving DecidableEq, Repr

inductive WorkflowMode
  | allRequired | anyOf | staged
  deriving DecidableEq, Repr

structure ApprovalWorkflowState where
  mode : WorkflowMode
  requiredRoles : List String
  approvals : List RoleApproval
  deriving DecidableEq, Repr

structure ApprovalChangeRequest where
  instruction : String
  requestedBy : String
  requestedAt : String
  deriving DecidableEq, Repr

/-- A request as a decision reads and writes it. -/
structure DecisionRecord where
  id : String
  kind : ApprovalKind
  storageChannel : String
  channel : String
  requestedBy : Option String := none
  requestedByContext : Option ApprovalRequesterContext := none
  sourceAgentId : Option String := none
  status : ApprovalStatus
  expiresAt : Option String := none
  workflow : Option ApprovalWorkflowState := none
  accountability : Option ApprovalAccountability := none
  decidedAt : Option String := none
  decidedBy : Option String := none
  decidedByDisplayName : Option String := none
  decidedByIdentitySource : Option ApprovalDeciderIdentitySource := none
  decidedByType : Option DeciderType := none
  authenticated : Option Bool := none
  decidedAuthMethod : Option ApprovalAuthMethod := none
  decidedInAgentSession : Option String := none
  /-- `cli_tty_challenge` -/
  decidedViaChallenge : Bool := false
  verifiedPresentedDigest : Option String := none
  assuranceShortfall : Option ApprovalAssuranceShortfall := none
  changeRequest : Option ApprovalChangeRequest := none
  deriving DecidableEq, Repr

/-- The request as the consumers of a decision read it. -/
def DecisionRecord.request (record : DecisionRecord) : ApprovalRequestRecord where
  id := record.id
  kind := record.kind
  storageChannel := record.storageChannel
  channel := record.channel
  requestedBy := record.requestedBy
  requestedByContext := record.requestedByContext
  sourceAgentId := record.sourceAgentId
  decidedBy := record.decidedBy
  decidedByIdentitySource := record.decidedByIdentitySource
  status := record.status
  expiresAt := record.expiresAt
  workflowApprovals :=
    (record.workflow.elim [] (·.approvals)).map RoleApproval.toApprovalStageRecord
  consent := record.accountability.bind (·.consent)

structure DecideParams where
  channel : String
  storageChannel : Option String := none
  requestId : String
  decision : ApprovalDecision
  decidedBy : String
  decidedByDisplayName : Option String := none
  decidedInAgentSession : Option String := none
  decidedViaChallenge : Bool := false
  decidedByRole : Option String := none
  proof : DeciderProof := {}
  deciderIdentitySource : Option ApprovalDeciderIdentitySource := none
  presentedDigest : Option String := none
  passkeyChallengeId : Option String := none
  note : Option String := none
  reasonCategory : Option String := none
  /-- Action and target class of the session cache. -/
  sessionCache : Option (String × String) := none
  changeInstruction : Option String := none
  expectedRecordHash : Option String := none

/-- The signals that the deciding process acts for an agent. -/
structure AgentSignals where
  principal : String
  agentPrincipal : Bool
  evidence : String

structure DecisionHost extends Host where
  recordHash : DecisionRecord → String
  presentedDigest : DecisionRecord → String

/-- What one decision reads from its surroundings; `passkeyProof` is how the challenge that it
names can be consumed. -/
structure DecideEnv where
  now : ℤ
  policy : ApprovalPolicy
  agent : Option AgentSignals := none
  systemRole : String := ""
  passkeyProof : Except String Unit

def humanDecisionSurfaceSystemRoles : List String :=
  ["concierge", "presence_studio", "operator_surface", "slack_bridge", "telegram_bridge",
    "discord_bridge", "imessage_bridge"]

def refuseHumanOnlyDecisionByAgentProcess (env : DecideEnv) (record : DecisionRecord) :
    Except String Unit :=
  match record.accountability, env.agent with
  | some _, some agent =>
      throwIf (agent.agentPrincipal ∨
          !(humanDecisionSurfaceSystemRoles.contains (Js.trim env.systemRole)))
        ("[APPROVAL_HUMAN_PROOF_REQUIRED] approval store refused human-only request " ++
          record.id ++ " — the deciding process acts for an agent (" ++ agent.principal ++
          ") | next: decide it in a signed-in Concierge or Chronos session, or answer the " ++
          "terminal challenge from your own terminal outside the agent session | evidence: " ++
          agent.evidence ++ if Js.isBlank env.systemRole then "" else
            ", SYSTEM_ROLE=" ++ Js.trim env.systemRole) (.ok ())
  | _, _ => .ok ()

/-- `/^[0-9a-f]+$/`, of the length of a full digest, and the digest of the record. -/
def approvalPresentedDigestMatches (host : DecisionHost) (record : DecisionRecord)
    (presented : String) : Bool :=
  let value := host.unicode.toLowerCase (Js.trim presented)
  value.toList.all (fun c => isDigit c || 'a' ≤ c && c ≤ 'f') && value.length = 64 &&
    value.toList.isPrefixOf (host.presentedDigest record).toList

/-- What the decision is bound to, and whether the presented digest was verified. -/
def bindPresentedDecision (host : DecisionHost) (record : DecisionRecord) (params : DecideParams) :
    Except String (DeciderProof × Bool) :=
  match params.presentedDigest with
  | none => .ok (params.proof, false)
  | some digest =>
      throwIf (!approvalPresentedDigestMatches host record digest)
        ("[POLICY_VIOLATION] approval decision refused — request " ++ record.id ++
          " changed since it was shown to the decider | next: reload the request and decide on " ++
          "what it says now | evidence: presented digest " ++ digest.take 16 ++ "…, current " ++
          (host.presentedDigest record).take 16 ++ "…") <|
      .ok ({ params.proof with
        payloadHash := params.proof.payloadHash.or (record.accountability.bind (·.payloadHash))
        effectBinding :=
          params.proof.effectBinding.or (record.accountability.bind (·.effectBinding)) }, true)

def settlePasskeyDecisionProof (env : DecideEnv) (record : DecisionRecord)
    (params : DecideParams) : Except String Unit :=
  if params.proof.authMethod = some .passkey then env.passkeyProof
  else
    throwIf (params.passkeyChallengeId.any (· ≠ ""))
      ("[POLICY_VIOLATION] approval decision refused — a passkey challenge was sent with " ++
        "authMethod " ++ (params.proof.authMethod.elim "none" (·.text)) ++
        " | next: record the decision as passkey through the passkey verify route | evidence: " ++
        "request " ++ record.id) (.ok ())

def settleUnpresentedHumanDecision (env : DecideEnv) (record : DecisionRecord)
    (verified : Bool) : Except String Unit :=
  match record.accountability with
  | none => .ok ()
  | some accountability =>
      throwIf (!verified ∧ (env.policy.mode = .enforce ∨ isTenantActivation accountability))
        ("[POLICY_VIOLATION] approval decision refused — human-only request " ++ record.id ++
          " was decided without the digest of what the decider was shown | next: decide it on a " ++
          "surface that sends the presented digest (a signed-in Concierge or Chronos session, " ++
          "or the terminal challenge) | evidence: strict human decision requires presentedDigest")
        (.ok ())

def approvalConsentDecisionRefusal (host : DecisionHost) (record : DecisionRecord)
    (decidedBy : String) : Except String Unit :=
  match recordConsent host.toHost record.request with
  | none => .ok ()
  | some consent =>
      let decider := normalizeApprovalPrincipalId host.toHost (some decidedBy)
      throwIf (consent.subjectOnly ∧ (decider = "" ∨
          decider ≠ normalizeApprovalPrincipalId host.toHost (some consent.subject)))
        ("[POLICY_VIOLATION] approval refused — request " ++ record.id ++
          " records the consent of '" ++ consent.subject ++
          "', which only that principal can give | next: have '" ++ consent.subject ++
          "' decide it from their own signed-in session (`pnpm kyberion approvals --approve " ++
          record.id ++ "`) | evidence: decided_by=" ++
          Js.orElse (some decidedBy) "(none)" ++ " consent_subject=" ++ consent.subject) (.ok ())

def enforceSeparationOfDutiesOnDecision (host : DecisionHost) (env : DecideEnv)
    (record : DecisionRecord) (params : DecideParams) : Except String Unit :=
  if env.policy.separationEnabled then
    match evaluateSeparationOfDuties host.toHost record.request (some params.decidedBy)
      params.deciderIdentitySource with
    | none => .ok ()
    | some violation =>
        .error ("[POLICY_VIOLATION] Separation of duties: approval refused because " ++
          separationOfDutiesMessage violation ++ " (request " ++ record.id ++
          "). The request stays pending: a different, server-identified principal must decide it.")
  else .ok ()

/-- The checks on an approval that is to seed the session cache. -/
def checkSessionCache (env : DecideEnv) (record : DecisionRecord) (params : DecideParams) :
    Except String Unit :=
  match params.decision, params.sessionCache with
  | .approved, some (action, targetClass) => do
      let _ ← validateHumanFinalDecision env.policy (some {}) params.proof none false
      throwIf (Js.isBlank action ∨ Js.isBlank targetClass)
        "[POLICY_VIOLATION] Session approval cache requires both action and targetClass" <|
      throwIf (!record.accountability.any fun accountability =>
          accountability.payloadHash.any (· ≠ "") && accountability.effectBinding.any (· ≠ ""))
        "[POLICY_VIOLATION] Session approval cache requires an exact human effect binding" <|
      .ok ()
  | _, _ => .ok ()

/-- Statuses of a decision that has been taken. -/
def terminalDecided : ApprovalStatus → Bool
  | .approved | .rejected | .applied | .failed => true
  | _ => false

def awaitsOtherRoles (record : DecisionRecord) : Bool :=
  record.workflow.any fun workflow => workflow.approvals.any fun approval =>
    approval.status = .pending

/-- The checks of a decision on the located record, down to the one on its expiry. -/
def checkDecidable (host : DecisionHost) (params : DecideParams) (record : DecisionRecord) :
    Except String Unit :=
  throwIf (params.expectedRecordHash.any (· ≠ host.recordHash record))
    "[POLICY_VIOLATION] Approval request changed since review" <|
  throwIf (record.status = .cancelled)
    ("[POLICY_VIOLATION] Approval request was cancelled and cannot be decided: " ++ record.id) <|
  throwIf (record.status = .expired)
    ("[POLICY_VIOLATION] Approval request has expired: " ++ record.id) <|
  throwIf (terminalDecided record.status ∧ !awaitsOtherRoles record)
    ("[POLICY_VIOLATION] Approval request " ++ record.id ++ " is already " ++
      record.status.text ++
      (match record.decidedBy.filter (· ≠ "") with
        | none => ""
        | some decidedBy => " (decided by " ++ decidedBy ++
            (match record.decidedAt.filter (· ≠ "") with
              | none => ""
              | some decidedAt => " at " ++ decidedAt) ++ ")") ++
      " and cannot be decided again.") <|
  .ok ()

/-- Whether the decision is the one that the role approval waits for. -/
def decidesRole (params : DecideParams) (approval : RoleApproval) : Bool :=
  match params.decidedByRole.filter (· ≠ "") with
  | some role => approval.role = role
  | none => approval.status = .pending

def decidedRole (params : DecideParams) (proof : DeciderProof) (decidedAt : String)
    (approval : RoleApproval) : RoleApproval :=
  if decidesRole params approval then
    { approval with
      status := params.decision.stage
      approvedBy := some params.decidedBy
      approvedAt := some decidedAt
      authMethod := params.proof.authMethod
      decidedByType := params.proof.decidedByType
      authenticated := params.proof.authenticated
      payloadHash := proof.payloadHash
      effectBinding := proof.effectBinding
      note := params.note
      reasonCategory := params.reasonCategory
      deciderIdentitySource := params.deciderIdentitySource.or approval.deciderIdentitySource }
  else approval

/-- The record with the decision on it; the workflow keeps its own table. -/
def decidedRecord (params : DecideParams) (proof : DeciderProof) (verified : Bool)
    (shortfall : Option ApprovalAssuranceShortfall) (decidedAt : String)
    (record : DecisionRecord) : DecisionRecord :=
  { record with
    status := params.decision.status
    decidedAt := some decidedAt
    decidedBy := some params.decidedBy
    decidedByDisplayName := params.decidedByDisplayName.filter (· ≠ "")
    decidedInAgentSession := params.decidedInAgentSession.filter (· ≠ "")
    decidedViaChallenge := params.decidedViaChallenge
    decidedByIdentitySource := params.deciderIdentitySource
    decidedByType := params.proof.decidedByType.or record.decidedByType
    authenticated := params.proof.authenticated.or record.authenticated
    decidedAuthMethod := params.proof.authMethod.or record.decidedAuthMethod
    verifiedPresentedDigest := if verified then params.presentedDigest else none
    assuranceShortfall := shortfall.or record.assuranceShortfall
    changeRequest :=
      match params.changeInstruction.map Js.trim with
      | some instruction =>
          if instruction = "" then record.changeRequest
          else some ⟨instruction, params.decidedBy, decidedAt⟩
      | none => if params.decision = .approved then none else record.changeRequest
    workflow := record.workflow.map fun workflow =>
      { workflow with approvals := workflow.approvals.map (decidedRole params proof decidedAt) } }

def checkChangeInstruction (params : DecideParams) : Except String Unit :=
  match params.changeInstruction with
  | none => .ok ()
  | some instruction =>
      throwIf (params.decision ≠ .rejected)
        "[POLICY_VIOLATION] A change instruction can only accompany a rejection" <|
      throwIf (Js.isBlank instruction ∨ 2000 < Js.utf16Length (Js.trim instruction))
        "[POLICY_VIOLATION] A change instruction must be 1-2000 characters" (.ok ())

/-- The proof of the decider, and the shortfall it leaves. -/
def checkDecision (host : DecisionHost) (env : DecideEnv) (params : DecideParams)
    (record : DecisionRecord) :
    Except String (DeciderProof × Bool × Option ApprovalAssuranceShortfall) := do
  refuseHumanOnlyDecisionByAgentProcess env record
  let (proof, verified) ← bindPresentedDecision host record params
  settlePasskeyDecisionProof env record params
  let storageChannel := Js.orElse params.storageChannel params.channel
  let shortfall ← validateHumanFinalDecision env.policy record.accountability proof
    (some (host.unicode.toLowerCase (Js.trim storageChannel))) false
  settleUnpresentedHumanDecision env record verified
  if params.decision = .approved then
    approvalConsentDecisionRefusal host record params.decidedBy
    enforceSeparationOfDutiesOnDecision host env record params
  checkSessionCache env record params
  .ok (proof, verified, shortfall)

abbrev DecideCall := Call (Option DecisionRecord) String

def decideApprovalRequestUnlocked (host : DecisionHost) (env : DecideEnv)
    (params : DecideParams) : DecideCall DecisionRecord := do
  .lift (checkChangeInstruction params)
  let located ← .read
  match located with
  | none => .fail ("Approval request not found: " ++ params.channel ++ "/" ++ params.requestId)
  | some record =>
      .lift (checkDecidable host params record)
      if record.status = .pending ∧
          isApprovalRequestExpired host.toHost record.request env.now then
        .write fun _ => some { record with status := .expired }
        .fail ("[POLICY_VIOLATION] Approval request has expired: " ++ record.id)
      else
        let (proof, verified, shortfall) ← .lift (checkDecision host env params record)
        let updated :=
          decidedRecord params proof verified shortfall (host.isoString env.now) record
        .write fun _ => some updated
        pure updated

/-- What a call leaves behind: the decision, an expired request, or nothing new. -/
theorem decide_cases {host : DecisionHost} {env : DecideEnv} {params : DecideParams}
    {record next : DecisionRecord}
    (h : ((decideApprovalRequestUnlocked host env params).run (some record)).1 = some next) :
    next = record ∨ next = { record with status := .expired } ∨
      ∃ proof verified shortfall,
        next = decidedRecord params proof verified shortfall (host.isoString env.now) record := by
  suffices hwp : (decideApprovalRequestUnlocked host env params).wp
      (fun _ located => ∃ next, located = some next ∧ (next = record ∨
        next = { record with status := .expired } ∨ ∃ proof verified shortfall,
          next = decidedRecord params proof verified shortfall (host.isoString env.now) record))
      (fun located => ∃ next, located = some next ∧ (next = record ∨
        next = { record with status := .expired } ∨ ∃ proof verified shortfall,
          next = decidedRecord params proof verified shortfall (host.isoString env.now) record))
      (some record) by
    obtain ⟨next', hnext, hcases⟩ := Call.wp_fst.mp hwp
    rw [h] at hnext
    exact Option.some.inj hnext ▸ hcases
  simp only [decideApprovalRequestUnlocked, Call.wp_bind, Call.wp_lift, Call.wp_read,
    Call.wp_ite, Call.wp_write, Call.wp_fail, Call.wp_pure]
  refine ⟨fun _ _ => ⟨fun _ _ => ⟨fun _ => ?_, fun _ => ⟨fun checked _ => ?_, fun _ _ => ?_⟩⟩,
    fun _ _ => ?_⟩, fun _ _ => ?_⟩
  · exact ⟨_, rfl, .inr (.inl rfl)⟩
  · exact ⟨_, rfl, .inr (.inr ⟨_, _, _, rfl⟩)⟩
  · exact ⟨_, rfl, .inl rfl⟩
  · exact ⟨_, rfl, .inl rfl⟩
  · exact ⟨_, rfl, .inl rfl⟩

end Kyberion.Approval
