import Kyberion.Approval.Record
import Kyberion.Js.Throw

/-!
How strongly the decider of a human-only request must be proven. Every way to
authenticate provides a fixed level; a decision below the level that the request
needs is let through with a shortfall, or refused once the mode is `enforce`.
-/

namespace Kyberion.Approval

open Js (throwIf)

inductive ApprovalAssuranceLevel
  | a0 | a1 | a2 | a3
  deriving DecidableEq, Repr

def ApprovalAssuranceLevel.index : ApprovalAssuranceLevel → ℕ
  | .a0 => 0
  | .a1 => 1
  | .a2 => 2
  | .a3 => 3

def ApprovalAssuranceLevel.text : ApprovalAssuranceLevel → String
  | .a0 => "A0"
  | .a1 => "A1"
  | .a2 => "A2"
  | .a3 => "A3"

inductive ApprovalAuthMethod
  | surfaceSession | channelIdentity | terminalAttested | totp | passkey | manual | localToken
  | localAdminToken
  deriving DecidableEq, Repr

def ApprovalAuthMethod.text : ApprovalAuthMethod → String
  | .surfaceSession => "surface_session"
  | .channelIdentity => "channel_identity"
  | .terminalAttested => "terminal_attested"
  | .totp => "totp"
  | .passkey => "passkey"
  | .manual => "manual"
  | .localToken => "local_token"
  | .localAdminToken => "local_admin_token"

def assuranceOfAuthMethod : ApprovalAuthMethod → ApprovalAssuranceLevel
  | .localToken => .a0
  | .localAdminToken | .manual | .channelIdentity => .a1
  | .surfaceSession | .terminalAttested | .totp => .a2
  | .passkey => .a3

/-- Methods that prove that one holds a local credential, not who one is. -/
def nonHumanProof : ApprovalAuthMethod → Bool
  | .localToken | .localAdminToken => true
  | _ => false

def assuranceMeets (provided required : ApprovalAssuranceLevel) : Bool :=
  required.index ≤ provided.index

def strongerAssurance (left right : ApprovalAssuranceLevel) : ApprovalAssuranceLevel :=
  if assuranceMeets left right then left else right

def approvalChannelMinAssurance (channel : String) : Option ApprovalAssuranceLevel :=
  if channel = "project-trust" then some .a3 else none

inductive ApprovalAssuranceMode
  | warn | enforce
  deriving DecidableEq, Repr

inductive DeciderType
  | human | aiAgent | service
  deriving DecidableEq, Repr

/-- The accountability of a request; the only final decision that it can name is `human_only`. -/
structure ApprovalAccountability where
  minAssurance : Option ApprovalAssuranceLevel := none
  policyRuleId : Option String := none
  payloadHash : Option String := none
  effectBinding : Option String := none
  consent : Option ApprovalConsent := none
  deriving DecidableEq, Repr

structure ApprovalAssuranceShortfall where
  required : ApprovalAssuranceLevel
  provided : ApprovalAssuranceLevel
  authMethod : ApprovalAuthMethod
  mode : ApprovalAssuranceMode
  deriving DecidableEq, Repr

/-- What the approval policy says today: the rollout mode, the level that it asks of a rule or an
effect, and whether separation of duties is on. -/
structure ApprovalPolicy where
  mode : ApprovalAssuranceMode
  floor : Option String → Option String → Option ApprovalAssuranceLevel
  separationEnabled : Bool

/-- How a decider is proven, and what the decision is bound to. -/
structure DeciderProof where
  decidedByType : Option DeciderType := none
  authenticated : Option Bool := none
  authMethod : Option ApprovalAuthMethod := none
  payloadHash : Option String := none
  effectBinding : Option String := none
  deriving DecidableEq, Repr

def isTenantActivation (accountability : ApprovalAccountability) : Bool :=
  accountability.effectBinding.any fun binding =>
    "tenant-activation:".toList.isPrefixOf binding.toList

def requiredDecisionAssurance (policy : ApprovalPolicy) (accountability : ApprovalAccountability)
    (channel : Option String) : ApprovalAssuranceLevel :=
  let required := accountability.minAssurance.getD .a2
  let raised := match (channel.filter (· ≠ "")).bind approvalChannelMinAssurance with
    | some floor => strongerAssurance required floor
    | none => required
  match policy.floor accountability.policyRuleId accountability.effectBinding with
  | some floor => strongerAssurance raised floor
  | none => raised

/-- The shortfall of a decision's assurance, when the mode lets it through. -/
def assuranceShortfall (policy : ApprovalPolicy) (accountability : ApprovalAccountability)
    (authMethod : Option ApprovalAuthMethod) (channel : Option String) :
    Except String (Option ApprovalAssuranceShortfall) :=
  match authMethod with
  | none => .error "[POLICY_VIOLATION] Final approval requires a recognised authMethod (got none)"
  | some authMethod =>
      let provided := assuranceOfAuthMethod authMethod
      let strict := isTenantActivation accountability
      let floor := requiredDecisionAssurance policy accountability channel
      let required := if strict then strongerAssurance floor .a2 else floor
      let mode := if strict then .enforce else policy.mode
      if assuranceMeets provided required then .ok none
      else
        throwIf (mode = .enforce)
          ("[POLICY_VIOLATION] Final approval requires assurance " ++ required.text ++ "; " ++
            authMethod.text ++ " provides " ++ provided.text ++
            if required = .a3 then " | next: approve it with a passkey on the Concierge approval " ++
              "card (register one under Settings › Profile › Passkeys)" else "") <|
        .ok (some ⟨required, provided, authMethod, mode⟩)

/-- The human-only contract; `recheck` is a consumer's second look at a decided record. -/
def validateHumanFinalDecision (policy : ApprovalPolicy)
    (accountability : Option ApprovalAccountability) (proof : DeciderProof)
    (channel : Option String) (recheck : Bool) :
    Except String (Option ApprovalAssuranceShortfall) :=
  match accountability with
  | none => .ok none
  | some accountability =>
      throwIf (proof.decidedByType ≠ some .human)
        "[POLICY_VIOLATION] Final approval requires a human decider" <|
      throwIf (proof.authenticated ≠ some true)
        "[POLICY_VIOLATION] Final approval requires an authenticated human decider" <|
      throwIf (proof.authMethod.any nonHumanProof)
        ("[POLICY_VIOLATION] Final approval requires a human-authenticated surface; " ++
          Js.orElse (proof.authMethod.map (·.text)) "" ++ " is not sufficient") <|
      (if !recheck || isTenantActivation accountability then
        assuranceShortfall policy accountability proof.authMethod channel
      else .ok none) >>= fun shortfall =>
      throwIf ((accountability.payloadHash.any (· ≠ "")) ∧
          proof.payloadHash ≠ accountability.payloadHash)
        "[POLICY_VIOLATION] Approval payload hash does not match the requested effect" <|
      throwIf ((accountability.effectBinding.any (· ≠ "")) ∧
          proof.effectBinding ≠ accountability.effectBinding)
        "[POLICY_VIOLATION] Approval effect binding does not match the requested operation" <|
      .ok shortfall

end Kyberion.Approval
