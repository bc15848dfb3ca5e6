import Kyberion.Audit.Entry
import Kyberion.Cascade
import Kyberion.Governance.ExternalOperation
import Mathlib.Data.Rat.Defs
import Mathlib.Algebra.Order.Ring.Unbundled.Rat

/-!
An accountability charter: the envelope a human delegates, when one envelope exceeds another, and
the decision on an action under it. Amounts are rationals, and an instant is what `Date.parse`
reads from its text, `none` for `NaN`.
-/

namespace Kyberion.Governance

open Js Audit Cascade

section Data

inductive ExternalEffectPolicy
  | forbid | allowWithReview | allow
  deriving DecidableEq

inductive IrreversiblePolicy
  | forbid | namedActionsOnly | allow
  deriving DecidableEq

inductive DataTier
  | publicTier | confidential | personal
  deriving DecidableEq

inductive DataMode
  | read | write
  deriving DecidableEq

inductive ReputationalClass
  | A | B | C | D
  deriving DecidableEq

inductive InformationCategory
  | routineBusiness | personalData | sensitiveBusiness | unknown
  deriving DecidableEq

inductive RecipientClass
  | boundCustomer | knownCounterparty | approvedVendor | publicRecipient | unknown
  deriving DecidableEq

inductive ExternalEffectClass
  | sendMessageExternal | publishPublic | signContract | payment | credentialChange
  deriving DecidableEq

def DataMode.name : DataMode → String
  | .read => "read"
  | .write => "write"

def InformationCategory.name : InformationCategory → String
  | .routineBusiness => "routine_business"
  | .personalData => "personal_data"
  | .sensitiveBusiness => "sensitive_business"
  | .unknown => "unknown"

def RecipientClass.name : RecipientClass → String
  | .boundCustomer => "bound_customer"
  | .knownCounterparty => "known_counterparty"
  | .approvedVendor => "approved_vendor"
  | .publicRecipient => "public"
  | .unknown => "unknown"

def ExternalEffectClass.name : ExternalEffectClass → String
  | .sendMessageExternal => "send_message_external"
  | .publishPublic => "publish_public"
  | .signContract => "sign_contract"
  | .payment => "payment"
  | .credentialChange => "credential_change"

def EXTERNAL_EFFECT_CLASSES : List ExternalEffectClass :=
  [.sendMessageExternal, .publishPublic, .signContract, .payment, .credentialChange]

def externalEffectClass (actionClass : String) : Option ExternalEffectClass :=
  EXTERNAL_EFFECT_CLASSES.find? fun cls => cls.name = actionClass

structure InformationFlowFacts where
  purpose : String
  recipientClass : Option RecipientClass := none
  processorId : Option String := none
  categories : List InformationCategory
  attachmentCount : ℚ

structure InformationFlowEnvelope where
  purposes : List String
  recipientClasses : List RecipientClass
  categories : List InformationCategory
  maxAttachments : ℚ
  processorIds : Option (List String) := none
  processingPurposes : Option (List String) := none
  processingCategories : Option (List InformationCategory) := none

structure MoneyLimits where
  currency : String
  perAction : ℚ
  perDay : ℚ
  perMonth : ℚ

structure CharterEnvelope where
  externalOperations : Option (List (List (String × Json))) := none
  money : MoneyLimits
  dataTier : DataMode → List String
  externalEffects : List (ExternalEffectClass × ExternalEffectPolicy)
  irreversible : IrreversiblePolicy
  irreversibleNamedActions : Option (List String) := none
  supersedesDecisionRights : Option Bool := none
  delegatedDecisions : Option (List (String × ExternalEffectPolicy)) := none
  informationFlow : Option InformationFlowEnvelope := none

structure BlastRadius where
  recipients : Option ℚ := none
  systems : Option ℚ := none

structure CharterAppetite where
  maxLossPerIncident : ℚ
  reputationalClassMax : ReputationalClass
  blastRadiusMaxRecipients : ℚ
  blastRadiusMaxSystems : ℚ
  tripwires : List String

structure CharterAccountable where
  actor : String
  acceptedAt : Option ℤ
  expiresAt : Option ℤ
  deputies : List String

structure Charter where
  charterId : String
  accountable : CharterAccountable
  envelope : CharterEnvelope
  appetite : CharterAppetite

structure CharterUsage where
  spentToday : ℚ
  spentThisMonth : ℚ
  tripwiresHit : List String

structure CharterActionData where
  tier : DataTier
  tenantSlug : Option String := none
  mode : DataMode

structure CharterAction where
  externalOperation : Option (List (String × Json)) := none
  actor : ActorRef
  actionClass : String
  decisionType : Option String := none
  amount : Option ℚ := none
  currency : Option String := none
  data : Option CharterActionData := none
  reversible : Bool
  irreversibleActionName : Option String := none
  estimatedLoss : Option ℚ := none
  reputationalClass : Option ReputationalClass := none
  blastRadius : Option BlastRadius := none
  reviewedByOtherProvider : Bool := false
  informationFlow : Option InformationFlowFacts := none

structure CharterAvailability where
  accountableAvailable : Bool
  availableDeputies : List String

inductive CharterDecisionKind
  | allow | allowNotify | deny | stop
  deriving DecidableEq

/-- The values an amendment compares. -/
inductive AmendmentValue
  | text (value : String)
  | texts (values : List String)
  | number (value : ℚ)
  | reputation (value : ReputationalClass)
  | blastRadius (value : Option BlastRadius)

structure AmendmentProposal where
  field : String
  current : AmendmentValue
  requested : AmendmentValue
  reason : String

structure CharterDecision where
  decision : CharterDecisionKind
  reasons : List String
  amendment : Option AmendmentProposal := none
  preferReversible : Bool := false
  consumedMoney : ℚ := 0
  consumedLoss : ℚ := 0
  responsible : String
  charterId : String

end Data

section Ordering

def ExternalEffectPolicy.rank : ExternalEffectPolicy → ℕ
  | .forbid => 0
  | .allowWithReview => 1
  | .allow => 2

def IrreversiblePolicy.rank : IrreversiblePolicy → ℕ
  | .forbid => 0
  | .namedActionsOnly => 1
  | .allow => 2

def ReputationalClass.rank : ReputationalClass → ℕ
  | .A => 0
  | .B => 1
  | .C => 2
  | .D => 3

def effectPolicy (env : CharterEnvelope) (cls : ExternalEffectClass) : ExternalEffectPolicy :=
  (env.externalEffects.lookup cls).getD .forbid

def delegatedDecisionPolicy (env : CharterEnvelope) (decisionType : String) :
    ExternalEffectPolicy :=
  ((env.delegatedDecisions.getD []).lookup decisionType).getD .forbid

def dataScopeToken (tier : DataTier) (tenant : Option String) : String :=
  match tier with
  | .confidential => "confidential:" ++ tenant.getD ""
  | .publicTier => "public"
  | .personal => "personal"

/-- A field that is there and not the empty text. -/
def given (text : Option String) : Option String :=
  text.filter (· ≠ "")

end Ordering

section Exceeds

variable (parseUrl : String → Option TargetUrl) (numberText : ℚ → String)

def moneyExceeds (child parent : MoneyLimits) : List String :=
  (if child.currency ≠ parent.currency then ["money.currency differs from the parent envelope"]
    else []) ++
  [("per_action", child.perAction, parent.perAction), ("per_day", child.perDay, parent.perDay),
    ("per_month", child.perMonth, parent.perMonth)].filterMap fun (key, limit, parentLimit) =>
      if parentLimit < limit then
        some ("money." ++ key ++ " (" ++ numberText limit ++ ") exceeds parent (" ++
          numberText parentLimit ++ ")")
      else none

def dataTierExceeds (child parent : CharterEnvelope) : List String :=
  [DataMode.read, .write].flatMap fun mode =>
    ((child.dataTier mode).filter (· ∉ parent.dataTier mode)).map fun token =>
      "data_tier." ++ mode.name ++ " '" ++ token ++ "' is not granted by the parent envelope"

def externalEffectsExceed (child parent : CharterEnvelope) : List String :=
  let classes := (child.externalEffects.map (·.1) ++ parent.externalEffects.map (·.1)).eraseDups
  (classes.filter fun cls => (effectPolicy parent cls).rank < (effectPolicy child cls).rank).map
    fun cls => "external_effects." ++ cls.name ++ " is more permissive than the parent envelope"

def delegatedDecisionsExceed (child parent : CharterEnvelope) : List String :=
  let decisionTypes := ((child.delegatedDecisions.getD []).map (·.1) ++
    (parent.delegatedDecisions.getD []).map (·.1)).eraseDups
  (decisionTypes.filter fun type =>
      (delegatedDecisionPolicy parent type).rank < (delegatedDecisionPolicy child type).rank).map
    fun type => "delegated_decisions." ++ type ++ " is more permissive than the parent envelope"

def externalOperationsExceed (child parent : CharterEnvelope) : List String :=
  ((child.externalOperations.getD []).filter fun grant =>
      !((parent.externalOperations.getD []).any fun value =>
        externalOperationGrantMatches parseUrl value grant)).map
    fun _ => "external_operations exceeds parent targets"

/-- The values of one field of the child's flow that the parent's does not list. -/
def flowValuesExceed {α : Type} [DecidableEq α] (name : α → String) (key : String)
    (child parent : List α) : List String :=
  (child.filter (· ∉ parent)).map fun value =>
    "information_flow." ++ key ++ " '" ++ name value ++ "' is not granted by the parent envelope"

/-- A restriction that the parent may have set and the child may have left out. -/
def flowRestrictionExceeds {α : Type} [DecidableEq α] (name : α → String) (key : String)
    (child parent : Option (List α)) : List String :=
  (if parent.isSome ∧ child = none then ["information_flow." ++ key ++ " omits a parent restriction"]
    else []) ++ flowValuesExceed name key (child.getD []) (parent.getD [])

def informationFlowExceeds (child parent : CharterEnvelope) : List String :=
  match child.informationFlow, parent.informationFlow with
  | some _, none => ["information_flow is not granted by the parent envelope"]
  | some c, some p =>
      flowValuesExceed id "purposes" c.purposes p.purposes ++
      flowValuesExceed RecipientClass.name "recipient_classes" c.recipientClasses
        p.recipientClasses ++
      flowValuesExceed InformationCategory.name "categories" c.categories p.categories ++
      (if p.maxAttachments < c.maxAttachments then
        ["information_flow.max_attachments exceeds parent envelope"] else []) ++
      flowRestrictionExceeds id "processor_ids" c.processorIds p.processorIds ++
      flowRestrictionExceeds id "processing_purposes" c.processingPurposes p.processingPurposes ++
      flowRestrictionExceeds InformationCategory.name "processing_categories"
        c.processingCategories p.processingCategories
  | none, some _ => ["information_flow is omitted but restricted by the parent envelope"]
  | none, none => []

/-- The fields where `child` is more permissive than `parent`. -/
def envelopeExceeds (child parent : CharterEnvelope) : List String :=
  moneyExceeds numberText child.money parent.money ++
  dataTierExceeds child parent ++
  externalEffectsExceed child parent ++
  (if parent.irreversible.rank < child.irreversible.rank then
    ["irreversible is more permissive than the parent envelope"] else []) ++
  (if child.supersedesDecisionRights = some true ∧ parent.supersedesDecisionRights ≠ some true then
    ["supersedes_decision_rights is not granted by the parent envelope"] else []) ++
  delegatedDecisionsExceed child parent ++
  externalOperationsExceed parseUrl child parent ++
  informationFlowExceeds child parent

end Exceeds

section InformationFlow

def processorFlow (grant : InformationFlowEnvelope) (facts : InformationFlowFacts)
    (processor : String) : List String :=
  if processor ∉ grant.processorIds.getD [] then
    ["information_flow processor '" ++ processor ++ "' not delegated"]
  else if facts.purpose ∉ grant.processingPurposes.getD [] then
    ["information_flow processing purpose '" ++ facts.purpose ++ "' not delegated"]
  else
    let excluded := facts.categories.filter (· ∉ grant.processingCategories.getD [])
    if excluded ≠ [] then
      ["information_flow processing categories not delegated: " ++
        ",".intercalate (excluded.map InformationCategory.name)]
    else []

def recipientFlow (grant : InformationFlowEnvelope) (facts : InformationFlowFacts) :
    List String :=
  match facts.recipientClass with
  | none => ["information_flow purpose '" ++ facts.purpose ++ "' not delegated"]
  | some recipient =>
      if facts.purpose ∉ grant.purposes then
        ["information_flow purpose '" ++ facts.purpose ++ "' not delegated"]
      else if recipient ∉ grant.recipientClasses then
        ["information_flow recipient '" ++ recipient.name ++ "' not delegated"]
      else if grant.maxAttachments < facts.attachmentCount then
        ["information_flow attachment limit exceeded"]
      else
        let excluded := facts.categories.filter (· ∉ grant.categories)
        if excluded ≠ [] then
          ["information_flow categories not delegated: " ++
            ",".intercalate (excluded.map InformationCategory.name)]
        else []

def evaluateInformationFlow (envelope : CharterEnvelope) (facts : InformationFlowFacts) :
    List String :=
  match envelope.informationFlow with
  | none => ["information_flow not delegated"]
  | some grant =>
      if trim facts.purpose = "" ∨ facts.categories = [] ∨ facts.attachmentCount.den ≠ 1 ∨
          facts.attachmentCount < 0 then
        ["information_flow facts are incomplete or invalid"]
      else match given facts.processorId with
        | some processor =>
            if facts.recipientClass.isSome then
              ["information_flow facts cannot mix a processor and an external recipient"]
            else processorFlow grant facts processor
        | none => recipientFlow grant facts

def isInformationBoundActionClass (actionClass : String) : Bool :=
  actionClass = "send_message_external" || actionClass = "publish_public"

end InformationFlow

end Kyberion.Governance
