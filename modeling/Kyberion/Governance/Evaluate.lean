import Kyberion.Governance.Charter
import Mathlib.Algebra.Order.Field.Rat

/-!
The decision on an action under a charter, rule by rule in the order they are asked.
-/

namespace Kyberion.Governance

open Js Audit Cascade

/-- What a rule says against an action. -/
inductive Refusal
  | deny (reasons : List String) (amendment : Option AmendmentProposal)
  | stop (reasons : List String)

def refuse (reason : String) : Refusal :=
  .deny [reason] none

def propose (reason field : String) (current requested : AmendmentValue) (why : String) : Refusal :=
  .deny [reason] (some ⟨field, current, requested, why⟩)

def CharterAction.money (action : CharterAction) : ℚ :=
  action.amount.getD 0

def CharterAction.loss (action : CharterAction) : ℚ :=
  action.estimatedLoss.getD 0

def isCharterActive (accountable : CharterAccountable) (now : ℤ) : Bool :=
  match accountable.acceptedAt, accountable.expiresAt with
  | some accepted, some expires => accepted ≤ now && now < expires
  | _, _ => false

section Standing

/-! Who acts, and whether the charter lets anyone act now. -/

def notActing (accountable : CharterAccountable) (action : CharterAction) (now : ℤ) :
    Option Refusal :=
  if !isCharterActive accountable now then some (refuse "charter_not_active")
  else if action.actor.kind = .human then
    some (refuse "actor_is_human: charter governs delegated (agent/service) actions only")
  else if (given action.actor.onBehalfOf).all
      (· ∉ accountable.actor :: accountable.deputies) then
    some (refuse ("actor_not_delegated: on_behalf_of '" ++ action.actor.onBehalfOf.getD "" ++
      "' is not the accountable human or a deputy"))
  else none

def tripwireHit (appetite : CharterAppetite) (usage : CharterUsage) : Option Refusal :=
  let hit := appetite.tripwires.filter (· ∈ usage.tripwiresHit)
  if hit ≠ [] then some (.stop (hit.map ("tripwire:" ++ ·))) else none

def isSafe (action : CharterAction) : Bool :=
  action.reversible && action.money = 0 && action.loss = 0 &&
    (externalEffectClass action.actionClass).isNone && action.externalOperation.isNone &&
    action.actionClass ≠ "target_scoped_external_operation"

def safeMode (availability : CharterAvailability) (action : CharterAction) : Option Refusal :=
  if !availability.accountableAvailable ∧ availability.availableDeputies = [] ∧
      !isSafe action then
    some (refuse ("safe_mode: no accountable human or deputy available; " ++
      "only reversible zero-cost internal actions"))
  else none

end Standing

section Envelope

variable (parseUrl : String → Option TargetUrl)

def operationCovered (envelope : CharterEnvelope) (raw : List (String × Json)) : Bool :=
  match parseExternalOperationGrant parseUrl raw with
  | none => false
  | some target => (envelope.externalOperations.getD []).any fun grant =>
      externalOperationGrantMatches parseUrl grant target.entries

def operationNotDelegated (envelope : CharterEnvelope) (action : CharterAction) :
    Option Refusal :=
  let targeted := action.actionClass = "target_scoped_external_operation"
  let refusal := refuse "external operation target not delegated"
  match action.externalOperation with
  | some raw => if targeted ∧ operationCovered parseUrl envelope raw then none else some refusal
  | none => if targeted then some refusal else none

/-- A policy on something that may be forbidden, allowed, or allowed after a review. -/
def policyRefusal (policy : ExternalEffectPolicy) (reviewed : Bool) (field forbidden why : String) :
    Option Refusal :=
  match policy with
  | .forbid => some (propose (field ++ forbidden) ("envelope." ++ field) (.text "forbid")
      (.text "allow") why)
  | .allowWithReview =>
      if reviewed then none else some (refuse (field ++ " requires cross-provider review first"))
  | .allow => none

def decisionNotDelegated (envelope : CharterEnvelope) (action : CharterAction) : Option Refusal :=
  (given action.decisionType).bind fun type =>
    policyRefusal (delegatedDecisionPolicy envelope type) action.reviewedByOtherProvider
      ("delegated_decisions." ++ type) " not delegated"
      "decision type not delegated by the accountable human"

def moneyRefusal (envelope : CharterEnvelope) (action : CharterAction) (usage : CharterUsage) :
    Option Refusal :=
  let money := action.money
  let limits := envelope.money
  if money ≤ 0 then none
  else if (given action.currency).any (· ≠ limits.currency) then
    some (refuse ("currency_mismatch: envelope is " ++ limits.currency))
  else if limits.perAction < money then
    some (propose "money.per_action exceeded" "envelope.money.per_action"
      (.number limits.perAction) (.number money) "single action above per-action limit")
  else if limits.perDay < usage.spentToday + money then
    some (propose "money.per_day exceeded" "envelope.money.per_day" (.number limits.perDay)
      (.number (usage.spentToday + money)) "daily budget would be exceeded")
  else if limits.perMonth < usage.spentThisMonth + money then
    some (propose "money.per_month exceeded" "envelope.money.per_month" (.number limits.perMonth)
      (.number (usage.spentThisMonth + money)) "monthly budget would be exceeded")
  else if effectPolicy envelope .payment = .forbid then
    some (refuse "external_effects.payment forbidden")
  else none

def effectNotDelegated (envelope : CharterEnvelope) (action : CharterAction) : Option Refusal :=
  (externalEffectClass action.actionClass).bind fun cls =>
    policyRefusal (effectPolicy envelope cls) action.reviewedByOtherProvider
      ("external_effects." ++ cls.name) " forbidden"
      "action class not delegated by the accountable human"

def dataNotDelegated (envelope : CharterEnvelope) (action : CharterAction) : Option Refusal :=
  action.data.bind fun data =>
    let token := dataScopeToken data.tier data.tenantSlug
    if token ∉ envelope.dataTier data.mode then
      some (propose ("data_tier." ++ data.mode.name ++ " '" ++ token ++ "' not delegated")
        ("envelope.data_tier." ++ data.mode.name) (.texts (envelope.dataTier data.mode))
        (.text token) "data scope not delegated by the accountable human")
    else none

def informationFlowRefusal (envelope : CharterEnvelope) (action : CharterAction) :
    Option Refusal :=
  if envelope.informationFlow.isNone then none
  else match action.informationFlow with
    | some facts =>
        if isInformationBoundActionClass action.actionClass ∧ (given facts.processorId).isSome then
          some (refuse "external recipient actions require recipient facts, not processor facts")
        else
          let violations := evaluateInformationFlow envelope facts
          if violations ≠ [] then some (.deny violations none) else none
    | none =>
        if isInformationBoundActionClass action.actionClass then
          some (refuse "information_flow facts are required for external recipient actions")
        else none

def irreversibleRefusal (envelope : CharterEnvelope) (action : CharterAction) : Option Refusal :=
  if action.reversible then none
  else match envelope.irreversible with
    | .forbid => some (propose "irreversible actions forbidden" "envelope.irreversible"
        (.text "forbid") (.text "named_actions_only") "no reversible path was offered")
    | .namedActionsOnly =>
        if (given action.irreversibleActionName).any
            (· ∈ envelope.irreversibleNamedActions.getD []) then none
        else some (propose "irreversible action is not on the named list"
          "envelope.irreversible_named_actions"
          (.texts (envelope.irreversibleNamedActions.getD []))
          (.text (action.irreversibleActionName.getD action.actionClass))
          "irreversible action not pre-named by the accountable human")
    | .allow => none

end Envelope

def appetiteExceeded (appetite : CharterAppetite) (action : CharterAction) : Option Refusal :=
  let radius := action.blastRadius.getD {}
  if appetite.maxLossPerIncident < action.loss then
    some (propose "appetite.max_loss_per_incident exceeded" "appetite.max_loss_per_incident"
      (.number appetite.maxLossPerIncident) (.number action.loss)
      "estimated loss above declared tolerance")
  else match action.reputationalClass.filter
      fun cls => appetite.reputationalClassMax.rank < cls.rank with
    | some cls => some (propose "appetite.reputational_class_max exceeded"
        "appetite.reputational_class_max" (.reputation appetite.reputationalClassMax)
        (.reputation cls) "reputational exposure above declared tolerance")
    | none =>
        if appetite.blastRadiusMaxRecipients < radius.recipients.getD 0 ∨
            appetite.blastRadiusMaxSystems < radius.systems.getD 0 then
          some (propose "appetite.blast_radius_max exceeded" "appetite.blast_radius_max"
            (.blastRadius (some ⟨some appetite.blastRadiusMaxRecipients,
              some appetite.blastRadiusMaxSystems⟩))
            (.blastRadius action.blastRadius) "blast radius above declared tolerance")
        else none

section Evaluate

variable (parseUrl : String → Option TargetUrl)

/-- `spent / limit >= NEAR_LIMIT_RATIO`, where a limit of zero divides to an infinity or `NaN` -/
def isNearLimit (spent limit : ℚ) : Bool :=
  if limit = 0 then 0 < spent else 8 / 10 ≤ spent / limit

def nearLimit (envelope : CharterEnvelope) (action : CharterAction) (usage : CharterUsage) :
    Bool :=
  0 < action.money &&
    (isNearLimit (usage.spentToday + action.money) envelope.money.perDay ||
      isNearLimit (usage.spentThisMonth + action.money) envelope.money.perMonth)

def charterRules (charter : Charter) (action : CharterAction) (usage : CharterUsage)
    (availability : CharterAvailability) (now : ℤ) : List (Option Refusal) :=
  [notActing charter.accountable action now,
    tripwireHit charter.appetite usage,
    safeMode availability action,
    operationNotDelegated parseUrl charter.envelope action,
    decisionNotDelegated charter.envelope action,
    moneyRefusal charter.envelope action usage,
    effectNotDelegated charter.envelope action,
    dataNotDelegated charter.envelope action,
    informationFlowRefusal charter.envelope action,
    irreversibleRefusal charter.envelope action,
    appetiteExceeded charter.appetite action]

def Charter.refused (charter : Charter) : Refusal → CharterDecision
  | .deny reasons amendment =>
      { decision := .deny, reasons, amendment
        responsible := charter.accountable.actor, charterId := charter.charterId }
  | .stop reasons =>
      { decision := .stop, reasons
        responsible := charter.accountable.actor, charterId := charter.charterId }

def Charter.within (charter : Charter) (action : CharterAction) (usage : CharterUsage) :
    CharterDecision :=
  let near := nearLimit charter.envelope action usage
  { decision := if near then .allowNotify else .allow
    reasons := "within_charter" :: if near then ["budget_near_limit"] else []
    preferReversible := !action.reversible
    consumedMoney := action.money
    consumedLoss := action.loss
    responsible := charter.accountable.actor
    charterId := charter.charterId }

def evaluateAgainstCharter (charter : Charter) (action : CharterAction) (usage : CharterUsage)
    (availability : CharterAvailability) (now : ℤ) : CharterDecision :=
  firstOr ((charterRules parseUrl charter action usage availability now).map
    (Option.map charter.refused)) (charter.within action usage)

def CharterDecision.Allows (d : CharterDecision) : Prop :=
  d.decision = .allow ∨ d.decision = .allowNotify

instance (d : CharterDecision) : Decidable d.Allows :=
  inferInstanceAs (Decidable (_ ∨ _))

theorem evaluateAgainstCharter_allows_iff (charter : Charter) (action : CharterAction)
    (usage : CharterUsage) (availability : CharterAvailability) (now : ℤ) :
    (evaluateAgainstCharter parseUrl charter action usage availability now).Allows ↔
      ∀ rule ∈ charterRules parseUrl charter action usage availability now, rule = none := by
  have hlast : (charter.within action usage).Allows := by
    unfold CharterDecision.Allows Charter.within
    cases nearLimit charter.envelope action usage <;> simp
  have hrules : ∀ d, some d ∈ (charterRules parseUrl charter action usage availability now).map
      (Option.map charter.refused) → ¬ d.Allows := by
    intro d hd hallows
    obtain ⟨rule, -, heq⟩ := List.mem_map.mp hd
    obtain ⟨refusal, -, rfl⟩ := Option.map_eq_some_iff.mp heq
    cases refusal <;> simp [Charter.refused, CharterDecision.Allows] at hallows
  rw [evaluateAgainstCharter, firstOr_iff hlast hrules]
  simp

end Evaluate

end Kyberion.Governance
