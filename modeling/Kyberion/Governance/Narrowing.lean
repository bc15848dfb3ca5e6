import Kyberion.Governance.Evaluate

/-!
What an empty `envelopeExceeds` says about two envelopes, and what it leaves out: the actions a
child envelope names as irreversible are never compared with those its parent names.
-/

namespace Kyberion.Governance

open Js Audit Cascade

section Within

variable (parseUrl : String → Option TargetUrl)

/-- A value of a restriction the child sets is one the parent's restriction lists. -/
def Narrows {α : Type} (child parent : Option (List α)) : Prop :=
  ∀ value ∈ child.getD [], value ∈ parent.getD []

structure FlowWithin (child parent : InformationFlowEnvelope) : Prop where
  purposes : ∀ value ∈ child.purposes, value ∈ parent.purposes
  recipientClasses : ∀ value ∈ child.recipientClasses, value ∈ parent.recipientClasses
  categories : ∀ value ∈ child.categories, value ∈ parent.categories
  maxAttachments : child.maxAttachments ≤ parent.maxAttachments
  processorIds : Narrows child.processorIds parent.processorIds
  processingPurposes : Narrows child.processingPurposes parent.processingPurposes
  processingCategories : Narrows child.processingCategories parent.processingCategories

/-- Every field of the child that is compared lies within the parent's. -/
structure Within (child parent : CharterEnvelope) : Prop where
  currency : child.money.currency = parent.money.currency
  perAction : child.money.perAction ≤ parent.money.perAction
  perDay : child.money.perDay ≤ parent.money.perDay
  perMonth : child.money.perMonth ≤ parent.money.perMonth
  dataTier : ∀ mode, ∀ token ∈ child.dataTier mode, token ∈ parent.dataTier mode
  effects : ∀ cls, (effectPolicy child cls).rank ≤ (effectPolicy parent cls).rank
  irreversible : child.irreversible.rank ≤ parent.irreversible.rank
  decisions : ∀ type,
    (delegatedDecisionPolicy child type).rank ≤ (delegatedDecisionPolicy parent type).rank
  operations : ∀ grant ∈ child.externalOperations.getD [],
    ∃ value ∈ parent.externalOperations.getD [],
      externalOperationGrantMatches parseUrl value grant = true
  noFlow : child.informationFlow = none → parent.informationFlow = none
  flow : ∀ c, child.informationFlow = some c →
    ∃ p, parent.informationFlow = some p ∧ FlowWithin c p

theorem lookup_eq_none_of_notMem {κ ν : Type} [DecidableEq κ] {table : List (κ × ν)} {key : κ}
    (h : key ∉ table.map (·.1)) : table.lookup key = none := by
  rw [List.lookup_eq_none_iff]
  intro entry hentry
  rw [bne_iff_ne]
  rintro rfl
  exact h (List.mem_map_of_mem hentry)

/-- Ranks compared on the keys of two tables are compared on every key, as an absent key is
`forbid` in both. -/
theorem rank_le_of_keys {κ : Type} [DecidableEq κ]
    {child parent : List (κ × ExternalEffectPolicy)}
    (h : ((child.map (·.1) ++ parent.map (·.1)).eraseDups.filter fun key =>
      ((parent.lookup key).getD .forbid).rank < ((child.lookup key).getD .forbid).rank) = [])
    (key : κ) :
    ((child.lookup key).getD .forbid).rank ≤ ((parent.lookup key).getD .forbid).rank := by
  by_cases hkey : key ∈ child.map (·.1) ++ parent.map (·.1)
  · have hmem := List.mem_eraseDups.mpr hkey
    simpa using List.filter_eq_nil_iff.mp h key hmem
  · rw [List.mem_append, not_or] at hkey
    rw [lookup_eq_none_of_notMem hkey.1, lookup_eq_none_of_notMem hkey.2]

theorem flowValuesExceed_eq_nil {α : Type} [DecidableEq α] {name : α → String} {key : String}
    {child parent : List α} (h : flowValuesExceed name key child parent = []) :
    ∀ value ∈ child, value ∈ parent := by
  intro value hvalue
  rw [flowValuesExceed, List.map_eq_nil_iff] at h
  simpa using List.filter_eq_nil_iff.mp h value hvalue

theorem flowRestrictionExceeds_eq_nil {α : Type} [DecidableEq α] {name : α → String}
    {key : String} {child parent : Option (List α)}
    (h : flowRestrictionExceeds name key child parent = []) : Narrows child parent :=
  flowValuesExceed_eq_nil (List.append_eq_nil_iff.mp h).2

theorem flowWithin_of_exceeds {child parent : CharterEnvelope} {c : InformationFlowEnvelope}
    (hc : child.informationFlow = some c) (h : informationFlowExceeds child parent = []) :
    ∃ p, parent.informationFlow = some p ∧ FlowWithin c p := by
  cases hp : parent.informationFlow with
  | none => simp [informationFlowExceeds, hc, hp] at h
  | some p =>
      simp only [informationFlowExceeds, hc, hp, List.append_eq_nil_iff, ite_eq_right_iff,
        List.cons_ne_self, imp_false, not_lt] at h
      obtain ⟨⟨⟨⟨⟨⟨h1, h2⟩, h3⟩, h4⟩, h5⟩, h6⟩, h7⟩ := h
      exact ⟨p, rfl, flowValuesExceed_eq_nil h1, flowValuesExceed_eq_nil h2,
        flowValuesExceed_eq_nil h3, h4, flowRestrictionExceeds_eq_nil h5,
        flowRestrictionExceeds_eq_nil h6, flowRestrictionExceeds_eq_nil h7⟩

theorem dataTier_of_exceeds {child parent : CharterEnvelope}
    (h : dataTierExceeds child parent = []) (mode : DataMode) :
    ∀ token ∈ child.dataTier mode, token ∈ parent.dataTier mode := by
  intro token htoken
  have hmode : mode ∈ [DataMode.read, .write] := by cases mode <;> simp
  have hnil := List.flatMap_eq_nil_iff.mp h mode hmode
  rw [List.map_eq_nil_iff] at hnil
  simpa using List.filter_eq_nil_iff.mp hnil token htoken

theorem within_of_exceeds {numberText : ℚ → String} {child parent : CharterEnvelope}
    (h : envelopeExceeds parseUrl numberText child parent = []) :
    Within parseUrl child parent := by
  simp only [envelopeExceeds, List.append_eq_nil_iff] at h
  obtain ⟨⟨⟨⟨⟨⟨⟨hmoney, htier⟩, heffects⟩, hirreversible⟩, -⟩, hdecisions⟩, hoperations⟩, hflow⟩ := h
  simp only [moneyExceeds, List.append_eq_nil_iff, List.filterMap_eq_nil_iff, List.mem_cons,
    List.not_mem_nil, or_false, forall_eq_or_imp, forall_eq, ite_eq_right_iff, reduceCtorEq,
    imp_false, not_lt, not_not, List.cons_ne_self] at hmoney
  simp only [ite_eq_right_iff, reduceCtorEq, imp_false, not_lt] at hirreversible
  rw [externalEffectsExceed, List.map_eq_nil_iff] at heffects
  rw [delegatedDecisionsExceed, List.map_eq_nil_iff] at hdecisions
  rw [externalOperationsExceed, List.map_eq_nil_iff] at hoperations
  exact
    { currency := hmoney.1
      perAction := hmoney.2.1
      perDay := hmoney.2.2.1
      perMonth := hmoney.2.2.2
      dataTier := dataTier_of_exceeds htier
      effects := rank_le_of_keys heffects
      irreversible := hirreversible
      decisions := rank_le_of_keys hdecisions
      operations := fun grant hgrant => by
        simpa using List.filter_eq_nil_iff.mp hoperations grant hgrant
      noFlow := fun hc => by
        cases hp : parent.informationFlow with
        | none => rfl
        | some p => simp [informationFlowExceeds, hc, hp] at hflow
      flow := fun c hc => flowWithin_of_exceeds hc hflow }

end Within

section Rules

variable {parseUrl : String → Option TargetUrl} {child parent : CharterEnvelope}

theorem operationCovered_mono (hw : Within parseUrl child parent) {raw : List (String × Json)}
    (h : operationCovered parseUrl child raw = true) :
    operationCovered parseUrl parent raw = true := by
  unfold operationCovered at h ⊢
  cases htarget : parseExternalOperationGrant parseUrl raw with
  | none => simp [htarget] at h
  | some target =>
      simp only [htarget, List.any_eq_true] at h ⊢
      obtain ⟨grant, hgrant, hcovers⟩ := h
      obtain ⟨value, hvalue, houter⟩ := hw.operations grant hgrant
      exact ⟨value, hvalue, externalOperationGrantMatches_trans houter hcovers⟩

theorem operationNotDelegated_mono (hw : Within parseUrl child parent) {action : CharterAction}
    (h : operationNotDelegated parseUrl child action = none) :
    operationNotDelegated parseUrl parent action = none := by
  unfold operationNotDelegated at h ⊢
  cases hraw : action.externalOperation with
  | none => simpa [hraw] using h
  | some raw =>
      simp only [hraw, ite_eq_left_iff, reduceCtorEq, imp_false, not_not] at h ⊢
      exact ⟨h.1, operationCovered_mono hw h.2⟩

theorem policyRefusal_mono {p q : ExternalEffectPolicy} (hrank : p.rank ≤ q.rank)
    {reviewed : Bool} {field forbidden why : String}
    (h : policyRefusal p reviewed field forbidden why = none) :
    policyRefusal q reviewed field forbidden why = none := by
  cases q with
  | allow => rfl
  | forbid =>
      cases p with
      | forbid => exact h
      | allowWithReview => exact absurd hrank (by decide)
      | allow => exact absurd hrank (by decide)
  | allowWithReview =>
      cases p with
      | forbid => cases h
      | allowWithReview => exact h
      | allow => exact absurd hrank (by decide)

theorem decisionNotDelegated_mono (hw : Within parseUrl child parent) {action : CharterAction}
    (h : decisionNotDelegated child action = none) : decisionNotDelegated parent action = none := by
  unfold decisionNotDelegated at h ⊢
  cases htype : given action.decisionType with
  | none => rfl
  | some type =>
      rw [htype, Option.bind_some] at h
      exact policyRefusal_mono (hw.decisions type) h

theorem effectNotDelegated_mono (hw : Within parseUrl child parent) {action : CharterAction}
    (h : effectNotDelegated child action = none) : effectNotDelegated parent action = none := by
  unfold effectNotDelegated at h ⊢
  cases hcls : externalEffectClass action.actionClass with
  | none => rfl
  | some cls =>
      rw [hcls, Option.bind_some] at h
      exact policyRefusal_mono (hw.effects cls) h

theorem moneyRefusal_eq_none {envelope : CharterEnvelope} {action : CharterAction}
    {usage : CharterUsage} : moneyRefusal envelope action usage = none ↔ (0 < action.money →
      (given action.currency).any (· ≠ envelope.money.currency) = false ∧
      action.money ≤ envelope.money.perAction ∧
      usage.spentToday + action.money ≤ envelope.money.perDay ∧
      usage.spentThisMonth + action.money ≤ envelope.money.perMonth ∧
      effectPolicy envelope .payment ≠ .forbid) := by
  unfold moneyRefusal
  by_cases hmoney : action.money ≤ 0
  · simp [hmoney, not_lt.mpr hmoney]
  · simp only [if_neg hmoney, ite_some_eq_none, not_lt, Bool.not_eq_true, not_le.mp hmoney,
      forall_const, and_true, ne_eq]

theorem moneyRefusal_mono (hw : Within parseUrl child parent) {action : CharterAction}
    {usage : CharterUsage} (h : moneyRefusal child action usage = none) :
    moneyRefusal parent action usage = none := by
  rw [moneyRefusal_eq_none] at h ⊢
  intro hmoney
  obtain ⟨hcurrency, haction, hday, hmonth, hpayment⟩ := h hmoney
  refine ⟨hw.currency ▸ hcurrency, haction.trans hw.perAction, hday.trans hw.perDay,
    hmonth.trans hw.perMonth, fun hforbid => hpayment ?_⟩
  have hrank := hw.effects .payment
  rw [hforbid] at hrank
  cases hchild : effectPolicy child .payment with
  | forbid => rfl
  | allowWithReview => exact absurd (hchild ▸ hrank) (by decide)
  | allow => exact absurd (hchild ▸ hrank) (by decide)

theorem dataNotDelegated_mono (hw : Within parseUrl child parent) {action : CharterAction}
    (h : dataNotDelegated child action = none) : dataNotDelegated parent action = none := by
  unfold dataNotDelegated at h ⊢
  cases hdata : action.data with
  | none => rfl
  | some data =>
      simp only [hdata, Option.bind_some, ite_eq_right_iff, reduceCtorEq, imp_false,
        not_not] at h ⊢
      exact hw.dataTier data.mode _ h

theorem excluded_mono {α : Type} [DecidableEq α] {child parent values : List α}
    (hsub : ∀ value ∈ child, value ∈ parent) (h : values.filter (· ∉ child) = []) :
    values.filter (· ∉ parent) = [] := by
  rw [List.filter_eq_nil_iff] at h ⊢
  intro value hvalue
  have hmem := h value hvalue
  simp only [decide_not, Bool.not_eq_eq_eq_not, Bool.not_true, decide_eq_false_iff_not,
    not_not] at hmem ⊢
  exact hsub value hmem

theorem processorFlow_mono {c p : InformationFlowEnvelope} (hw : FlowWithin c p)
    {facts : InformationFlowFacts} {processor : String}
    (h : processorFlow c facts processor = []) : processorFlow p facts processor = [] := by
  simp only [processorFlow, ite_singleton_eq_nil, not_not, and_true] at h ⊢
  obtain ⟨hprocessor, hpurpose, hcategories⟩ := h
  exact ⟨hw.processorIds _ hprocessor, hw.processingPurposes _ hpurpose,
    excluded_mono hw.processingCategories hcategories⟩

theorem recipientFlow_mono {c p : InformationFlowEnvelope} (hw : FlowWithin c p)
    {facts : InformationFlowFacts} (h : recipientFlow c facts = []) :
    recipientFlow p facts = [] := by
  unfold recipientFlow at h ⊢
  cases hrecipient : facts.recipientClass with
  | none => simp [hrecipient] at h
  | some recipient =>
      simp only [hrecipient, ite_singleton_eq_nil, not_not, not_lt, and_true] at h ⊢
      obtain ⟨hpurpose, hclass, hattachments, hcategories⟩ := h
      exact ⟨hw.purposes _ hpurpose, hw.recipientClasses _ hclass,
        hattachments.trans hw.maxAttachments, excluded_mono hw.categories hcategories⟩

theorem evaluateInformationFlow_mono (hw : Within parseUrl child parent)
    {facts : InformationFlowFacts} (h : evaluateInformationFlow child facts = []) :
    evaluateInformationFlow parent facts = [] := by
  cases hc : child.informationFlow with
  | none => simp [evaluateInformationFlow, hc] at h
  | some c =>
      obtain ⟨p, hp, hflow⟩ := hw.flow c hc
      simp only [evaluateInformationFlow, hc, hp, ite_singleton_eq_nil] at h ⊢
      refine ⟨h.1, ?_⟩
      cases hprocessor : given facts.processorId with
      | none => simpa only [hprocessor] using recipientFlow_mono hflow (by simpa [hprocessor] using h.2)
      | some processor =>
          simp only [hprocessor, ite_singleton_eq_nil] at h ⊢
          exact ⟨h.2.1, processorFlow_mono hflow h.2.2⟩

theorem informationFlowRefusal_mono (hw : Within parseUrl child parent) {action : CharterAction}
    (h : informationFlowRefusal child action = none) :
    informationFlowRefusal parent action = none := by
  unfold informationFlowRefusal at h ⊢
  cases hc : child.informationFlow with
  | none => simp [hw.noFlow hc]
  | some c =>
      obtain ⟨p, hp, -⟩ := hw.flow c hc
      cases hfacts : action.informationFlow with
      | none => simpa [hc, hp, hfacts] using h
      | some facts =>
          simp only [hc, hp, hfacts, Option.isNone_some, Bool.false_eq_true, if_false,
            ite_some_eq_none, not_not, and_true] at h ⊢
          exact ⟨h.1, evaluateInformationFlow_mono hw h.2⟩

/-- Where both envelopes let only named actions through, the child's names are the parent's. -/
def NamesCovered (child parent : CharterEnvelope) : Prop :=
  child.irreversible = .namedActionsOnly → parent.irreversible = .namedActionsOnly →
    ∀ name ∈ child.irreversibleNamedActions.getD [], name ≠ "" →
      name ∈ parent.irreversibleNamedActions.getD []

theorem given_eq_some {text : Option String} {value : String} :
    given text = some value ↔ text = some value ∧ value ≠ "" := by
  simp [given, Option.filter_eq_some_iff]

theorem irreversibleRefusal_mono (hw : Within parseUrl child parent)
    (hnames : NamesCovered child parent) {action : CharterAction}
    (h : irreversibleRefusal child action = none) : irreversibleRefusal parent action = none := by
  have hrank := hw.irreversible
  unfold irreversibleRefusal at h ⊢
  cases hreversible : action.reversible with
  | true => rfl
  | false =>
      simp only [hreversible, Bool.false_eq_true, if_false] at h ⊢
      cases hp : parent.irreversible with
      | allow => rfl
      | forbid =>
          cases hc : child.irreversible with
          | forbid => simp [hc] at h
          | namedActionsOnly => simp [hc, hp, IrreversiblePolicy.rank] at hrank
          | allow => simp [hc, hp, IrreversiblePolicy.rank] at hrank
      | namedActionsOnly =>
          cases hc : child.irreversible with
          | forbid => simp [hc] at h
          | allow => simp [hc, hp, IrreversiblePolicy.rank] at hrank
          | namedActionsOnly =>
              simp only [hc, ite_eq_left_iff, reduceCtorEq, imp_false, not_not,
                Option.any_eq_true, decide_eq_true_eq] at h ⊢
              obtain ⟨name, hname, hlisted⟩ := h
              exact ⟨name, hname, hnames hc hp name hlisted (given_eq_some.mp hname).2⟩

end Rules

section Delegation

variable {parseUrl : String → Option TargetUrl} {numberText : ℚ → String}
  {child parent : CharterEnvelope}

/-- What the two evaluations share: who is accountable, and up to what loss. -/
structure CharterTerms where
  accountable : CharterAccountable
  appetite : CharterAppetite

def CharterTerms.under (terms : CharterTerms) (charterId : String) (envelope : CharterEnvelope) :
    Charter :=
  ⟨charterId, terms.accountable, envelope, terms.appetite⟩

theorem allows_of_within (hw : Within parseUrl child parent) (hnames : NamesCovered child parent)
    {terms : CharterTerms} {childId parentId : String} {action : CharterAction}
    {usage : CharterUsage} {availability : CharterAvailability} {now : ℤ}
    (h : (evaluateAgainstCharter parseUrl (terms.under childId child) action usage availability
      now).Allows) :
    (evaluateAgainstCharter parseUrl (terms.under parentId parent) action usage availability
      now).Allows := by
  rw [evaluateAgainstCharter_allows_iff] at h ⊢
  simp only [charterRules, CharterTerms.under, List.forall_mem_cons, List.not_mem_nil,
    IsEmpty.forall_iff, implies_true, and_true] at h ⊢
  obtain ⟨hacting, htripwire, hsafe, hoperation, hdecision, hmoney, heffect, hdata, hflow,
    hirreversible, happetite⟩ := h
  exact ⟨hacting, htripwire, hsafe, operationNotDelegated_mono hw hoperation,
    decisionNotDelegated_mono hw hdecision, moneyRefusal_mono hw hmoney,
    effectNotDelegated_mono hw heffect, dataNotDelegated_mono hw hdata,
    informationFlowRefusal_mono hw hflow, irreversibleRefusal_mono hw hnames hirreversible,
    happetite⟩

/-- An agent's internal action that only its irreversibility can stop. -/
def irreversibleAction (name : String) : CharterAction :=
  { actor := ⟨.agent, "kyberion://agent/kyberion/archivist", none, some "user:mina"⟩
    actionClass := "archive_cleanup"
    reversible := false
    irreversibleActionName := some name }

def strictTerms : CharterTerms :=
  { accountable := ⟨"user:mina", some 0, some 1, []⟩
    appetite := ⟨0, .A, 0, 0, []⟩ }

def noUsage : CharterUsage :=
  ⟨0, 0, []⟩

def accountableAvailable : CharterAvailability :=
  ⟨true, []⟩

theorem irreversibleAction_allows_iff (name charterId : String) (envelope : CharterEnvelope) :
    (evaluateAgainstCharter parseUrl (strictTerms.under charterId envelope)
      (irreversibleAction name) noUsage accountableAvailable 0).Allows ↔
      irreversibleRefusal envelope (irreversibleAction name) = none := by
  rw [evaluateAgainstCharter_allows_iff]
  have hmoney : moneyRefusal envelope (irreversibleAction name) noUsage = none :=
    moneyRefusal_eq_none.mpr fun h => absurd h (lt_irrefl 0)
  have hflow : informationFlowRefusal envelope (irreversibleAction name) = none := by
    unfold informationFlowRefusal
    split <;> rfl
  have heffect : effectNotDelegated envelope (irreversibleAction name) = none := rfl
  have hoperation : operationNotDelegated parseUrl envelope (irreversibleAction name) = none := rfl
  have happetite : appetiteExceeded strictTerms.appetite (irreversibleAction name) = none := rfl
  have hacting : notActing strictTerms.accountable (irreversibleAction name) 0 = none := rfl
  simp only [charterRules, CharterTerms.under, List.forall_mem_cons, List.not_mem_nil,
    IsEmpty.forall_iff, implies_true, and_true, hmoney, hflow, heffect, hoperation, happetite,
    hacting, true_and]
  exact ⟨fun h => h.2.2.2.2, fun h => ⟨rfl, rfl, rfl, rfl, h⟩⟩

/-- An envelope that `envelopeExceeds` finds within its parent allows only what the parent allows,
whatever the terms and the action, exactly when the irreversible actions it names are named by the
parent as well. -/
theorem delegation_narrows_iff (h : envelopeExceeds parseUrl numberText child parent = []) :
    (∀ (terms : CharterTerms) (childId parentId : String) (action : CharterAction)
      (usage : CharterUsage) (availability : CharterAvailability) (now : ℤ),
      (evaluateAgainstCharter parseUrl (terms.under childId child) action usage availability
        now).Allows →
      (evaluateAgainstCharter parseUrl (terms.under parentId parent) action usage availability
        now).Allows) ↔ NamesCovered child parent := by
  constructor
  · intro hnarrows hc hp name hname hne
    have hallows := hnarrows strictTerms "child" "parent" (irreversibleAction name) noUsage
      accountableAvailable 0
    rw [irreversibleAction_allows_iff, irreversibleAction_allows_iff] at hallows
    have hgiven : given (irreversibleAction name).irreversibleActionName = some name :=
      given_eq_some.mpr ⟨rfl, hne⟩
    have hreversible : (irreversibleAction name).reversible = false := rfl
    simpa [irreversibleRefusal, hc, hp, hgiven, hreversible, hname] using hallows
  · intro hnames terms childId parentId action usage availability now hallows
    exact allows_of_within (within_of_exceeds parseUrl h) hnames hallows

def namingEnvelope (names : List String) : CharterEnvelope :=
  { money := ⟨"JPY", 1000, 5000, 20000⟩
    dataTier := fun _ => ["public"]
    externalEffects := [(.payment, .allowWithReview)]
    irreversible := .namedActionsOnly
    irreversibleNamedActions := some names }

theorem delegation_narrows_named :
    envelopeExceeds (fun _ => none) (fun _ => "") (namingEnvelope ["rotate_logs"])
      (namingEnvelope ["rotate_logs", "delete_backups"]) = [] ∧
    ∀ (terms : CharterTerms) (childId parentId : String) (action : CharterAction)
      (usage : CharterUsage) (availability : CharterAvailability) (now : ℤ),
      (evaluateAgainstCharter (fun _ => none)
        (terms.under childId (namingEnvelope ["rotate_logs"])) action usage availability
        now).Allows →
      (evaluateAgainstCharter (fun _ => none)
        (terms.under parentId (namingEnvelope ["rotate_logs", "delete_backups"])) action usage
        availability now).Allows := by
  have h : envelopeExceeds (fun _ => none) (fun _ => "") (namingEnvelope ["rotate_logs"])
      (namingEnvelope ["rotate_logs", "delete_backups"]) = [] := by decide +kernel
  exact ⟨h, (delegation_narrows_iff h).mpr (by simp [NamesCovered, namingEnvelope])⟩

/-- A child may name an irreversible action its parent never named, and is not found to exceed
it. -/
theorem delegation_widens :
    ∃ (child parent : CharterEnvelope) (action : CharterAction),
      envelopeExceeds (fun _ => none) (fun _ => "") child parent = [] ∧
      (evaluateAgainstCharter (fun _ => none) (strictTerms.under "child" child) action noUsage
        accountableAvailable 0).Allows ∧
      ¬ (evaluateAgainstCharter (fun _ => none) (strictTerms.under "parent" parent) action noUsage
        accountableAvailable 0).Allows := by
  refine ⟨namingEnvelope ["rotate_logs", "delete_backups"], namingEnvelope ["rotate_logs"],
    irreversibleAction "delete_backups", by decide +kernel, ?_, ?_⟩
  · rw [irreversibleAction_allows_iff]
    decide
  · rw [irreversibleAction_allows_iff]
    decide

end Delegation

end Kyberion.Governance
