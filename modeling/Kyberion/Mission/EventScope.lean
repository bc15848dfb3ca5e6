import Kyberion.Js.Text
import Kyberion.Js.Throw
import Kyberion.Mesh.Delivery

/-!
The scope of a mission record. `normalizeEventScope` trims the ids, folds the
tenant alias into its slug and checks that each level names the levels it needs.
What it returns, it accepts again.
-/

namespace Kyberion.Mission

open Js
open Mesh (isValidTenantSlug)

inductive TierLevel
  | personal | confidential | public_
  deriving DecidableEq

inductive EventScopeKind
  | system | tenant | organization | project | mission | task | session
  deriving DecidableEq

/-- The scope context without its tier. -/
structure ScopeIds where
  tenantSlug : Option String := none
  organizationId : Option String := none
  projectId : Option String := none
  missionId : Option String := none
  taskId : Option String := none
  sessionId : Option String := none
  workShape : Option String := none
  customerStance : Option String := none
  viewerPrincipal : Option String := none
  nhiId : Option String := none
  deriving DecidableEq

structure ScopeContext extends ScopeIds where
  tier : TierLevel
  deriving DecidableEq

structure ScopeContextInput extends ScopeIds where
  tier : TierLevel
  tenantId : Option String := none
  deriving DecidableEq

structure EventScope extends ScopeContext where
  scopeKind : EventScopeKind
  deriving DecidableEq

/-- A scope as a record carries it: the schema requires the kind and the tier. -/
structure EventScopeInput extends ScopeIds where
  scopeKind : Option EventScopeKind := none
  tier : Option TierLevel := none
  tenantId : Option String := none
  deriving DecidableEq

def TierLevel.text : TierLevel → String
  | .personal => "personal"
  | .confidential => "confidential"
  | .public_ => "public"

def EventScopeKind.text : EventScopeKind → String
  | .system => "system"
  | .tenant => "tenant"
  | .organization => "organization"
  | .project => "project"
  | .mission => "mission"
  | .task => "task"
  | .session => "session"

/-- `/^[^\s/]+$/` -/
def nonEmptyId (s : String) : Bool :=
  s ≠ "" && s.toList.all fun c => !isWhiteSpace c && c ≠ '/'

def clean (value : Option String) : Option String :=
  (value.map trim).filter (· ≠ "")

def compatibleAlias (tenantSlug tenantId : Option String) : Except String (Option String) :=
  match tenantSlug, tenantId with
  | some slug, some id =>
      throwIf (slug ≠ id) ("[SCOPE_CONTEXT_INVALID] tenant_slug '" ++ slug ++
        "' conflicts with compatibility tenant_id '" ++ id ++ "'") (.ok (some slug))
  | slug, id => .ok (slug.or id)

def normalizeScopeContext (input : ScopeContextInput) : Except String ScopeContext := do
  let tenantSlug ← compatibleAlias (clean input.tenantSlug) (clean input.tenantId)
  return {
    tenantSlug
    organizationId := clean input.organizationId
    projectId := clean input.projectId
    missionId := clean input.missionId
    taskId := clean input.taskId
    sessionId := clean input.sessionId
    workShape := clean input.workShape
    tier := input.tier
    customerStance := clean input.customerStance
    viewerPrincipal := clean input.viewerPrincipal
    nhiId := clean input.nhiId }

/-- The values that `validateScopeContext` holds against the id pattern. -/
def ScopeContext.checkedIds (context : ScopeContext) : List (String × Option String) :=
  [("organization_id", context.organizationId), ("project_id", context.projectId),
    ("mission_id", context.missionId), ("task_id", context.taskId),
    ("session_id", context.sessionId), ("work_shape", context.workShape)]

/-- What `validateScopeContext` finds wrong with a normalized context, no option set. -/
def scopeContextErrors (context : ScopeContext) : List String :=
  let error (wrong : Bool) (text : String) : List String := if wrong then [text] else []
  error (context.tenantSlug.any fun slug => !isValidTenantSlug slug)
      ("tenant_slug '" ++ context.tenantSlug.getD "" ++ "' is invalid or reserved") ++
    error (context.tier = .confidential && context.tenantSlug.isNone)
      "tenant_slug is required for this scope" ++
    error (context.organizationId.isSome && context.tenantSlug.isNone)
      "organization_id requires a tenant_slug" ++
    error (context.projectId.isSome && context.organizationId.isNone &&
        !(context.tier = .public_ && context.tenantSlug.isNone))
      "project_id requires an organization_id" ++
    error (context.taskId.isSome && context.missionId.isNone) "task_id requires a mission_id" ++
    error (context.sessionId.isSome && context.taskId.isNone) "session_id requires a task_id" ++
    context.checkedIds.flatMap fun (key, value) =>
      error (value.any fun id => !nonEmptyId id) (key ++ " is invalid")

/-- A context as input: it carries no alias. -/
def ScopeContext.toInput (context : ScopeContext) : ScopeContextInput where
  toScopeIds := context.toScopeIds
  tier := context.tier

def validateScopeContext (input : ScopeContextInput) : Except String (List String) := do
  return scopeContextErrors (← normalizeScopeContext input)

def assertScopeContext (input : ScopeContextInput) : Except String ScopeContext := do
  let context ← normalizeScopeContext input
  let errors ← validateScopeContext context.toInput
  throwIf (errors ≠ []) ("[SCOPE_CONTEXT_INVALID] " ++ String.intercalate "; " errors)
    (.ok context)

def deepestScopeKind (context : ScopeContext) : EventScopeKind :=
  if context.sessionId.isSome then .session
  else if context.taskId.isSome then .task
  else if context.missionId.isSome then .mission
  else if context.projectId.isSome then .project
  else if context.organizationId.isSome then .organization
  else if context.tenantSlug.isSome then .tenant
  else .system

def requiredForKind (kind : EventScopeKind) (context : ScopeContext) : Bool :=
  match kind with
  | .system =>
      context.tenantSlug.isNone && context.organizationId.isNone && context.projectId.isNone &&
        context.missionId.isNone && context.taskId.isNone && context.sessionId.isNone
  | .tenant => context.tenantSlug.isSome
  | .organization => context.organizationId.isSome && context.tenantSlug.isSome
  | .project =>
      context.projectId.isSome &&
        (context.organizationId.isSome && context.tenantSlug.isSome ||
          context.tier = .public_ && context.organizationId.isNone && context.tenantSlug.isNone)
  | .mission => context.missionId.isSome
  | .task => context.taskId.isSome && context.missionId.isSome
  | .session => context.sessionId.isSome && context.taskId.isSome && context.missionId.isSome

def normalizeEventScope (input : EventScopeInput) : Except String EventScope := do
  let context ← assertScopeContext {
    toScopeIds := input.toScopeIds
    tier := input.tier.getD .public_
    tenantId := input.tenantId }
  let scopeKind := input.scopeKind.getD (deepestScopeKind context)
  throwIf (requiredForKind scopeKind context = false)
    ("[EVENT_SCOPE_INVALID] scope_kind '" ++ scopeKind.text ++ "' does not match its context") <|
  throwIf (context.tenantSlug.any fun slug => !isValidTenantSlug slug)
    ("[EVENT_SCOPE_INVALID] tenant_slug '" ++ context.tenantSlug.getD "" ++ "' is not a tenant") <|
  .ok { context with scopeKind }

/-- A normalized scope as a record carries it. -/
def EventScope.toInput (scope : EventScope) : EventScopeInput where
  toScopeIds := scope.toScopeIds
  scopeKind := some scope.scopeKind
  tier := some scope.tier

/-- The values are trimmed and not empty. -/
def ScopeIds.Cleaned (ids : ScopeIds) : Prop :=
  clean ids.tenantSlug = ids.tenantSlug ∧ clean ids.organizationId = ids.organizationId ∧
    clean ids.projectId = ids.projectId ∧ clean ids.missionId = ids.missionId ∧
    clean ids.taskId = ids.taskId ∧ clean ids.sessionId = ids.sessionId ∧
    clean ids.workShape = ids.workShape ∧ clean ids.customerStance = ids.customerStance ∧
    clean ids.viewerPrincipal = ids.viewerPrincipal ∧ clean ids.nhiId = ids.nhiId

@[simp] theorem clean_none : clean none = none := rfl

@[simp] theorem clean_clean (value : Option String) : clean (clean value) = clean value := by
  cases value with
  | none => rfl
  | some s =>
      by_cases h : trim s = "" <;> simp [clean, Option.filter, h]

theorem clean_compatibleAlias {slug id tenant : Option String}
    (h : compatibleAlias (clean slug) (clean id) = .ok tenant) : clean tenant = tenant := by
  unfold compatibleAlias at h
  split at h
  · rename_i s i hs hi
    obtain ⟨-, heq⟩ := throwIf_eq_ok.mp h
    obtain rfl := Except.ok.inj heq
    rw [← hs, clean_clean]
  · obtain rfl := Except.ok.inj h
    cases hslug : clean slug with
    | none => rw [Option.none_or, clean_clean]
    | some s => rw [Option.some_or, ← hslug, clean_clean]

theorem normalizeScopeContext_cleaned {input : ScopeContextInput} {context : ScopeContext}
    (h : normalizeScopeContext input = .ok context) : context.Cleaned := by
  obtain ⟨tenant, htenant, h⟩ := except_bind_ok h
  obtain rfl := Except.ok.inj h
  exact ⟨clean_compatibleAlias htenant, clean_clean _, clean_clean _, clean_clean _,
    clean_clean _, clean_clean _, clean_clean _, clean_clean _, clean_clean _, clean_clean _⟩

/-- A cleaned context normalizes to itself. -/
theorem normalizeScopeContext_toInput {context : ScopeContext} (h : context.Cleaned) :
    normalizeScopeContext context.toInput = .ok context := by
  obtain ⟨htenant, horganization, hproject, hmission, htask, hsession, hshape, hstance, hviewer,
    hnhi⟩ := h
  have halias : compatibleAlias (clean context.tenantSlug) (clean none) =
      .ok context.tenantSlug := by
    rw [htenant]
    cases context.tenantSlug <;> rfl
  simp only [normalizeScopeContext, ScopeContext.toInput, halias, horganization, hproject,
    hmission, htask, hsession, hshape, hstance, hviewer, hnhi]
  rfl

theorem assertScopeContext_toInput {input : ScopeContextInput} {context : ScopeContext}
    (h : assertScopeContext input = .ok context) :
    assertScopeContext context.toInput = .ok context := by
  obtain ⟨context', hcontext, h⟩ := except_bind_ok h
  obtain ⟨errors, herrors, h⟩ := except_bind_ok h
  have hself := normalizeScopeContext_toInput (normalizeScopeContext_cleaned hcontext)
  obtain ⟨-, heq⟩ := throwIf_eq_ok.mp h
  obtain rfl := Except.ok.inj heq
  simp only [assertScopeContext, hself]
  change (validateScopeContext context'.toInput >>= _) = _
  rw [herrors]
  exact h

/-- What normalizes to a scope, the scope itself does. -/
theorem normalizeEventScope_toInput {input : EventScopeInput} {scope : EventScope}
    (h : normalizeEventScope input = .ok scope) :
    normalizeEventScope scope.toInput = .ok scope := by
  obtain ⟨context, hcontext, h⟩ := except_bind_ok h
  obtain ⟨hkind, h⟩ := throwIf_eq_ok.mp h
  obtain ⟨htenant, h⟩ := throwIf_eq_ok.mp h
  obtain rfl := Except.ok.inj h
  have hself := assertScopeContext_toInput hcontext
  simp only [normalizeEventScope]
  refine (congrArg (· >>= _) hself).trans ?_
  exact throwIf_eq_ok.mpr ⟨hkind, throwIf_eq_ok.mpr ⟨htenant, rfl⟩⟩

end Kyberion.Mission
