import Kyberion.Guard.Policy

/-!
The decisions of the guard: the grants of the policy, the read and the write
decision. Each is a cascade of rules of which the first that speaks decides.
-/

namespace Kyberion.Guard

open Cascade FirstMatch

structure Decision where
  allowed : Bool
  reason : Option String := none
  /-- `denialKind: 'tier_restriction'` -/
  tierRestriction : Bool := false
  deriving DecidableEq

def Decision.allow : Decision := { allowed := true }

def Decision.deny (reason : String) : Decision := { allowed := false, reason }

def allowWhen (condition : Bool) : Option Decision :=
  if condition then some .allow else none

def denyWhen (condition : Bool) (reason : String) : Option Decision :=
  if condition then some (.deny reason) else none

def Decision.IsDenial (d : Decision) : Prop := d.allowed = false

theorem isDenial_map {refusal : Option String} {d : Decision}
    (h : refusal.map .deny = some d) : d.IsDenial := by
  obtain ⟨reason, -, rfl⟩ := Option.map_eq_some_iff.mp h
  rfl

theorem isDenial_denyWhen {condition : Bool} {reason : String} {d : Decision}
    (h : denyWhen condition reason = some d) : d.IsDenial := by
  obtain ⟨-, h⟩ := Option.ite_none_right_eq_some.mp h
  obtain rfl := Option.some.inj h
  rfl

section Patterns

/-- `/^[A-Za-z0-9][A-Za-z0-9._-]{0,127}$/u` -/
def isScopeId (text : List Char) : Bool :=
  let word (c : Char) : Bool := isDigit c || isLower c.toLower
  match text with
  | [] => false
  | c :: rest => word c && rest.length ≤ 127 &&
      rest.all fun d => word d || d = '.' || d = '_' || d = '-'

/-- `text.split(placeholder).join(value)` -/
def replaceAll (placeholder value text : List Char) : List Char :=
  match splitFirst placeholder text with
  | some (front, back) =>
      if back.length < text.length then front ++ value ++ replaceAll placeholder value back
      else text
  | none => text
termination_by text.length

def replaceFirst (placeholder value text : List Char) : List Char :=
  match splitFirst placeholder text with
  | some (front, back) => front ++ value ++ back
  | none => text

/-- One placeholder of a pattern: it is replaced by a value that passes its check, and the pattern
matches nothing without one. -/
def expandPlaceholder (placeholder : String) (value : List Char) (valid : List Char → Bool)
    (pattern : List Char) : Option (List Char) :=
  if (splitFirst placeholder.toList pattern).isNone then some pattern
  else if valid value then some (replaceAll placeholder.toList value pattern)
  else none

variable (host : GuardHost)

def expandPolicyPath (missionId : Option String) (tenantSlug : String) (pattern : String) :
    Option (List Char) :=
  let orNone (value : String) : List Char := if value = "" then "NONE".toList else value.toList
  let organization := Js.trim host.organizationId
  let tenant := Js.trim tenantSlug
  do
    let text ← expandPlaceholder "$\x7bKYBERION_ORGANIZATION_ID\x7d" organization.toList isScopeId
      pattern.toList
    let text ← expandPlaceholder "$\x7bKYBERION_TENANT\x7d" tenant.toList isValidTenantSlug text
    let text ← expandPlaceholder "$\x7bKYBERION_PROJECT_ID\x7d" host.projectId.toList isScopeId text
    let text := replaceFirst "$\x7bMISSION_ID\x7d".toList (orNone (missionId.getD "")) text
    return replaceFirst "$\x7bKYBERION_STANCE\x7d".toList (orNone (Js.trim host.stance)) text

def policyPathMatches (path : List Char) (tenantSlug pattern : String) : Bool :=
  (expandPolicyPath host host.missionId tenantSlug pattern).any fun expanded =>
    pathStartsWith path expanded

/-- A grant on an ancestor of a floor partition below `active/shared` does not reach into it. -/
def readGrantMatches (path : List Char) (tenantSlug : String)
    (partitionPrefix : Option (List Char)) (pattern : String) : Bool :=
  (expandPolicyPath host host.missionId tenantSlug pattern).any fun text =>
    pathStartsWith path text && partitionPrefix.all fun partition =>
      let expanded := normalizePath text
      !(pathStartsWith expanded "active/shared".toList && pathStartsWith partition expanded &&
        expanded.length < (normalizePath partition).length)

/-- `denyComparisonKey` -/
def denyComparisonKey (value : List Char) : List Char :=
  host.foldCase (normalizePath value)

def denyPatternMatches (candidates : List (List Char)) (tenantSlug pattern : String) : Bool :=
  (expandPolicyPath host host.missionId tenantSlug pattern).any fun expanded =>
    let start := denyComparisonKey host expanded
    candidates.any fun candidate =>
      let target := denyComparisonKey host candidate
      target = start || (start ++ ['/']).isPrefixOf target

/-- The pattern of a listing covers what lies below it. -/
def denyDescendantMatches (candidates : List (List Char)) (tenantSlug pattern : String) : Bool :=
  (expandPolicyPath host host.missionId tenantSlug pattern).any fun expanded =>
    let start := denyComparisonKey host expanded ++ ['/']
    candidates.any fun candidate => start.isPrefixOf (denyComparisonKey host candidate)

end Patterns

section Rules

variable (host : GuardHost) (policy : Policy) (path : List Char) (identity : Identity)

def hasScopedSudoAccess : Bool :=
  identity.sudoScope = [] || identity.sudoScope.any fun scope => pathStartsWith path scope.toList

def hasAuthorityAccess (access : Grants → List String) (partitionPrefix : Option (List Char)) :
    Bool :=
  identity.authorities.any fun authority =>
    (access (policy.authorityPermissions authority)).any
      (readGrantMatches host path "" partitionPrefix)

/-- The rules of the caller's role, if it has one. -/
def roleRules : RoleRules :=
  if identity.role = "" then {} else policy.authorityRolePermissions identity.role

/-- `/^knowledge\/confidential\/([^/]+)\//`: projects with rules of their own. -/
def checkProjectScope : Option String :=
  (below? "knowledge/confidential" path).bind fun rest =>
    let project := firstSegment rest
    if project = [] ∨ project = rest ∨ project = "_default".toList then none
    else (policy.projectPermissions project).bind fun permissions =>
      if permissions.allowedPersonas.contains identity.persona ∨
          permissions.allowedRoles.any identity.authorities.contains then none
      else some ("[POLICY_VIOLATION] Persona '" ++ identity.persona ++
        "' is not authorized for project '" ++ String.ofList project ++ "'.")

/-- The role's carve-outs, on the path that is read and all its spellings. -/
def roleDenyReadDecision : Option String :=
  let rules := roleRules policy identity
  let candidates := host.denyCandidatePaths path
  if identity.role = "" then none
  else if rules.denyReadDescendants.any
      (denyDescendantMatches host candidates identity.tenantSlug) then
    some ("[ROLE_VIOLATION] Directory listing permission does not allow reading descendants.")
  else if rules.denyRead.any (denyPatternMatches host candidates identity.tenantSlug) then
    some ("[ROLE_VIOLATION] role '" ++ identity.role ++ "' may not read " ++ String.ofList path ++
      " — the path is carved out of its grants (security-policy.json authority_role_permissions." ++
      identity.role ++ ".deny_read) | read it under a role that owns it | role=" ++ identity.role)
  else none

/-- The tiers whose block message answers last, in the order in which they are asked. -/
def tierRestriction : Option Decision :=
  let block (tier : DataTier) : Decision := .deny (policy.blockMessage tier)
  let blockTier (tier : Option DataTier) : Option Decision :=
    (tier.filter DataTier.isProtected).map block
  let rules := [
    (if pathStartsWith path "knowledge/personal".toList then
      some { block .personal with tierRestriction := true } else none),
    (if pathStartsWith path "knowledge/confidential".toList then some (block .confidential)
      else none),
    blockTier (tierAt "active/organizations" path), blockTier (tierAt "active/projects" path),
    blockTier (tierAt "active/archive/missions" path), blockTier (storageFloorTier path)]
  rules.findSome? id

def personaTierReadDecision : Decision :=
  let partitionPrefix := protectedFloorPartitionPrefix path
  let grants (patterns : List String) : Bool :=
    patterns.any (readGrantMatches host path identity.tenantSlug partitionPrefix)
  let role := roleRules policy identity
  let persona := policy.personaPermissions identity.persona
  firstOr [
    (roleDenyReadDecision host policy path identity).map .deny,
    allowWhen (identity.authorities.contains "SUDO" && hasScopedSudoAccess path identity),
    allowWhen (hasAuthorityAccess host policy path identity (·.allowRead) partitionPrefix),
    allowWhen (hasAuthorityAccess host policy path identity (·.allowWrite) partitionPrefix),
    allowWhen (grants role.allowRead || grants role.allowWrite),
    allowWhen (grants persona.allowRead || grants persona.allowWrite),
    (checkProjectScope policy path identity).map .deny,
    tierRestriction policy path] .allow

def personaTierWriteDecision (operation : Operation) : Decision :=
  let granted (pattern : String) : Bool :=
    policyPathMatches host path identity.tenantSlug pattern
  let above (pattern : String) : Bool :=
    operation = .mkdir && host.resourceScope.isSome &&
      (expandPolicyPath host host.missionId identity.tenantSlug pattern).any fun expanded =>
        (path ++ ['/']).isPrefixOf expanded
  firstOr [
    allowWhen (identity.authorities.contains "SUDO" && hasScopedSudoAccess path identity),
    allowWhen (hasAuthorityAccess host policy path identity (·.allowWrite) none),
    allowWhen ((roleRules policy identity).allowWrite.any fun p => granted p || above p),
    allowWhen ((policy.personaPermissions identity.persona).allowWrite.any granted),
    (checkProjectScope policy path identity).map .deny,
    denyWhen (pathStartsWith path "knowledge/personal".toList) (policy.blockMessage .personal),
    denyWhen (pathStartsWith path "knowledge/confidential".toList)
      (policy.blockMessage .confidential)]
    (.deny ("[POLICY_VIOLATION] Persona '" ++ identity.persona ++ "' with authority role '" ++
      (if identity.role = "" then "unknown" else identity.role) ++
      "' is NOT authorized to write to '" ++ String.ofList path ++ "'."))

def tenantStorePartitionWriteDecision (operation : Operation) : Option Decision :=
  (tenantStoreLedgerPartitionOf path).bind fun partition =>
    if partition.tenant = [] ∧ operation = .mkdir then none
    else
      let own := if identity.role = partition.storeRole then
        (policy.authorityRolePermissions identity.role).allowWrite else []
      let grants := own ++ (policy.personaPermissions identity.persona).allowWrite
      some <| firstOr [
        allowWhen (identity.authorities.contains "SUDO" && hasScopedSudoAccess path identity),
        allowWhen (grants.any (policyPathMatches host path identity.tenantSlug))]
        (.deny ("[POLICY_VIOLATION] '" ++ String.ofList path ++
          "' is a tenant store partition: only '" ++ partition.storeRole ++
          "' bound to its tenant (or SUDO) may write it, not persona '" ++ identity.persona ++
          "' with role '" ++ (if identity.role = "" then "unknown" else identity.role) ++ "'."))

/-- The partition of a registered state root must be declared exactly, and never shared. -/
def runtimeStatePolicyDeclarationValid : Bool :=
  !isProtectedRuntimeStatePath path ||
    let root := PARTITIONED_RUNTIME_STATE_ROOTS.find? fun root => pathStartsWith path root.toList
    let tier := partitionedRuntimeStateTierInPath path
    let scope := policy.tenantScope
    scope.protectedPrefixes.isSome &&
      (scope.protectedPrefixes.getD []).find? (fun start => pathStartsWith path start.toList) =
        some (root.getD "undefined" ++ "/" ++ (tier.map DataTier.text).getD "undefined" ++ "/") &&
      (scope.sharedPrefixes.getD []).all fun start => !pathStartsWith path start.toList

/-- Only grants that name a ledger root, or a partition below it, count. -/
def ledgerRoleReadGrant : Bool :=
  (roleRules policy identity).allowRead.any fun pattern =>
    (expandPolicyPath host host.missionId identity.tenantSlug pattern).any fun expanded =>
      (PARTITIONED_RUNTIME_LEDGER_ROOTS.any fun root => pathStartsWith expanded root.toList) &&
        pathStartsWith path expanded

end Rules

def outsideRootDenial (host : GuardHost) (path : List Char) : String :=
  "[POLICY_VIOLATION] Path outside project root: '" ++ host.resolvedPath path ++ "'"

def MISSING_RUNTIME_STATE_POLICY_DENIAL : Decision :=
  .deny ("[POLICY_VIOLATION] security-policy.json is missing. Access to protected durable " ++
    "runtime state fails closed until the policy file is restored.")

def INVALID_RUNTIME_STATE_POLICY_DECLARATION_DENIAL : Decision :=
  .deny ("[POLICY_VIOLATION] hearing.policy_declaration_invalid — protected durable state " ++
    "requires an exact tier/tenant declaration without a shared exemption in security-policy.json.")

def CORRUPT_POLICY_DENIAL : Decision :=
  .deny ("[POLICY_VIOLATION] security-policy.json exists but cannot be parsed. Access to " ++
    "personal/confidential tiers fails closed until the policy file is repaired.")

section Writes

variable (host : GuardHost) (path : PolicyPath) (operation : Operation)

/-- The write decision under a loaded policy. -/
def writeUnderPolicy (policy : Policy) : Decision :=
  let identity := host.identity
  let text := path.text
  let state := (partitionedRuntimeStateKnowledgePath text).filter fun _ =>
    (partitionedRuntimeStateTierInPath text).any DataTier.isProtected
  firstOr [
    (if runtimeStatePolicyDeclarationValid policy text then none
      else some INVALID_RUNTIME_STATE_POLICY_DECLARATION_DENIAL),
    (checkTenantScope host policy text operation identity).map .deny,
    allowWhen (host.storeGrantAuthorizes text operation),
    state.map fun knowledge => personaTierWriteDecision host policy knowledge identity operation,
    tenantStorePartitionWriteDecision host policy text identity operation,
    allowWhen (policy.defaultAllow.any (policyPathMatches host text ""))]
    (personaTierWriteDecision host policy text identity operation)

def validateWritePermission : Decision :=
  firstOr [
    (host.requestResourceDenial path.text operation).map .deny,
    (host.sandboxWriteDenial path.text).map .deny,
    denyWhen (isOutsideProjectRoot path.text) (outsideRootDenial host path.text)]
    (match host.policy with
    | .missing =>
        if isProtectedRuntimeStatePath path.text then MISSING_RUNTIME_STATE_POLICY_DENIAL
        else .allow
    | .corrupt => if isProtectedTierPath path.text then CORRUPT_POLICY_DENIAL else .allow
    | .loaded policy => writeUnderPolicy host path operation policy)

end Writes

section Reads

variable (host : GuardHost) (path : PolicyPath) (operation : Operation)

/-- Below a tier directory of the shared runtime, or in a protected state partition. -/
def isRuntimePartitionPath : Bool :=
  pathStartsWith path.text "active/shared/runtime/".toList &&
    (hasProtectedSegment path.text ||
      (partitionedRuntimeStateTierInPath path.text).any DataTier.isProtected)

/-- The path of the knowledge tier that a partition mirrors. -/
def knowledgeMirror (tier : DataTier) (tenant : List Char) : List Char :=
  let root := ("knowledge/" ++ tier.text).toList
  if tenant = [] ∨ tenant = "shared".toList then root else root ++ '/' :: tenant

/-- The read decision in a runtime partition that a protected prefix covers. -/
def readPartition (policy : Policy) (found : TenantMatch) : Decision :=
  let identity := host.identity
  let text := path.text
  firstOr [
    (checkTenantScope host policy text .read identity).map .deny,
    (roleDenyReadDecision host policy text identity).map .deny,
    allowWhen (host.storeGrantAuthorizes text operation)]
    (match partitionedRuntimeTier found.start.toList with
    | none => .allow
    | some tier =>
        firstOr [
          allowWhen (host.informationAssetCoverageReadAllowed text &&
            (roleRules policy identity).allowRead.any
              (policyPathMatches host text identity.tenantSlug)),
          allowWhen (ledgerRoleReadGrant host policy text identity)]
          (personaTierReadDecision host policy (knowledgeMirror tier found.tenant) identity))

/-- The part of the read decision for the partitions of the shared runtime. -/
def readRuntime : Option Decision :=
  if isRuntimePartitionPath path then
    match host.policy with
    | .missing =>
        if isProtectedRuntimeStatePath path.text then some MISSING_RUNTIME_STATE_POLICY_DENIAL
        else none
    | .loaded policy =>
        if runtimeStatePolicyDeclarationValid policy path.text then
          (extractTenantFromProtectedPrefix path.text
            (tenantScopeConfig host policy).protectedPrefixes).map
            (readPartition host path operation policy)
        else some INVALID_RUNTIME_STATE_POLICY_DECLARATION_DENIAL
    | .corrupt =>
        if (PARTITIONED_RUNTIME_LEDGER_ROOTS ++ PARTITIONED_RUNTIME_STATE_ROOTS).any fun root =>
            pathStartsWith path.text root.toList then some CORRUPT_POLICY_DENIAL
        else none
  else none

/-- The paths outside `knowledge` that are read under the policy. -/
def isTierStatePath : Bool :=
  (["active/organizations/personal", "active/organizations/confidential",
      "active/organizations/public"].any fun start => pathStartsWith path.text start.toList) ||
    (["active/projects", "active/missions", "active/archive/missions"].any fun root =>
      (tierAt root path.text).any DataTier.isProtected) ||
    (storageFloorTier path.text).any DataTier.isProtected

/-- Everything else is open to readers. -/
def isOpenRead : Bool :=
  let starts (text : String) : Bool := pathStartsWith path.text text.toList
  (!starts "knowledge" && !isTierStatePath path) || starts "knowledge/public" ||
    (!starts "knowledge/personal" && !starts "knowledge/confidential" && !isTierStatePath path)

/-- A directory above a grant of the role, whose metadata may be listed. -/
def isListedAbove (policy : Policy) : Bool :=
  let identity := host.identity
  let rules := roleRules policy identity
  operation = .metadata && host.resourceScope.isSome &&
    (rules.allowRead ++ rules.allowWrite).any fun pattern =>
      (expandPolicyPath host none identity.tenantSlug pattern).any fun expanded =>
        (path.text ++ ['/']).isPrefixOf expanded

def readUnderPolicy (policy : Policy) : Decision :=
  firstOr [
    (checkTenantScope host policy path.text .read host.identity).map .deny,
    allowWhen (host.storeGrantAuthorizes path.text operation),
    allowWhen (isListedAbove host path operation policy)]
    (personaTierReadDecision host policy path.text host.identity)

def inspectReadPermission : Decision :=
  firstOr [
    (host.requestResourceDenial path.text operation).map .deny,
    (if isOutsideProjectRoot path.text then
      some (if host.isAllowedVaultMountPath path.text then .allow
        else .deny (outsideRootDenial host path.text))
      else none),
    readRuntime host path operation,
    allowWhen (isOpenRead path)]
    (match host.policy with
    | .missing => .allow
    | .corrupt => CORRUPT_POLICY_DENIAL
    | .loaded policy => readUnderPolicy host path operation policy)

end Reads

end Kyberion.Guard
