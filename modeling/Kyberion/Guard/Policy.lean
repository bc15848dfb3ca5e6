import Kyberion.Cascade
import Kyberion.Guard.Path
import Kyberion.Js.Text

/-!
The security policy, the identity of a caller and the tenant check. Everything
that the guard asks of its surroundings is a field of the host: the scopes in
force, the stores' grants, the registered tenants and the file system.
-/

namespace Kyberion.Guard

inductive Operation
  | read | metadata | write | append | mkdir
  deriving DecidableEq

structure Grants where
  allowRead : List String := []
  allowWrite : List String := []

structure RoleRules extends Grants where
  denyRead : List String := []
  denyReadDescendants : List String := []

structure ProjectPermissions where
  allowedPersonas : List String := []
  allowedRoles : List String := []

structure RegistryRead where
  path : String
  roles : List String

structure TenantScopePolicy where
  slugPattern : Option String := none
  protectedPrefixes : Option (List String) := none
  sharedPrefixes : Option (List String) := none
  systemRegistryReads : Option (List RegistryRead) := none
  requireTenantBinding : Bool := false
  requireApprovedBy : Bool := true
  requireApprovedAt : Bool := true
  requireExpiresAt : Bool := true

/-- A permission that the policy does not name grants nothing. -/
structure Policy where
  defaultAllow : List String := []
  authorityPermissions : String → Grants := fun _ => {}
  authorityRolePermissions : String → RoleRules := fun _ => {}
  personaPermissions : String → Grants := fun _ => {}
  projectPermissions : List Char → Option ProjectPermissions := fun _ => none
  /-- `tier_restrictions.<tier>.block_message` -/
  blockMessage : DataTier → String
  tenantScope : TenantScopePolicy := {}

inductive PolicyLoad
  | loaded (policy : Policy)
  | missing
  | corrupt

structure BrokerApproval where
  purpose : Option String := none
  approvedBy : Option String := none
  approvedAt : Option String := none
  expiresAt : Option String := none

structure Identity where
  persona : String
  /-- No role is the empty text. -/
  role : String := ""
  authorities : List String := []
  sudoScope : List String := []
  /-- The empty text when no tenant is bound. -/
  tenantSlug : String := ""
  brokeredTenants : Option (List String) := none
  brokerApproval : BrokerApproval := {}

/-- Neither a tenant nor brokered tenants. -/
def Identity.isUnbound (identity : Identity) : Bool :=
  identity.tenantSlug = "" && (identity.brokeredTenants.getD []).isEmpty

structure TenantGroupProfile where
  active : Bool
  memberTenants : List String
  sharedPrefixes : List String

structure ResourceAccessScope where
  tenantSlug : String
  writeExact : List (List Char) := []
  mkdirExact : List (List Char) := []

/-- What the rules of the store grants say of a structural directory. -/
inductive StructuralMkdir
  | decided (allowed : Bool)
  | sharedChecks
  | unconcerned
  deriving DecidableEq

/-- What surrounds a request. -/
structure GuardHost where
  policy : PolicyLoad
  identity : Identity
  /-- `KYBERION_TENANT_SCOPE_REQUIRED` -/
  tenantScopeRequired : Bool := false
  missionId : Option String := none
  organizationId : String := ""
  projectId : String := ""
  stance : String := ""
  /-- The absolute path that a relative one stands for. -/
  resolvedPath : List Char → String := String.ofList
  /-- Every rule of `requestResourceDenial` can only refuse. -/
  requestResourceDenial : List Char → Operation → Option String := fun _ _ => none
  sandboxWriteDenial : List Char → Option String := fun _ => none
  isAllowedVaultMountPath : List Char → Bool := fun _ => false
  storeGrantAuthorizes : List Char → Operation → Bool := fun _ _ => false
  structuralMkdir : List Char → List Char → StructuralMkdir := fun _ _ => .unconcerned
  informationAssetCoverageReadAllowed : List Char → Bool := fun _ => false
  isRegisteredActiveTenant : String → Bool := fun _ => true
  loadTenantGroupProfile : List Char → Option TenantGroupProfile := fun _ => none
  resourceScope : Option ResourceAccessScope := none
  resourceAccessDenied : List Char → Operation → Bool := fun _ _ => false
  /-- The spellings of a path: itself and where it lies physically. -/
  denyCandidatePaths : List Char → List (List Char) := fun path => [path]
  /-- `value.normalize('NFC').toLowerCase()` -/
  foldCase : List Char → List Char := id
  /-- `new RegExp(text)`, as its `test`; no result for a text that does not compile. -/
  compile : String → Option (List Char → Bool) := fun _ => none
  dateParse : String → Option ℤ := fun _ => none
  now : ℤ := 0

section Tenants

def isValidTenantSlug (slug : List Char) : Bool :=
  isValidMemberId slug &&
    !(["public", "confidential", "personal", "shared"].contains (String.ofList slug))

structure TenantScopeConfig where
  protectedPrefixes : List String
  sharedPrefixes : List String
  systemRegistryReads : List RegistryRead
  requireTenantBinding : Bool
  slugPattern : List Char → Bool

def tenantScopeConfig (host : GuardHost) (policy : Policy) : TenantScopeConfig where
  protectedPrefixes := policy.tenantScope.protectedPrefixes.getD ["knowledge/confidential/"]
  sharedPrefixes := policy.tenantScope.sharedPrefixes.getD
    ["knowledge/confidential/heuristics/", "knowledge/confidential/relationships/"]
  systemRegistryReads := policy.tenantScope.systemRegistryReads.getD
    [⟨"knowledge/confidential/tenants/index.json", ["check_tenant_registry_consistency"]⟩]
  requireTenantBinding := policy.tenantScope.requireTenantBinding || host.tenantScopeRequired
  slugPattern := (policy.tenantScope.slugPattern.bind host.compile).getD isValidMemberId

structure TenantMatch where
  tenant : List Char
  start : String
  deriving DecidableEq

/-- The segment behind the first protected prefix that the path starts with. -/
def extractTenantFromProtectedPrefix (path : List Char) (protectedPrefixes : List String) :
    Option TenantMatch :=
  (protectedPrefixes.find? fun start => pathStartsWith path start.toList).map fun start =>
    ⟨firstSegment (path.drop start.length), start⟩

variable (host : GuardHost) (policy : Policy) (path : List Char)

def isSharedPath : Bool :=
  (tenantScopeConfig host policy).sharedPrefixes.any fun start => pathStartsWith path start.toList

/-- A registry of the system that the role may read whatever its tenant. -/
def isRegistryRead (role : String) : Bool :=
  role ≠ "" && (tenantScopeConfig host policy).systemRegistryReads.any fun entry =>
    pathStartsWith path entry.path.toList && entry.roles.contains role

def checkTenantGroupScope (identity : Identity) : Option String :=
  (extractTenantGroupFromSharedPath path).bind fun groupId =>
    let group := "'" ++ String.ofList groupId ++ "'"
    let target := "'" ++ String.ofList path ++ "'"
    match (host.loadTenantGroupProfile groupId).filter (·.active) with
    | none => some ("[POLICY_VIOLATION] tenant.group_unknown — shared tenant group " ++ group ++
        " is missing or inactive for " ++ target ++ ".")
    | some profile =>
        if (profile.sharedPrefixes.any fun start => pathStartsWith path start.toList) = false then
          some ("[POLICY_VIOLATION] tenant.group_prefix_violation — " ++ target ++
            " is not declared in tenant group " ++ group ++ ".")
        else if identity.tenantSlug = "" ∧ identity.brokeredTenants = none then none
        else if identity.tenantSlug ≠ "" ∧ profile.memberTenants.contains identity.tenantSlug then
          none
        else if (identity.brokeredTenants.getD []).any profile.memberTenants.contains then none
        else
          let actor := if identity.tenantSlug = "" then "brokered tenant set"
            else "tenant '" ++ identity.tenantSlug ++ "'"
          some ("[POLICY_VIOLATION] tenant.group_scope_violation — " ++ actor ++
            " is not a member of shared tenant group " ++ group ++ " for " ++ target ++ ".")

/-- A management write may create the tier directory above that of its own tenant. -/
def isScopedStructuralMkdir (start : String) (operation : Operation) (identity : Identity) :
    Bool :=
  let tenantSlug := identity.tenantSlug
  let tierDirectory := normalizePath start.toList
  if operation ≠ .mkdir then false
  else match host.structuralMkdir path tierDirectory with
    | .decided allowed => allowed
    | answer =>
        if host.storeGrantAuthorizes path .mkdir then
          tenantSlug ≠ "" && host.isRegisteredActiveTenant tenantSlug &&
            host.resourceScope.any (·.tenantSlug = tenantSlug)
        else if answer ≠ .sharedChecks ∧ identity.role ≠ "concierge_management_writer" then false
        else match host.resourceScope with
          | none => false
          | some resource =>
              let tenantPrefix := tierDirectory ++ '/' :: tenantSlug.toList ++ ['/']
              tenantSlug ≠ "" && isValidTenantSlug tenantSlug.toList &&
                resource.tenantSlug = tenantSlug && path = tierDirectory &&
                resource.mkdirExact.contains path && !host.resourceAccessDenied path .mkdir &&
                host.isRegisteredActiveTenant tenantSlug &&
                resource.writeExact.any fun target =>
                  tenantPrefix.isPrefixOf target && !host.resourceAccessDenied target .write

/-- `/^MSN-[A-Z0-9][A-Z0-9._-]{1,127}$/i` -/
def isLegacyMissionSegment (segment : List Char) : Bool :=
  let word (c : Char) : Bool := isDigit c || isLower c.toLower
  (segment.take 4).map Char.toUpper = "MSN-".toList &&
    match segment.drop 4 with
    | [] => false
    | c :: rest => word c && 1 ≤ rest.length && rest.length ≤ 127 &&
        rest.all fun d => word d || d = '.' || d = '_' || d = '-'

/-- What a brokered access lacks. -/
def brokerDenial (approval : BrokerApproval) : Option String :=
  let scope := policy.tenantScope
  let stated (value : Option String) : Bool := Js.trim (value.getD "") ≠ ""
  let expiresAt := Js.trim (approval.expiresAt.getD "")
  if stated approval.purpose = false then
    some ("[POLICY_VIOLATION] tenant.broker_missing_purpose — brokered access requires " ++
      "cross_tenant_brokerage.purpose.")
  else if scope.requireApprovedBy ∧ stated approval.approvedBy = false then
    some ("[POLICY_VIOLATION] tenant.broker_unapproved — brokered access requires " ++
      "cross_tenant_brokerage.approved_by.")
  else if scope.requireApprovedAt ∧ stated approval.approvedAt = false then
    some ("[POLICY_VIOLATION] tenant.broker_unapproved — brokered access requires " ++
      "cross_tenant_brokerage.approved_at.")
  else if scope.requireExpiresAt ∧ expiresAt = "" then
    some ("[POLICY_VIOLATION] tenant.broker_expiry_required — brokered access requires " ++
      "cross_tenant_brokerage.expires_at.")
  else if expiresAt ≠ "" ∧ (host.dateParse expiresAt).all (· ≤ host.now) then
    some ("[POLICY_VIOLATION] tenant.broker_expired — brokered access expired at '" ++
      expiresAt ++ "'.")
  else none

def hasValidTenant (tenant : List Char) : Bool :=
  (tenantScopeConfig host policy).slugPattern tenant && isValidTenantSlug tenant

/-- The tenant check of a path behind a protected prefix, for a caller that is bound. -/
def checkTenantSegment (operation : Operation) (identity : Identity) (found : TenantMatch) :
    Option String :=
  let targetTenant := String.ofList found.tenant
  let target := "'" ++ String.ofList path ++ "'"
  let brokered := identity.brokeredTenants.getD []
  if brokered.any fun slug => !isValidTenantSlug slug.toList then
    some ("[POLICY_VIOLATION] tenant.broker_scope_invalid — brokered tenant list contains a " ++
      "reserved or invalid tenant slug.")
  else if found.tenant = [] ∨ hasValidTenant host policy found.tenant = false then
    if isScopedStructuralMkdir host path found.start operation identity then none
    else if found.start = "active/missions/confidential/" ∧
        isLegacyMissionSegment found.tenant then none
    else
      let segment := if found.tenant = [] then "(missing)" else targetTenant
      some ("[POLICY_VIOLATION] tenant.scope_invalid_prefix — " ++ target ++
        " is under protected prefix '" ++ found.start ++ "' but tenant segment '" ++ segment ++
        "' is invalid.")
  else if identity.tenantSlug = targetTenant then none
  else if brokered.contains targetTenant then brokerDenial host policy identity.brokerApproval
  else
    let persona := if identity.tenantSlug = "" then "a tenant-bound persona"
      else "tenant '" ++ identity.tenantSlug ++ "'"
    some ("[POLICY_VIOLATION] tenant.scope_violation — persona bound to " ++ persona ++
      " attempted to access path of tenant '" ++ targetTenant ++ "' (" ++ target ++ ").")

/-- The refusal of the tenant check, if it refuses. -/
def checkTenantScope (operation : Operation) (identity : Identity) : Option String :=
  let cfg := tenantScopeConfig host policy
  let target := "'" ++ String.ofList path ++ "'"
  let found? := extractTenantFromProtectedPrefix path cfg.protectedPrefixes
  let isShared := isSharedPath host policy path || (extractTenantGroupFromSharedPath path).isSome
  if identity.authorities.contains "SUDO" then none
  else if (operation = .read ∨ operation = .metadata) ∧
      isRegistryRead host policy path identity.role then none
  else match checkTenantGroupScope host path identity with
  | some denial => some denial
  | none =>
    if cfg.requireTenantBinding ∧ identity.isUnbound ∧
        (isShared || found?.any fun found => hasValidTenant host policy found.tenant) then
      some ("[POLICY_VIOLATION] tenant.scope_missing — access to protected tenant path " ++
        target ++ " requires a server-resolved tenant binding or an approved broker scope.")
    else if cfg.requireTenantBinding ∧ identity.tenantSlug ≠ "" ∧
        host.isRegisteredActiveTenant identity.tenantSlug = false then
      some ("[POLICY_VIOLATION] tenant.inactive — tenant '" ++ identity.tenantSlug ++
        "' is not registered as active; protected tenant access is denied until activation is " ++
        "reconciled.")
    else if isShared ∨ identity.isUnbound then none
    else found?.bind fun found => checkTenantSegment host policy path operation identity found

end Tenants

end Kyberion.Guard
