import Kyberion.FirstMatch
import Kyberion.Grammar
import Mathlib.Data.List.DropRight

/-!
Paths as the security policy reads them, and the roots whose partitions carry
the data of a tier. A path is the text relative to the repository, with `/`
between its segments and none at its end.
-/

namespace Kyberion.Guard

/-- `normalizeTenantPolicyPath` -/
def normalizePath (value : List Char) : List Char :=
  (value.map fun c => if c = '\\' then '/' else c).rdropWhile (· = '/')

/-- `tenantPolicyPathStartsWith`: a match ends where a segment ends. -/
def pathStartsWith (targetPath patternPath : List Char) : Bool :=
  let target := normalizePath targetPath
  let start := normalizePath patternPath
  target = start || (start ++ ['/']).isPrefixOf target

/-- The path of a request, normalized. -/
structure PolicyPath where
  text : List Char
  normal : normalizePath text = text

def firstSegment (text : List Char) : List Char :=
  text.takeWhile (· ≠ '/')

/-- `/\/(?:personal|confidential)\//u` -/
def hasProtectedSegment (text : List Char) : Bool :=
  text.tails.any fun tail =>
    "/personal/".toList.isPrefixOf tail || "/confidential/".toList.isPrefixOf tail

def isOutsideProjectRoot (path : List Char) : Bool :=
  firstSegment path = "..".toList

section Tiers

inductive DataTier
  | personal | confidential | public_
  deriving DecidableEq

def DataTier.text : DataTier → String
  | .personal => "personal"
  | .confidential => "confidential"
  | .public_ => "public"

/-- `isProtectedStorageFloorTier` -/
def DataTier.isProtected : DataTier → Bool
  | .personal | .confidential => true
  | .public_ => false

def STORAGE_DATA_TIERS : List DataTier := [.personal, .confidential, .public_]

/-- The tier that a segment names. -/
def tierOfSegment (segment : List Char) : Option DataTier :=
  STORAGE_DATA_TIERS.find? fun tier => segment = tier.text.toList

/-- What stands behind `root/`. -/
def below? (root : String) (text : List Char) : Option (List Char) :=
  (root.toList ++ ['/']).isPrefixOf? text

/-- `^root\/(personal|confidential|public)(?:\/|$)` -/
def tierAt (root : String) (text : List Char) : Option DataTier :=
  (below? root text).bind fun rest => tierOfSegment (firstSegment rest)

def tierAfterSlash (root : String) : List Char → Option DataTier
  | [] => none
  | c :: rest =>
      if c = '/' then (tierAt root rest).or (tierAfterSlash root rest)
      else tierAfterSlash root rest

/-- `(?:^|/)root/(personal|confidential|public)(?:/|$)` -/
def tierInPath (root : String) (text : List Char) : Option DataTier :=
  (tierAt root text).or (tierAfterSlash root text)

end Tiers

section Roots

def PARTITIONED_RUNTIME_STATE_ROOTS : List String :=
  ["active/shared/runtime/workspaces", "active/shared/runtime/dot",
    "active/shared/runtime/pipeline-library-runs", "active/shared/runtime/autonomy-learning",
    "active/shared/runtime/external-operations", "active/shared/runtime/hearing",
    "active/shared/runtime/discussion-create-requests", "active/shared/runtime/grants",
    "active/shared/runtime/customer-decision-invites",
    "active/shared/runtime/browser-bridge-mailbox",
    "active/shared/runtime/seam-selection-defaults",
    "active/shared/runtime/delegation-idempotency",
    "active/shared/runtime/media-generation/cost-settlements",
    "active/shared/runtime/health/api-verification",
    "active/shared/runtime/provider-attestations"]

def PARTITIONED_RUNTIME_LEDGER_ROOTS : List String :=
  ["active/shared/runtime/usage-ledger", "active/shared/runtime/execution-metrics",
    "active/shared/runtime/tenant-ledger", "active/shared/runtime/tenant-approvals",
    "active/shared/runtime/audit-mirror", "active/shared/runtime/delegation-records"]

def STORAGE_FLOOR_ROOTS : List String :=
  ["active/shared/tmp", "active/shared/staging", "active/shared/cache", "active/shared/artifacts"]

def SURFACE_MANAGEMENT_ROOT_PATH : String := "active/shared/runtime/surface-management"

/-- The roots of the tenant stores and the roles that own them. -/
def TENANT_STORE_LEDGER_ROOTS : List (String × String) :=
  [("active/shared/runtime/tenant-ledger", "tenant_ledger_store"),
    ("active/shared/runtime/tenant-approvals", "tenant_approval_store"),
    ("active/shared/runtime/audit-mirror", "audit_mirror_writer"),
    ("active/shared/runtime/delegation-records", "delegation_record_store")]

/-- `classifyStorageFloorPath`: the root of the floor and the tier of the partition. -/
def classifyStorageFloorPath (path : List Char) : Option (String × Option DataTier) :=
  (STORAGE_FLOOR_ROOTS.find? fun root =>
    path = root.toList || (root.toList ++ ['/']).isPrefixOf path).map fun root =>
      (root, tierOfSegment (firstSegment (path.drop (root.length + 1))))

def storageFloorTier (path : List Char) : Option DataTier :=
  (classifyStorageFloorPath path).bind (·.2)

def protectedFloorPartitionPrefix (path : List Char) : Option (List Char) :=
  match classifyStorageFloorPath path with
  | some (root, some tier) =>
      if tier.isProtected then some (root ++ "/" ++ tier.text ++ "/").toList else none
  | _ => none

/-- The tier of a registered partition that a protected prefix names. -/
def partitionedRuntimeTier (start : List Char) : Option DataTier :=
  (PARTITIONED_RUNTIME_LEDGER_ROOTS ++ PARTITIONED_RUNTIME_STATE_ROOTS).findSome? fun root =>
    [DataTier.personal, .confidential].find? fun tier =>
      normalizePath start = (root ++ "/" ++ tier.text).toList

/-- The path below `knowledge/` that a state partition mirrors. -/
def partitionedRuntimeStateKnowledgePath (path : List Char) : Option (List Char) :=
  PARTITIONED_RUNTIME_STATE_ROOTS.findSome? fun root =>
    (below? root path).bind fun partition =>
      (tierOfSegment (firstSegment partition)).map fun _ => "knowledge/".toList ++ partition

def partitionedRuntimeStateTierInPath (path : List Char) : Option DataTier :=
  PARTITIONED_RUNTIME_STATE_ROOTS.findSome? fun root => tierInPath root path

def isProtectedRuntimeStatePath (path : List Char) : Bool :=
  (partitionedRuntimeStateKnowledgePath path).isSome &&
    (partitionedRuntimeStateTierInPath path).any DataTier.isProtected

def isProtectedTierPath (path : List Char) : Bool :=
  ["knowledge/personal", "knowledge/confidential", "active/organizations/personal",
      "active/organizations/confidential", "active/projects/personal",
      "active/missions/confidential", "active/projects/confidential"].any
    (fun start => pathStartsWith path start.toList) ||
    (storageFloorTier path).any DataTier.isProtected || isProtectedRuntimeStatePath path

structure TenantStoreLedgerPartition where
  storeRole : String
  /-- Empty for the tier directory itself. -/
  tenant : List Char

def tenantStoreLedgerPartitionOf (path : List Char) : Option TenantStoreLedgerPartition :=
  TENANT_STORE_LEDGER_ROOTS.findSome? fun (root, storeRole) =>
    (below? root path).bind fun rest =>
      (tierOfSegment (firstSegment rest)).map fun _ =>
        ⟨storeRole, firstSegment ((rest.dropWhile (· ≠ '/')).drop 1)⟩

/-- `/^knowledge\/confidential\/shared\/([a-z][a-z0-9-]{1,30})(?:\/|$)/` -/
def extractTenantGroupFromSharedPath (path : List Char) : Option (List Char) :=
  (below? "knowledge/confidential/shared" path).bind fun rest =>
    if isValidMemberId (firstSegment rest) then some (firstSegment rest) else none

end Roots

section Matching

theorem PolicyPath.startsWith_eq (path : PolicyPath) (pattern : List Char) :
    pathStartsWith path.text pattern =
      (decide (path.text = normalizePath pattern) ||
        (normalizePath pattern ++ ['/']).isPrefixOf path.text) := by
  rw [pathStartsWith, path.normal]

theorem PolicyPath.startsWith_iff (path : PolicyPath) (pattern : List Char) :
    pathStartsWith path.text pattern = true ↔
      path.text = normalizePath pattern ∨ normalizePath pattern ++ ['/'] <+: path.text := by
  simp only [path.startsWith_eq, Bool.or_eq_true, decide_eq_true_eq, List.isPrefixOf_iff_prefix]

end Matching

end Kyberion.Guard
