import Kyberion.Approval.Assurance
import Kyberion.Approval.Use
import Kyberion.Grammar
import Kyberion.Js.Fields
import Kyberion.Js.JsonText
import Mathlib.Data.List.Sort
import Mathlib.Data.Rat.Floor

/-!
Standing grants as they are drafted, approved and stored. A draft is normalized
before its payload is hashed into the approval; a stored record that breaks the
schema or a rule of its capability is treated as absent.
-/

namespace Kyberion.Grant

open Js (Json throwIf optionalField lookup_field)
open Approval (ApprovalAssuranceLevel ApprovalPolicy)

structure GrantScope where
  tenantSlug : Option String := none
  credentialProvider : Option String := none
  credentialRef : Option String := none
  meetingSeriesIds : Option (List String) := none
  meetingUrls : Option (List String) := none
  deriving DecidableEq, Repr

inductive GrantedByRole
  | operator | memberSelf | sovereign
  deriving DecidableEq, Repr

structure GrantedBy where
  actorId : String
  role : GrantedByRole
  assurance : ApprovalAssuranceLevel
  deriving DecidableEq, Repr

structure GrantBasis where
  approvalRequestId : String
  approvalChannel : String
  deriving DecidableEq, Repr

inductive GrantActorKind
  | human | agent
  deriving DecidableEq, Repr

structure GrantRevocation where
  at_ : String
  by_ : String
  byKind : Option GrantActorKind := none
  reason : Option String := none
  auditEventId : String
  deriving DecidableEq, Repr

structure GrantRecord where
  grantId : String
  capability : String
  scope : GrantScope
  purpose : String
  grantedBy : GrantedBy
  basis : Option GrantBasis := none
  grantedAt : String
  expiresAt : String
  revoked : Option GrantRevocation := none
  auditEventId : String
  deriving DecidableEq, Repr

structure GrantDraft where
  capability : String
  tenantSlug : String
  credentialProvider : Option String := none
  credentialRef : Option String := none
  meetingSeriesIds : Option (List String) := none
  meetingUrls : Option (List String) := none
  purpose : String
  ttlDays : Option ℚ := none

/-- A draft after validation; the one that is rebuilt from a stored record may lack the tenant. -/
structure NormalizedGrantDraft where
  capability : String
  tenantSlug : Option String
  credentialProvider : Option String
  credentialRef : Option String
  meetingSeriesIds : List String
  meetingUrls : List String
  purpose : String
  ttlDays : ℕ
  deriving DecidableEq, Repr

inductive GrantScopeKey
  | tenantSlug | meeting | credentialProvider | credentialRef
  deriving DecidableEq, Repr

structure StandingGrantCapabilityPolicy where
  scopeKeys : List GrantScopeKey
  externalIo : Bool
  maxTtlDays : ℕ
  deriving DecidableEq, Repr

inductive GrantCapabilityPolicyEntry
  | standingGrant (policy : StandingGrantCapabilityPolicy)
  | perMission
  | osPermission
  deriving DecidableEq, Repr

/-- `new URL(text)`, as far as it is read -/
structure Url where
  protocol : String
  host : String
  username : String
  password : String
  pathname : String
  deriving DecidableEq, Repr

structure GrantHost extends Approval.Host where
  sha256 : String → String
  parseUrl : String → Option Url
  isDateTime : String → Bool
  capabilityPolicy : String → Option GrantCapabilityPolicyEntry
  approvalPolicy : ApprovalPolicy

def grantApprovalChannel : String := "grant-standing"

def grantApprovalConsumer : String := "grant_standing"

def dayMs : ℤ := 86400000

def grantError (code message : String) : String :=
  "[" ++ code ++ "] " ++ message

def isHex (c : Char) : Bool :=
  isDigit c || 'a' ≤ c && c ≤ 'f'

/-- `/^GRT-\d{8}-[a-f0-9]{12}$/` -/
def isGrantId (cs : List Char) : Bool :=
  match "GRT-".toList.isPrefixOf? cs with
  | none => false
  | some rest =>
      rest.length = 21 && (rest.take 8).all isDigit && rest[8]? = some '-' &&
        (rest.drop 9).all isHex

/-- `/^[a-z][a-z0-9-]{0,63}$/` -/
def isCredentialProvider (cs : List Char) : Bool :=
  isSlug cs && cs.length ≤ 64

/-- `/^[a-z0-9][a-z0-9._-]{0,63}\/[A-Z][A-Z0-9_]{0,63}$/` -/
def isCredentialRef (cs : List Char) : Bool :=
  let service := cs.takeWhile (· ≠ '/')
  let upper := fun c => decide ('A' ≤ c) && decide (c ≤ 'Z')
  (match service with
    | [] => false
    | c :: rest => (isLower c || isDigit c) && rest.length ≤ 63 &&
        rest.all fun d => isLower d || isDigit d || d = '.' || d = '_' || d = '-') &&
  match cs.drop service.length with
  | _ :: c :: rest => upper c && rest.length ≤ 63 &&
      rest.all fun d => upper d || isDigit d || d = '_'
  | _ => false

/-- The grammar of a tenant, without the reserved scope names. -/
def isValidTenantSlug (value : String) : Bool :=
  isValidMemberId value.toList &&
    !(["public", "confidential", "personal", "shared"].contains value)

section Host

variable (host : GrantHost)

def normalizeMeetingUrl (value : String) : Option String :=
  let raw := Js.trim value
  if raw = "" then none
  else match host.parseUrl raw with
    | none => none
    | some url =>
        if url.protocol ≠ "https:" ∧ url.protocol ≠ "http:" then none
        else if url.host = "" ∨ url.username ≠ "" ∨ url.password ≠ "" then none
        else
          let pathname := (url.pathname.toList.reverse.dropWhile (· = '/')).reverse
          some (host.unicode.toLowerCase url.protocol ++ "//" ++
            host.unicode.toLowerCase url.host ++ String.ofList pathname)

def requireStandingGrantPolicy (capability : String) :
    Except String StandingGrantCapabilityPolicy :=
  match host.capabilityPolicy capability with
  | none =>
      .error (grantError "unknown_capability" ("capability " ++ capability ++ " is not declared"))
  | some (.standingGrant policy) => .ok policy
  | some .perMission =>
      .error (grantError "not_standing" ("capability " ++ capability ++
        " is per_mission; it cannot be granted as a standing grant"))
  | some .osPermission =>
      .error (grantError "not_standing" ("capability " ++ capability ++
        " is os_permission; it cannot be granted as a standing grant"))

/-- `[...new Set(values)].sort(codepointCompare)` -/
def uniqueSorted (values : List String) : List String :=
  values.eraseDups.insertionSort fun a b => !Js.textLt b a

def normalizeMeetingUrls : List String → Except String (List String)
  | [] => .ok []
  | candidate :: rest =>
      match normalizeMeetingUrl host candidate with
      | none =>
          .error (grantError "invalid_input"
            ("meeting URL is not an http(s) URL: " ++ candidate))
      | some normalized => do .ok (normalized :: (← normalizeMeetingUrls rest))

def normalizeGrantDraft (draft : GrantDraft) : Except String NormalizedGrantDraft :=
  let provider := draft.credentialProvider.map Js.trim
  let reference := draft.credentialRef.map Js.trim
  let capability := Js.trim draft.capability
  throwIf (provider.any fun value => !isCredentialProvider value.toList)
    (grantError "invalid_input" "invalid credential provider") <|
  throwIf (reference.any fun value => !isCredentialRef value.toList)
    (grantError "invalid_input" "invalid credential reference") <| do
  let policy ← requireStandingGrantPolicy host capability
  throwIf (policy.scopeKeys.contains .credentialProvider ∧ provider = none)
    (grantError "invalid_input" "credential_provider is required") <|
  throwIf (policy.scopeKeys.contains .credentialRef ∧ reference = none)
    (grantError "invalid_input" "credential_ref is required") <|
  let tenant := Js.trim draft.tenantSlug
  throwIf (!isValidTenantSlug tenant)
    (grantError "invalid_input" ("invalid tenant slug: " ++ draft.tenantSlug)) <|
  let seriesIds := uniqueSorted
    (((draft.meetingSeriesIds.getD []).map Js.trim).filter (· ≠ ""))
  throwIf (seriesIds.any fun id => 512 < Js.utf16Length id)
    (grantError "invalid_input" "meeting series ids must be at most 512 characters") <| do
  let urls ← normalizeMeetingUrls host (draft.meetingUrls.getD [])
  let meetingUrls := uniqueSorted urls
  throwIf (policy.scopeKeys.contains .meeting ∧ seriesIds = [] ∧ meetingUrls = [])
    (grantError "invalid_input"
      (capability ++ " needs at least one meeting series id or meeting URL")) <|
  let purpose := Js.trim draft.purpose
  throwIf (purpose = "" ∨ 500 < Js.utf16Length purpose)
    (grantError "invalid_input" "purpose must be 1..500 characters") <|
  let ttlDays := draft.ttlDays.getD policy.maxTtlDays
  throwIf (ttlDays.den ≠ 1 ∨ ttlDays < 1 ∨ (policy.maxTtlDays : ℚ) < ttlDays)
    (grantError "invalid_input" ("lifetime must be an integer between 1 and " ++
      toString policy.maxTtlDays ++ " days for " ++ capability)) <|
  .ok
    { capability
      tenantSlug := some tenant
      credentialProvider := provider
      credentialRef := reference
      meetingSeriesIds := seriesIds
      meetingUrls
      purpose
      ttlDays := ttlDays.num.toNat }

/-- The schema of a stored record, as far as the types leave it open. -/
def matchesSchema (record : GrantRecord) : Bool :=
  let items := fun (values : Option (List String)) bound =>
    values.all fun values => values.Nodup ∧ values.all fun value => value ≠ "" ∧ value.length ≤ bound
  isGrantId record.grantId.toList && record.capability ≠ "" &&
    record.scope.credentialProvider.all (isCredentialProvider ·.toList) &&
    record.scope.credentialRef.all (isCredentialRef ·.toList) &&
    record.scope.tenantSlug.all (isValidMemberId ·.toList) &&
    items record.scope.meetingSeriesIds 512 && items record.scope.meetingUrls 2048 &&
    record.purpose ≠ "" && record.purpose.length ≤ 500 && record.grantedBy.actorId ≠ "" &&
    (record.basis.all fun basis => basis.approvalRequestId ≠ "" && basis.approvalChannel ≠ "") &&
    host.isDateTime record.grantedAt && host.isDateTime record.expiresAt &&
    (record.revoked.all fun revoked => host.isDateTime revoked.at_ && revoked.by_ ≠ "" &&
      (revoked.reason.all fun reason => reason.length ≤ 500) && revoked.auditEventId ≠ "") &&
    record.auditEventId ≠ ""

/-- The rules of the capability that the scope and the basis break. -/
def policyErrors (policy : StandingGrantCapabilityPolicy) (record : GrantRecord) : List String :=
  let missing := fun key (value : Option String) =>
    policy.scopeKeys.contains key && !value.any (· ≠ "")
  let named := fun (values : Option (List String)) => values.any (· ≠ [])
  (if missing .credentialProvider record.scope.credentialProvider then
    ["scope.credential_provider is required"] else []) ++
  (if missing .credentialRef record.scope.credentialRef then
    ["scope.credential_ref is required"] else []) ++
  (if missing .tenantSlug record.scope.tenantSlug then
    ["scope.tenant_slug is required"] else []) ++
  (if policy.scopeKeys.contains .meeting && !named record.scope.meetingSeriesIds &&
      !named record.scope.meetingUrls then
    ["scope needs at least one meeting series id or meeting URL"] else []) ++
  if policy.externalIo && !record.basis.any (·.approvalRequestId ≠ "") then
    ["external_io capability requires basis.approval_request_id"] else []

def timeErrors (policy : Option StandingGrantCapabilityPolicy) (record : GrantRecord) :
    List String :=
  let granted := host.dateParse record.grantedAt
  let expires := host.dateParse record.expiresAt
  (if !granted.any fun granted => expires.any (granted < ·) then
    ["expires_at must be after granted_at"] else []) ++
  (match policy, granted, expires with
    | some policy, some granted, some expires =>
        if policy.maxTtlDays * dayMs < expires - granted then
          ["grant lifetime exceeds " ++ toString policy.maxTtlDays ++ " days"] else []
    | _, _, _ => []) ++
  match record.revoked.bind (host.dateParse ·.at_), granted with
  | some revoked, some granted =>
      if revoked < granted then ["revoked.at must not precede granted_at"] else []
  | _, _ => []

/-- The rules that the record breaks, beyond its schema. -/
def semanticErrors (record : GrantRecord) : List String :=
  let policy := requireStandingGrantPolicy host record.capability
  (match policy with
    | .error message => [message]
    | .ok _ => []) ++
  (if record.scope.tenantSlug.any (!isValidTenantSlug ·) then
    ["scope.tenant_slug is not a valid tenant slug"] else []) ++
  ((record.scope.meetingUrls.getD []).filter (fun url => normalizeMeetingUrl host url ≠ some url)).map
    ("meeting URL is not normalized: " ++ ·) ++
  (match policy with
    | .error _ => []
    | .ok policy => policyErrors policy record) ++
  timeErrors host policy.toOption record

/-- What is wrong with a record; the texts about its schema are left out. -/
def validateGrantRecord (record : GrantRecord) : Except (List String) Unit :=
  throwIf (!matchesSchema host record) [] <|
  throwIf (semanticErrors host record ≠ []) (semanticErrors host record) <|
  .ok ()

end Host

def grantApprovalEffectBinding (draft : NormalizedGrantDraft) : String :=
  "grant-standing:" ++ draft.capability ++ ":" ++ draft.tenantSlug.getD "undefined" ++
    match draft.credentialProvider with
    | some provider => ":" ++ provider
    | none => ""

/-- Every field the human approved, under the keys in the order in which they are hashed. -/
def grantApprovalPayload (draft : NormalizedGrantDraft) : Json :=
  .obj ([("action", .str "grant_standing"), ("capability", .str draft.capability)] ++
    optionalField "credential_provider" (draft.credentialProvider.map .str) ++
    optionalField "credential_ref" (draft.credentialRef.map .str) ++
    [("effect", .str (grantApprovalEffectBinding draft)),
      ("meeting_series_ids", .arr (draft.meetingSeriesIds.map .str)),
      ("meeting_urls", .arr (draft.meetingUrls.map .str)),
      ("purpose", .str draft.purpose)] ++
    optionalField "tenant_slug" (draft.tenantSlug.map .str) ++
    [("ttl_days", .nat draft.ttlDays)])

def computeApprovalPayloadHash (host : GrantHost) (payload : Json) : String :=
  host.sha256 payload.stringify

section Payload

variable {draft draft' : NormalizedGrantDraft}

theorem exact_strings (values : List String) : Json.exactItems (values.map .str) = true := by
  induction values with
  | nil => rfl
  | cons value values ih => simpa [Json.exactItems, Json.exact] using ih

theorem exact_grantApprovalPayload (draft : NormalizedGrantDraft) :
    (grantApprovalPayload draft).exact = true := by
  have happend : ∀ fields fields' : List (String × Json), Json.exactFields (fields ++ fields') =
      (Json.exactFields fields && Json.exactFields fields') := by
    intro fields fields'
    induction fields with
    | nil => rfl
    | cons field fields ih => simp [Json.exactFields, ih, Bool.and_assoc]
  have hoptional : ∀ key (value : Option String),
      Json.exactFields (optionalField key (value.map .str)) = true := by
    intro key value
    cases value <;> rfl
  simp [grantApprovalPayload, Json.exact, happend, hoptional, Json.exactFields, exact_strings,
    Json.nat]

/-- The payload tells everything about the draft. -/
theorem grantApprovalPayload_inj (h : grantApprovalPayload draft = grantApprovalPayload draft') :
    draft = draft' := by
  have hlookup : ∀ key, (grantApprovalPayload draft).get key =
      (grantApprovalPayload draft').get key := fun key => by rw [h]
  have hstr : ∀ value value' : Option String, value.map Json.str = value'.map Json.str →
      value = value' := fun _ _ heq => Option.map_injective (fun _ _ => Json.str.inj) heq
  have hstrs : ∀ values values' : List String, values.map Json.str = values'.map Json.str →
      values = values' := fun _ _ heq => List.map_injective_iff.mpr (fun _ _ => Json.str.inj) heq
  simp only [grantApprovalPayload, Json.get] at hlookup
  have hcapability : draft.capability = draft'.capability := by
    simpa [lookup_field, List.lookup_append] using hlookup "capability"
  have hprovider : draft.credentialProvider.map Json.str =
      draft'.credentialProvider.map Json.str := by
    simpa [lookup_field, List.lookup_append] using hlookup "credential_provider"
  have href : draft.credentialRef.map Json.str = draft'.credentialRef.map Json.str := by
    simpa [lookup_field, List.lookup_append] using hlookup "credential_ref"
  have hseries : draft.meetingSeriesIds.map Json.str = draft'.meetingSeriesIds.map Json.str := by
    simpa [lookup_field, List.lookup_append] using hlookup "meeting_series_ids"
  have hurls : draft.meetingUrls.map Json.str = draft'.meetingUrls.map Json.str := by
    simpa [lookup_field, List.lookup_append] using hlookup "meeting_urls"
  have hpurpose : draft.purpose = draft'.purpose := by
    simpa [lookup_field, List.lookup_append] using hlookup "purpose"
  have htenant : draft.tenantSlug.map Json.str = draft'.tenantSlug.map Json.str := by
    simpa [lookup_field, List.lookup_append] using hlookup "tenant_slug"
  have httl : Json.nat draft.ttlDays = Json.nat draft'.ttlDays := by
    simpa [lookup_field, List.lookup_append] using hlookup "ttl_days"
  cases draft
  cases draft'
  simp only [NormalizedGrantDraft.mk.injEq]
  exact ⟨hcapability, hstr _ _ htenant, hstr _ _ hprovider, hstr _ _ href, hstrs _ _ hseries,
    hstrs _ _ hurls, hpurpose, Json.nat_inj httl⟩

/-- With a hash free of collisions, so does the hash. -/
theorem payloadHash_inj {host : GrantHost} (hsha : Function.Injective host.sha256)
    (h : computeApprovalPayloadHash host (grantApprovalPayload draft) =
      computeApprovalPayloadHash host (grantApprovalPayload draft')) : draft = draft' := by
  have hprinted := Json.stringify_eq_iff.mp (hsha h)
  rw [Json.printed_of_exact _ (exact_grantApprovalPayload draft),
    Json.printed_of_exact _ (exact_grantApprovalPayload draft')] at hprinted
  exact grantApprovalPayload_inj hprinted

end Payload

end Kyberion.Grant
