import Kyberion.Grammar
import Kyberion.Js.Text
import Kyberion.Js.Throw
import Mathlib.Algebra.Order.Floor.Ring
import Mathlib.Data.Rat.Floor

/-!
Mesh requests, the delivery records made from them and the records of dead
letters. Instants are texts; what a text says is read by the clock, and a
comparison with a text that says nothing is false.
-/

namespace Kyberion.Mesh

open Js

/-- `Date` on texts: `parse` is `getTime`, `iso` is `toISOString`; `none` for `NaN` and a throw. -/
structure Clock where
  parse : String → Option ℤ
  iso : ℤ → Option String

namespace Clock

variable (clock : Clock)

/-- `nowMs(a) >= nowMs(b)` -/
def reached (a b : String) : Bool :=
  match clock.parse a, clock.parse b with
  | some x, some y => y ≤ x
  | _, _ => false

/-- `nowMs(a) < nowMs(b)` -/
def before (a b : String) : Bool :=
  match clock.parse a, clock.parse b with
  | some x, some y => x < y
  | _, _ => false

/-- `new Date(nowMs(a) + ms).toISOString()` -/
def later (a : String) (ms : ℤ) : Except String String :=
  match (clock.parse a).bind fun x => clock.iso (x + ms) with
  | some text => .ok text
  | none => .error "Invalid time value"

end Clock

inductive MeshDeliveryStatus
  | accepted | queued | dispatched | acknowledged | completed | rejected | expired | deadLettered
  deriving DecidableEq

inductive MeshFailureClass
  | transportError | policyDenied | expired | recipientRejected | deadLettered
  deriving DecidableEq

inductive MeshRequestKind
  | reviewRequest | workitemClaim | workitemHandoff | workitemStatusUpdate | capabilityQuery
  | notificationPublish
  deriving DecidableEq

inductive MeshTargetSelector
  | peer (peerId : String)
  | role (role : String)
  | capability (capabilityId : String) (version : Option String)
  | topic (topic : String)
  deriving DecidableEq

inductive MeshPayloadClassification
  | public_ | confidential
  deriving DecidableEq

structure MeshPayloadReference where
  artifactRef : String
  integrityHash : String
  storageClass : String
  deriving DecidableEq

structure MeshRequestPayload where
  classification : MeshPayloadClassification
  reference : MeshPayloadReference
  deriving DecidableEq

structure MeshTenantScope where
  tenantId : String
  scope : String
  deriving DecidableEq

inductive RouteDecision
  | direct | requiresOperatorSelection | rejected
  deriving DecidableEq

structure MeshDeliveryRoute where
  selector : MeshTargetSelector
  decision : RouteDecision
  selectedPeerId : Option String := none
  selectedAt : Option String := none
  policyVersion : String
  deriving DecidableEq

structure MeshRequest where
  requestId : String
  tenantScope : MeshTenantScope
  createdAt : String
  ttlMs : ℤ
  idempotencyKey : String
  requestKind : MeshRequestKind
  target : MeshTargetSelector
  payload : MeshRequestPayload

structure MeshHubDeliveryRecord where
  deliveryId : String
  messageId : String
  requestId : String
  tenantScope : MeshTenantScope
  requestKind : MeshRequestKind
  target : MeshTargetSelector
  payload : MeshRequestPayload
  attemptCount : ℕ
  status : MeshDeliveryStatus
  route : MeshDeliveryRoute
  createdAt : String
  idempotencyKey : String
  expiresAt : String
  retryAt : Option String := none
  failureClass : Option MeshFailureClass := none
  deriving DecidableEq

structure MeshDeadLetterRecord where
  deadLetterId : String
  deliveryId : String
  requestId : String
  tenantScope : MeshTenantScope
  requestKind : MeshRequestKind
  target : MeshTargetSelector
  payload : MeshRequestPayload
  attemptCount : ℕ
  status : MeshDeliveryStatus
  failureClass : MeshFailureClass
  redactedReason : String
  createdAt : String
  deriving DecidableEq

/-- `Partial<MeshRetryPolicy>` -/
structure PartialRetryPolicy where
  initialDelayMs : Option ℚ := none
  maxDelayMs : Option ℚ := none
  maxAttempts : Option ℚ := none

structure MeshRetryPolicy where
  initialDelayMs : ℤ
  maxDelayMs : ℤ
  maxAttempts : ℤ

inductive RejectReason
  | text (reason : String)
  | details (code redactedReason : Option String) (failureClass : Option MeshFailureClass)

structure MeshDeliveryReceipt where
  acknowledgedAt : Option String := none
  completed : Bool := false

def isReservedScopeName (slug : String) : Bool :=
  ["public", "confidential", "personal", "shared"].contains slug

def isValidTenantSlug (slug : String) : Bool :=
  isValidMemberId slug.toList && !isReservedScopeName slug

/-- A digest as `digest('hex')` prints it. -/
structure HexDigest where
  chars : List Char
  wellFormed : chars.all (fun c => isDigit c || isLower c) = true

/-- What one command reads outside the store: `uuids` is what it draws for a delivery, and
`maintains` says after which appends the file is large enough to be compacted. -/
structure Env (σ : Type) where
  clock : Clock
  nowIso : String
  uuids : String → String
  sha256 : String → HexDigest
  localeCompare : String → String → Ordering
  readdir : List String → List String
  maintains : σ → Bool

variable {σ : Type} (env : Env σ)

def Env.randomId (deliveryId namePrefix : String) : String :=
  namePrefix ++ "-" ++ env.uuids deliveryId

def deliveryIdForRequest (request : MeshRequest) : String :=
  let identity := env.sha256 (request.tenantScope.tenantId ++ ":" ++ request.idempotencyKey)
  "mhd-" ++ String.ofList (identity.chars.take 24)

def redactReason : RejectReason → String
  | .text reason => orElse (some (trim reason)) "redacted"
  | .details code redactedReason _ =>
      orElse (some (trim (orElse redactedReason (orElse code "")))) "redacted"

def normalizeRetryPolicy (input : PartialRetryPolicy) : MeshRetryPolicy where
  initialDelayMs := max 0 ⌊input.initialDelayMs.getD 1000⌋
  maxDelayMs := max 0 ⌊input.maxDelayMs.getD 60000⌋
  maxAttempts := max 1 ⌊input.maxAttempts.getD 5⌋

def nextRetryDelayMs (attemptCount : ℕ) (policy : MeshRetryPolicy) : ℤ :=
  min policy.maxDelayMs (policy.initialDelayMs * 2 ^ (attemptCount - 1))

def buildRoute (request : MeshRequest) (policyVersion : String) : MeshDeliveryRoute where
  selector := request.target
  decision := .direct
  selectedPeerId := match request.target with
    | .peer peerId => some peerId
    | _ => none
  selectedAt := some env.nowIso
  policyVersion := policyVersion

def buildDeliverySnapshot (base : MeshHubDeliveryRecord) : MeshHubDeliveryRecord :=
  { base with
    route := { base.route with
      selectedPeerId := base.route.selectedPeerId.filter (· ≠ "")
      selectedAt := base.route.selectedAt.filter (· ≠ "") }
    idempotencyKey := orElse (some base.idempotencyKey) "unknown"
    expiresAt := orElse (some base.expiresAt) (orElse (some base.createdAt) env.nowIso)
    retryAt := base.retryAt.filter (· ≠ "") }

def buildDeadLetter (snapshot : MeshHubDeliveryRecord) (failureClass : MeshFailureClass)
    (reason : RejectReason) : MeshDeadLetterRecord where
  deadLetterId := env.randomId snapshot.deliveryId "mhdl"
  deliveryId := snapshot.deliveryId
  requestId := snapshot.requestId
  tenantScope := snapshot.tenantScope
  requestKind := snapshot.requestKind
  target := snapshot.target
  payload := snapshot.payload
  attemptCount := snapshot.attemptCount
  status := snapshot.status
  failureClass := failureClass
  redactedReason := redactReason reason
  createdAt := env.nowIso

def validateTenantScope (request : MeshRequest) : Except String Unit :=
  let tenantId := request.tenantScope.tenantId
  throwIf (tenantId = "" ∨ !isValidTenantSlug tenantId)
    ("mesh_request_invalid_tenant_id:" ++ tenantId) <|
  throwIf (request.tenantScope.scope ≠ "same_tenant")
    ("mesh_request_invalid_scope:" ++ request.tenantScope.scope) <|
  .ok ()

def validateFreshRequest (request : MeshRequest) (now : String) : Except String Unit := do
  validateTenantScope request
  match env.clock.parse request.createdAt with
  | none => .error ("mesh_request_invalid_timestamps:" ++ request.requestId)
  | some createdAt =>
      throwIf ((env.clock.parse now).any fun now => createdAt + request.ttlMs ≤ now)
        ("mesh_request_expired:" ++ request.requestId) (.ok ())

/-- The first snapshot of a delivery. -/
def acceptedSnapshot (request : MeshRequest) (route : MeshDeliveryRoute) (createdAt : String)
    (expiresAt : String) : MeshHubDeliveryRecord :=
  buildDeliverySnapshot env {
    deliveryId := deliveryIdForRequest env request
    messageId := env.randomId (deliveryIdForRequest env request) "mhm"
    requestId := request.requestId
    tenantScope := request.tenantScope
    requestKind := request.requestKind
    target := request.target
    payload := request.payload
    attemptCount := 0
    status := .accepted
    route := route
    createdAt := createdAt
    idempotencyKey := request.idempotencyKey
    expiresAt := expiresAt }

/-- The statuses of a delivery that is over. -/
def MeshDeliveryStatus.terminal : MeshDeliveryStatus → Bool
  | .completed | .rejected | .expired | .deadLettered => true
  | .accepted | .queued | .dispatched | .acknowledged => false

end Kyberion.Mesh
