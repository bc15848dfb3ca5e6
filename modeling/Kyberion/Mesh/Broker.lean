import Kyberion.Call
import Kyberion.Latest
import Kyberion.Mesh.Delivery
import Kyberion.Transition
import Mathlib.Data.List.Sort
import Mathlib.Logic.Function.Basic

/-!
The commands of the mesh broker. One writer runs them one after another; each
reads the latest row of every delivery and appends the next one. A file that has
grown large is compacted right after an append.
-/

namespace Kyberion.Mesh

open Js

/-- The `deliveries.jsonl` and `dead-letter.jsonl` of every tenant, and the tenant directories. -/
structure Store where
  tenants : List String
  deliveries : String → List MeshHubDeliveryRecord
  deadLetters : String → List MeshDeadLetterRecord

def Store.empty : Store :=
  ⟨[], fun _ => [], fun _ => []⟩

/-- The key under which a reader enters a row: the empty id is skipped. -/
def deliveryKey (row : MeshHubDeliveryRecord) : Option String :=
  if row.deliveryId = "" then none else some row.deliveryId

namespace Store

variable (s : Store)

def addDelivery (tenant : String) (row : MeshHubDeliveryRecord) : Store :=
  { s with
    tenants := if s.tenants.contains tenant then s.tenants else s.tenants ++ [tenant]
    deliveries := Function.update s.deliveries tenant (s.deliveries tenant ++ [row]) }

def compactDeliveries (tenant : String) : Store :=
  { s with
    deliveries := Function.update s.deliveries tenant
      (compactByKey (fun row => some row.deliveryId) (s.deliveries tenant)) }

def addDeadLetter (tenant : String) (row : MeshDeadLetterRecord) : Store :=
  { s with
    tenants := if s.tenants.contains tenant then s.tenants else s.tenants ++ [tenant]
    deadLetters := Function.update s.deadLetters tenant (s.deadLetters tenant ++ [row]) }

def compactDeadLetters (tenant : String) : Store :=
  { s with
    deadLetters := Function.update s.deadLetters tenant
      (compactByKey (fun row => some row.deadLetterId) (s.deadLetters tenant)) }

/-- The latest row of a delivery of the tenant. -/
def current (tenant deliveryId : String) : Option MeshHubDeliveryRecord :=
  lastFor deliveryKey deliveryId (s.deliveries tenant)

/-- The dead letters of a delivery of the tenant. -/
def lettersOf (tenant deliveryId : String) : List MeshDeadLetterRecord :=
  (s.deadLetters tenant).filter fun row => row.deliveryId = deliveryId

end Store

abbrev MeshEnv := Env Store

abbrev MeshCall := Call Store String

variable (env : MeshEnv)

def tenantIds (s : Store) : List String :=
  (env.readdir s.tenants).filter isValidTenantSlug

def loadCurrentDeliveries (s : Store) (tenantId : Option String) : List MeshHubDeliveryRecord :=
  let tenants := match tenantId.filter (· ≠ "") with
    | some id => [id]
    | none => tenantIds env s
  latestById deliveryKey (tenants.flatMap s.deliveries)

def loadCurrentDelivery (s : Store) (deliveryId : String) (tenantId : Option String) :
    Option MeshHubDeliveryRecord :=
  if isBlank deliveryId then none
  else (loadCurrentDeliveries env s tenantId).find? fun row => row.deliveryId = trim deliveryId

def findCurrentDeliveryByIdempotency (s : Store) (request : MeshRequest) :
    Option MeshHubDeliveryRecord :=
  let tenantId := some request.tenantScope.tenantId
  (loadCurrentDelivery env s (deliveryIdForRequest env request) tenantId).or
    ((loadCurrentDeliveries env s tenantId).find? fun row =>
      row.idempotencyKey = request.idempotencyKey)

/-- The write-time fold of a file, when it is due. -/
def maintain (fold : Store → Store) : MeshCall Unit :=
  .write fun s => if env.maintains s then fold s else s

def appendDelivery (row : MeshHubDeliveryRecord) : MeshCall Unit := do
  let tenant := row.tenantScope.tenantId
  .refuse (!isValidTenantSlug tenant) ("mesh_hub_invalid_tenant_id:" ++ tenant)
  .write fun s => s.addDelivery tenant row
  maintain env fun s => s.compactDeliveries tenant

def appendDeadLetter (row : MeshDeadLetterRecord) : MeshCall Unit := do
  let tenant := row.tenantScope.tenantId
  .refuse (!isValidTenantSlug tenant) ("mesh_hub_invalid_tenant_id:" ++ tenant)
  .write fun s => s.addDeadLetter tenant row
  maintain env fun s => s.compactDeadLetters tenant

/-- The accepted and the queued row of a delivery that is new. -/
def appendNewDelivery (request : MeshRequest) (route : MeshDeliveryRoute) (now : Option String) :
    MeshCall MeshHubDeliveryRecord := do
  let expiresAt ← .lift (env.clock.later request.createdAt request.ttlMs)
  let accepted := acceptedSnapshot env request route (orElse now env.nowIso) expiresAt
  appendDelivery env accepted
  let queued := buildDeliverySnapshot env { accepted with status := .queued }
  appendDelivery env queued
  pure queued

def acceptMeshRequest (request : MeshRequest) (now : Option String) :
    MeshCall (MeshHubDeliveryRecord × Bool) := do
  .lift (validateTenantScope request)
  let s ← .read
  match findCurrentDeliveryByIdempotency env s request with
  | some current => pure (current, true)
  | none =>
      .lift (validateFreshRequest env request (now.getD env.nowIso))
      let queued ← appendNewDelivery env request (buildRoute env request "1.0.0") now
      pure (queued, false)

def enqueueMeshDelivery (request : MeshRequest) (route : Option MeshDeliveryRoute)
    (policyVersion : Option String) (now : Option String) : MeshCall MeshHubDeliveryRecord := do
  .lift (validateFreshRequest env request (now.getD env.nowIso))
  let s ← .read
  match findCurrentDeliveryByIdempotency env s request with
  | some current => pure current
  | none =>
      let route := route.getD (buildRoute env request (orElse policyVersion "1.0.0"))
      appendNewDelivery env request route now

/-- Whether a queued delivery may be dispatched at the instant. -/
def isDue (now : String) (row : MeshHubDeliveryRecord) : Bool :=
  row.status = .queued && env.clock.reached now (orElse row.retryAt row.createdAt)

/-- `a` does not come after `b` in the order of dispatch. -/
def dispatchesBefore (a b : MeshHubDeliveryRecord) : Bool :=
  ((env.localeCompare a.createdAt b.createdAt).then
    (env.localeCompare a.deliveryId b.deliveryId)) != .gt

def dispatchedRow (row : MeshHubDeliveryRecord) : MeshHubDeliveryRecord :=
  { row with status := .dispatched, attemptCount := row.attemptCount + 1 }

def claimDueMeshDeliveries (now : String) (limit : ℤ) : MeshCall (List MeshHubDeliveryRecord) := do
  let s ← .read
  let current := (((loadCurrentDeliveries env s none).filter (isDue env now)).mergeSort
    (dispatchesBefore env)).take limit.toNat
  .each (fun row => appendDelivery env (dispatchedRow row)) current
  pure (current.map dispatchedRow)

def acknowledgedRow (receipt : MeshDeliveryReceipt) (row : MeshHubDeliveryRecord) :
    MeshHubDeliveryRecord :=
  { row with status := if receipt.completed then .completed else .acknowledged }

def acknowledgeMeshDelivery (deliveryId : String) (receipt : MeshDeliveryReceipt) :
    MeshCall MeshHubDeliveryRecord := do
  let s ← .read
  match loadCurrentDelivery env s deliveryId none with
  | none => .fail ("mesh_delivery_not_found:" ++ deliveryId)
  | some current =>
      .refuse (env.clock.reached (orElse receipt.acknowledgedAt env.nowIso) current.expiresAt)
        ("mesh_delivery_expired:" ++ deliveryId)
      let next := acknowledgedRow receipt current
      appendDelivery env next
      pure next

/-- The delivery ends in `next`, and a dead letter is left of it. -/
def endDelivery (next : MeshHubDeliveryRecord) (failureClass : MeshFailureClass)
    (reason : RejectReason) : MeshCall Unit := do
  appendDelivery env next
  appendDeadLetter env (buildDeadLetter env next failureClass reason)

def RejectReason.failureClass : RejectReason → MeshFailureClass
  | .text _ => .recipientRejected
  | .details _ _ failureClass => failureClass.getD .recipientRejected

def rejectedRow (reason : RejectReason) (row : MeshHubDeliveryRecord) : MeshHubDeliveryRecord :=
  { row with status := .rejected, failureClass := some reason.failureClass }

def rejectMeshDelivery (deliveryId : String) (reason : RejectReason) :
    MeshCall MeshHubDeliveryRecord := do
  let s ← .read
  match loadCurrentDelivery env s deliveryId none with
  | none => .fail ("mesh_delivery_not_found:" ++ deliveryId)
  | some current =>
      .refuse (env.clock.reached env.nowIso current.expiresAt)
        ("mesh_delivery_expired:" ++ deliveryId)
      let next := rejectedRow reason current
      endDelivery env next reason.failureClass reason
      pure next

def expiredRow (row : MeshHubDeliveryRecord) : MeshHubDeliveryRecord :=
  { row with status := .expired, failureClass := some .expired }

/-- The statuses that a retry refuses. -/
def notRetryable (status : MeshDeliveryStatus) : Bool :=
  status = .expired || status = .deadLettered || status = .rejected || status = .acknowledged ||
    status = .completed

def exhaustedRow (row : MeshHubDeliveryRecord) : MeshHubDeliveryRecord :=
  { row with
    status := .deadLettered
    attemptCount := row.attemptCount + 1
    failureClass := some .transportError }

def requeuedRow (retryAt : String) (row : MeshHubDeliveryRecord) : MeshHubDeliveryRecord :=
  { row with
    status := .queued
    attemptCount := row.attemptCount + 1
    retryAt := some retryAt
    failureClass := some .transportError }

def retryMeshDelivery (deliveryId now : String) (retryPolicy : PartialRetryPolicy) :
    MeshCall MeshHubDeliveryRecord := do
  let s ← .read
  match loadCurrentDelivery env s deliveryId none with
  | none => .fail ("mesh_delivery_not_found:" ++ deliveryId)
  | some current =>
      -- the expiry is looked at before the status
      if env.clock.reached now current.expiresAt then
        endDelivery env (expiredRow current) .expired (.text "expired")
        pure (expiredRow current)
      else
        .refuse (notRetryable current.status) ("mesh_delivery_not_retryable:" ++ deliveryId)
        let policy := normalizeRetryPolicy retryPolicy
        let nextAttempt := current.attemptCount + 1
        if policy.maxAttempts ≤ nextAttempt then
          endDelivery env (exhaustedRow current) .transportError (.text "retry_exhausted")
          pure (exhaustedRow current)
        else
          let retryAt ← .lift (env.clock.later now (nextRetryDelayMs nextAttempt policy))
          appendDelivery env (requeuedRow retryAt current)
          pure (requeuedRow retryAt current)

/-- Whether a pass at the instant expires the delivery. -/
def expires (now : String) (row : MeshHubDeliveryRecord) : Bool :=
  (row.status = .queued || row.status = .dispatched || row.status = .accepted) &&
    !env.clock.before now row.expiresAt

def expireMeshDeliveries (now : String) : MeshCall (List MeshHubDeliveryRecord) := do
  let s ← .read
  let due := (loadCurrentDeliveries env s none).filter (expires env now)
  .each (fun row => endDelivery env (expiredRow row) .expired (.text "expired")) due
  pure (due.map expiredRow)

inductive Command
  | accept (request : MeshRequest) (now : Option String)
  | enqueue (request : MeshRequest) (route : Option MeshDeliveryRoute)
      (policyVersion now : Option String)
  | claimDue (now : String) (limit : ℤ)
  | acknowledge (deliveryId : String) (receipt : MeshDeliveryReceipt)
  | reject (deliveryId : String) (reason : RejectReason)
  | retry (deliveryId now : String) (retryPolicy : PartialRetryPolicy)
  | expire (now : String)

def Command.call : Command → MeshCall Unit
  | .accept request now => (acceptMeshRequest env request now).void
  | .enqueue request route policyVersion now =>
      (enqueueMeshDelivery env request route policyVersion now).void
  | .claimDue now limit => (claimDueMeshDeliveries env now limit).void
  | .acknowledge deliveryId receipt => (acknowledgeMeshDelivery env deliveryId receipt).void
  | .reject deliveryId reason => (rejectMeshDelivery env deliveryId reason).void
  | .retry deliveryId now retryPolicy => (retryMeshDelivery env deliveryId now retryPolicy).void
  | .expire now => (expireMeshDeliveries env now).void

structure Action where
  env : MeshEnv
  command : Command

/-- Commands one after another, each with its own clock and random texts. -/
def broker : Transition.System Store Action where
  init s := s = .empty
  step s a := some ((a.command.call a.env).run s).1

end Kyberion.Mesh
