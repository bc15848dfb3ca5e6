import Kyberion.Transition
import Kyberion.Trigger.Journal
import Mathlib.Logic.Function.Basic

/-!
The trigger runner: any number of processes that claim a trigger under the lock of the journal,
deliver it outside, and append its receipt under the lock again. A process can end at any moment,
and an operator can rotate the journal.
-/

namespace Kyberion.Trigger

open Js Transition

structure TriggerRequest where
  idempotencyKey : String
  source : TriggerSource
  createdBy : TriggerAuthoritySnapshot
  requestedAuthority : Option TriggerAuthoritySnapshot := none
  deriving DecidableEq

structure TriggerReceipt where
  idempotencyKey : String
  source : TriggerSource
  status : TriggerStatus
  deliveryId : Option String := none
  reason : Option String := none
  recordedAt : ℕ
  deriving DecidableEq

structure TriggerRunnerOptions where
  claimLeaseMs : Option ℕ := none
  maxStoreBytes : Option ℕ := none
  deriving DecidableEq

def DEFAULT_CLAIM_LEASE_MS : ℕ := 15 * 60 * 1000

/-- The options of a runner, with its lease in bounds. -/
structure TriggerRunner where
  claimLeaseMs : ℕ
  maxStoreBytes : ℕ
  lease_le : claimLeaseMs ≤ TRIGGER_STORE_MAX_CLAIM_LEASE_MS

def createTriggerRunner (options : TriggerRunnerOptions) : TriggerRunner where
  claimLeaseMs := min TRIGGER_STORE_MAX_CLAIM_LEASE_MS
    (max 1000 (options.claimLeaseMs.getD DEFAULT_CLAIM_LEASE_MS))
  maxStoreBytes := max (64 * 1024) (options.maxStoreBytes.getD TRIGGER_STORE_DEFAULT_MAX_BYTES)
  lease_le := Nat.min_le_left _ _

def receiptFrom (record : TriggerRecord) (status : TriggerStatus) : TriggerReceipt where
  idempotencyKey := record.idempotencyKey
  source := record.source
  status := status
  deliveryId := record.deliveryId.filter (· ≠ "")
  reason := record.reason.filter (· ≠ "")
  recordedAt := record.recordedAt

/-- Where a call of `run` stands: the claim it delivers under, and the receipt that waits for the
lock. `caught` says that an error is being handled. -/
inductive Phase
  | begun
  | delivering (claimed : TriggerRecord)
  | settling (claimed receipt : TriggerRecord) (caught : Bool)
  | returned (receipt : TriggerReceipt)
  | threw (message : String)
  deriving DecidableEq

/-- A call by a process; its key is trimmed. -/
structure TriggerCall where
  pid : ℕ
  runner : TriggerRunner
  request : TriggerRequest
  phase : Phase

/-- `written` holds every record that has been appended and when, and is kept by the model only. -/
structure World where
  now : ℕ := 0
  lines : List JournalLine := []
  attempts : ℕ → Option WindowFullAttempt := fun _ => none
  ended : ℕ → Bool := fun _ => false
  calls : ℕ → Option TriggerCall := fun _ => none
  written : List (ℕ × TriggerRecord) := []

/-- What a claim meets: the roles, whether the journal can be read, and processes that seem alive
because another one has their number. -/
structure ClaimHost where
  context : RoleContext
  unreadable : Option String := none
  unwritable : String := "EIO"
  seemsAlive : Bool := false
  faults : AppendFaults := {}
  deriving DecidableEq

inductive Action
  | tick (ms : ℕ)
  | start (id pid : ℕ) (options : TriggerRunnerOptions) (request : TriggerRequest)
  | claim (id : ℕ) (host : ClaimHost)
  | deliver (id : ℕ) (result : Except String (Option String))
  | settle (id : ℕ) (faults : AppendFaults)
  | lockTimeout (id : ℕ)
  | end_ (pid : ℕ)
  | rotate (pid keepStable : ℕ)

/-- How a record is printed: its bytes with the line end, and numbers in messages. -/
structure Printing where
  lineBytes : TriggerRecord → ℕ
  numberText : ℚ → String

namespace TriggerRequest

/-- The raw authorities of a request, normalized. -/
def authorities (request : TriggerRequest) :
    Except String (TriggerAuthoritySnapshot × TriggerAuthoritySnapshot) := do
  let createdBy ← normalizeAuthority request.createdBy
  let requested ← normalizeAuthority (request.requestedAuthority.getD createdBy)
  return (createdBy, requested)

end TriggerRequest

/-- The authorities a claim records, or why it is rejected. -/
def resolveAuthorities (numberText : ℚ → String) (context : RoleContext)
    (raw : TriggerAuthoritySnapshot × TriggerAuthoritySnapshot) :
    Except String (TriggerAuthoritySnapshot × TriggerAuthoritySnapshot) := do
  let createdBy ← resolveGovernedAuthority numberText context raw.1
  let requestedAuthority ← resolveGovernedAuthority numberText context raw.2
  assertNoEscalation numberText context createdBy requestedAuthority
  return (createdBy, requestedAuthority)

/-- A record that stands for a delivery that is done, or not to be done. -/
def isTerminal (record : TriggerRecord) : Bool :=
  record.status = .delivered || record.status = .rejected

/-- An earlier record of the key that makes a trigger a duplicate. -/
def blocks (record : TriggerRecord) (now : ℕ) (ownerAlive : Bool) : Bool :=
  isTerminal record ||
    (isInFlight record && (now < record.claimExpiresAt.getD 0 || ownerAlive))

namespace World

variable (w : World)

def goTo (id : ℕ) (call : TriggerCall) (phase : Phase) : World :=
  { w with calls := Function.update w.calls id (some { call with phase }) }

def view (pid : ℕ) : StoreView :=
  ⟨w.lines, w.attempts pid⟩

variable (printing : Printing)

/-- An append by a process under the lock of the journal. -/
def append (pid maxStoreBytes : ℕ) (record : TriggerRecord) (faults : AppendFaults) : World :=
  let view := appendRecord (w.view pid) record (printing.lineBytes record) maxStoreBytes w.now faults
  { w with
    lines := view.lines
    attempts := Function.update w.attempts pid view.lastAttempt
    written := if faults.appendFails then w.written else w.written ++ [(w.now, record)] }

def isProcessAlive (host : ClaimHost) (record : TriggerRecord) : Bool :=
  isInFlight record && record.claimOwnerPid.any fun pid => !w.ended pid || host.seemsAlive

/-- The record of a claim or of a rejected trigger, before it is known which. -/
def baseRecord (request : TriggerRequest)
    (authorities : TriggerAuthoritySnapshot × TriggerAuthoritySnapshot) : TriggerRecord where
  idempotencyKey := request.idempotencyKey
  source := request.source
  status := .rejected
  createdBy := authorities.1
  requestedAuthority := authorities.2
  recordedAt := w.now

def claimRecord (id : ℕ) (call : TriggerCall) (existing : Option TriggerRecord)
    (authorities : TriggerAuthoritySnapshot × TriggerAuthoritySnapshot) : TriggerRecord :=
  { w.baseRecord call.request authorities with
    status := .failed
    reason := some "delivery_pending"
    deliveryId := some call.request.idempotencyKey
    claimId := some id
    claimOwnerPid := some call.pid
    claimExpiresAt := some (w.now + call.runner.claimLeaseMs)
    attempt := some ((existing.bind (·.attempt)).getD 0 + 1) }

/-- The part of `run` under the lock of the journal. -/
def claim (id : ℕ) (call : TriggerCall) (host : ClaimHost) : World :=
  match host.unreadable with
  | some message =>
      w.goTo id call (.returned
        { idempotencyKey := call.request.idempotencyKey, source := call.request.source
          status := .failed, reason := some ("trigger_store_unreadable: " ++ message)
          recordedAt := w.now })
  | none =>
      let existing := findLatestRecord w.lines w.now call.request.idempotencyKey
      match existing.filter fun record => blocks record w.now (w.isProcessAlive host record) with
      | some record => w.goTo id call (.returned (receiptFrom record .duplicate))
      | none =>
          match call.request.authorities with
          | .error message => w.goTo id call (.threw message)
          | .ok raw =>
              match resolveAuthorities printing.numberText host.context raw with
              | .error reason =>
                  let rejected := { w.baseRecord call.request raw with reason := some reason }
                  (w.append printing call.pid call.runner.maxStoreBytes rejected host.faults).goTo id
                    call (.returned (receiptFrom rejected .rejected))
              | .ok authorities =>
                  let claimed := w.claimRecord id call existing authorities
                  let appended :=
                    w.append printing call.pid call.runner.maxStoreBytes claimed host.faults
                  if host.faults.appendFails then
                    appended.goTo id call (.returned (receiptFrom
                      { claimed with reason := some ("trigger_store_unwritable: " ++ host.unwritable) }
                      .failed))
                  else appended.goTo id call (.delivering claimed)

/-- The receipt of a delivery that has come to an end. -/
def receipt (claimed : TriggerRecord) : Except String (Option String) → TriggerRecord
  | .ok deliveryId =>
      { claimed with
        status := .delivered
        deliveryId := some ((deliveryId.filter (· ≠ "")).getD claimed.idempotencyKey)
        reason := none
        recordedAt := w.now }
  | .error message =>
      { claimed with status := .failed, reason := some message, recordedAt := w.now }

end World

/-- The error of a lock that is not obtained. -/
def lockTimeoutMessage : String :=
  "[LOCK_TIMEOUT] Failed to acquire lock for resource: trigger-store within 5000ms"

def callStep (printing : Printing) (w : World) (id : ℕ) (call : TriggerCall) :
    Phase → Action → Option World
  | .begun, .claim _ host => some (w.claim printing id call host)
  | .begun, .lockTimeout _ => some (w.goTo id call (.threw lockTimeoutMessage))
  | .delivering claimed, .deliver _ result =>
      some (w.goTo id call (.settling claimed (w.receipt claimed result) result.isOk.not))
  | .settling _ receipt _, .settle _ faults =>
      some ((w.append printing call.pid call.runner.maxStoreBytes receipt faults).goTo id call
        (.returned (receiptFrom receipt receipt.status)))
  | .settling claimed _ caught, .lockTimeout _ =>
      -- the lock of a delivered receipt is waited for inside the try block
      if caught then some (w.goTo id call (.threw lockTimeoutMessage))
      else some (w.goTo id call (.settling claimed (w.receipt claimed (.error lockTimeoutMessage)) true))
  | _, _ => none

def Action.subject : Action → Option ℕ
  | .claim id _ | .deliver id _ | .settle id _ | .lockTimeout id => some id
  | _ => none

/-- At first the journal has only lines that cannot be read, if any. -/
def triggers (printing : Printing) : Transition.System World Action where
  init w := ∃ lines, journalRecords lines = [] ∧ w = { lines }
  step w
    | .tick ms => some { w with now := w.now + ms }
    | .start id pid options request =>
        let idempotencyKey := trim request.idempotencyKey
        if w.calls id = none ∧ w.ended pid = false ∧ idempotencyKey ≠ "" then
          some { w with calls := Function.update w.calls id (some
            ⟨pid, createTriggerRunner options, { request with idempotencyKey }, .begun⟩) }
        else none
    | .end_ pid => some { w with ended := Function.update w.ended pid true }
    | .rotate pid keepStable =>
        some { w with
          lines := rotateTriggerStore w.lines keepStable w.now
          attempts := Function.update w.attempts pid none }
    | a => a.subject.bind fun id => (w.calls id).bind fun call =>
        if w.ended call.pid then none else callStep printing w id call call.phase a

end Kyberion.Trigger
