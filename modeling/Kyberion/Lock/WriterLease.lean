import Kyberion.Js.Text
import Kyberion.Transition
import Mathlib.Algebra.Order.Field.Rat
import Mathlib.Logic.Function.Basic

/-!
The fenced lease of one writer: a durable record whose fence grows with every acquisition, read and
written under a lock, and checked again when the protected callback has ended.
-/

namespace Kyberion.WriterLease

open Js

structure FencedWriterLease where
  resourceId : String
  ownerId : String
  fence : ℕ
  expiresAtMs : ℚ
  deriving DecidableEq

/-- What lies at the lease path. -/
inductive LeaseFile
  | absent
  | corrupt
  | stored (lease : FencedWriterLease)
  deriving DecidableEq

/-- `readLease`, which throws at a record that is corrupt. -/
def LeaseFile.read : LeaseFile → Option (Option FencedWriterLease)
  | .absent => some none
  | .corrupt => none
  | .stored lease => some (some lease)

structure LeaseOptions where
  resourceId : String
  ownerId : String
  leasePath : String
  ttlMs : Option ℚ := none
  renewEveryMs : Option ℚ := none
  deriving DecidableEq

section Validate

/-- The trimmed names and the duration, or what the options are refused with. -/
def validateLeaseOptions (options : LeaseOptions) : Except String (String × String × ℚ) :=
  let resourceId := trim options.resourceId
  let ownerId := trim options.ownerId
  let ttlMs := options.ttlMs.getD 30000
  if resourceId = "" then .error "[WRITER_LEASE] resourceId is required"
  else if ownerId = "" then .error "[WRITER_LEASE] ownerId is required"
  else if trim options.leasePath = "" then .error "[WRITER_LEASE] leasePath is required"
  else if ttlMs ≤ 0 then .error "[WRITER_LEASE] ttlMs must be positive"
  else .ok (resourceId, ownerId, ttlMs)

def validateRenewalInterval (renewEveryMs : Option ℚ) (ttlMs : ℚ) : Except String Unit :=
  match renewEveryMs with
  | none => .ok ()
  | some every =>
      if every ≤ 0 ∨ ttlMs ≤ every then
        .error "[WRITER_LEASE] renewEveryMs must be positive and less than ttlMs"
      else .ok ()

end Validate

/-- The record is the token's, and has not expired. -/
def owns (token : FencedWriterLease) (nowMs : ℚ) (current : FencedWriterLease) : Bool :=
  current.resourceId = token.resourceId && current.ownerId = token.ownerId &&
    current.fence = token.fence && nowMs < current.expiresAtMs

/-- `assertFencedWriterLease`, true when it does not throw. -/
def assertFencedWriterLease (file : LeaseFile) (expected : FencedWriterLease) (nowMs : ℚ) : Bool :=
  match file with
  | .stored current => owns expected nowMs current
  | _ => false

/-- What a call wants: to run a callback under a lease of its own, or to extend a given one. -/
inductive Task
  | guard
  | renew (token : FencedWriterLease)
  deriving DecidableEq

inductive Outcome
  | returned
  | renewed (lease : FencedWriterLease)
  | threw (code : String)
  | failed
  | crashed
  deriving DecidableEq

/-- `acquiring`, `renewing` and `finishing` stand between a read of the record and the write that
relies on it; `starting` and `confirming` between a write and the check that follows it; `checked`
between the check after the callback and the reading of `finally`. -/
inductive Phase
  | waiting
  | holding
  | acquiring (seen : Option FencedWriterLease) (nowMs : ℚ)
  | starting (lease : FencedWriterLease)
  | running (lease : FencedWriterLease) (renewalError : Bool)
  | renewing (token : FencedWriterLease) (renewalError : Bool) (seen : FencedWriterLease) (nowMs : ℚ)
  | confirming (token : FencedWriterLease) (renewalError : Bool) (extended : FencedWriterLease)
  | checked (lease : FencedWriterLease) (returns : Bool)
  | finishing (lease : FencedWriterLease) (returns : Bool) (seen : FencedWriterLease)
  | ended (outcome : Outcome)
  deriving DecidableEq

structure LeaseCall where
  resourceId : String
  ownerId : String
  ttlMs : ℚ
  renews : Bool
  task : Task
  phase : Phase
  deriving DecidableEq

/-- `returned` when the callback has ended and the lease is found to be its own still. -/
inductive Event
  | acquired (call fence : ℕ)
  | returned (call fence : ℕ)
  deriving DecidableEq

structure World where
  file : LeaseFile := .absent
  locks : String → Option ℕ := fun _ => none
  calls : ℕ → Option LeaseCall := fun _ => none
  log : List Event := []

inductive Action
  | enter (id : ℕ) (options : LeaseOptions) (task : Task)
  | lock (id : ℕ)
  | read (id : ℕ) (nowMs : ℚ)
  | write (id : ℕ)
  | renew (id : ℕ) (nowMs : ℚ)
  | finish (id : ℕ) (nowMs : ℚ) (ok : Bool)
  | crash (id : ℕ)
  | reclaim (resourceId : String)
  | lose (resourceId : String)
  | damage
  deriving DecidableEq

namespace World

variable (w : World)

def goTo (id : ℕ) (c : LeaseCall) (phase : Phase) : World :=
  { w with calls := Function.update w.calls id (some { c with phase }) }

/-- The end of a call gives its lock back, if it still has it. -/
def leave (id : ℕ) (c : LeaseCall) (outcome : Outcome) : World :=
  { w.goTo id c (.ended outcome) with
    locks := if w.locks c.resourceId = some id then Function.update w.locks c.resourceId none
      else w.locks }

def write (lease : FencedWriterLease) : World :=
  { w with file := .stored lease }

def record (event : Event) : World :=
  { w with log := w.log ++ [event] }

/-- The read of a call that has just got the lock. -/
def read (id : ℕ) (nowMs : ℚ) (c : LeaseCall) : World :=
  match w.file.read with
  | none => w.leave id c (.threw "WRITER_LEASE_CORRUPT")
  | some current =>
      match c.task with
      | .guard =>
          if current.any fun lease => nowMs < lease.expiresAtMs then
            w.leave id c (.threw "WRITER_LEASE_BUSY")
          else w.goTo id c (.acquiring current nowMs)
      | .renew token =>
          match current.filter
            (owns { token with resourceId := c.resourceId, ownerId := c.ownerId } nowMs) with
          | none => w.leave id c (.threw "WRITER_LEASE_FENCED")
          | some seen => w.goTo id c (.renewing token false seen nowMs)

/-- `(current?.fence ?? 0) + 1` -/
def nextFence (current : Option FencedWriterLease) : ℕ :=
  (current.map (·.fence)).getD 0 + 1

/-- The write of a new lease. -/
def acquire (id : ℕ) (nowMs : ℚ) (c : LeaseCall) (seen : Option FencedWriterLease) : World :=
  let lease : FencedWriterLease :=
    ⟨c.resourceId, c.ownerId, nextFence seen, nowMs + c.ttlMs⟩
  ((w.write lease).record (.acquired id lease.fence)).goTo id c (.starting lease)

/-- What a failing check of a call that is not inside its callback throws. -/
def refuse (id : ℕ) (c : LeaseCall) : World :=
  w.leave id c (.threw (if w.file = .corrupt then "WRITER_LEASE_CORRUPT" else "WRITER_LEASE_FENCED"))

/-- The check of the new lease, before the callback. -/
def start (id : ℕ) (nowMs : ℚ) (c : LeaseCall) (lease : FencedWriterLease) : World :=
  if assertFencedWriterLease w.file lease nowMs then w.goTo id c (.running lease false)
  else w.refuse id c

/-- The write of an extended lease. -/
def extend (id : ℕ) (nowMs : ℚ) (c : LeaseCall) (token : FencedWriterLease)
    (renewalError : Bool) (seen : FencedWriterLease) : World :=
  let extended : FencedWriterLease := { seen with expiresAtMs := nowMs + c.ttlMs }
  (w.write extended).goTo id c (.confirming token renewalError extended)

/-- The check of an extended lease. A renewal inside the callback keeps the callback running. -/
def confirm (id : ℕ) (nowMs : ℚ) (c : LeaseCall) (token : FencedWriterLease)
    (renewalError : Bool) (extended : FencedWriterLease) : World :=
  let holds := assertFencedWriterLease w.file extended nowMs
  match c.task with
  | .guard => w.goTo id c (.running token (renewalError || !holds))
  | .renew _ => if holds then w.leave id c (.renewed extended) else w.refuse id c

/-- The end of the callback, and the check that its result stands. -/
def finish (id : ℕ) (nowMs : ℚ) (ok : Bool) (c : LeaseCall) (lease : FencedWriterLease)
    (renewalError : Bool) : World :=
  if ok && !renewalError && assertFencedWriterLease w.file lease nowMs then
    (w.record (.returned id lease.fence)).goTo id c (.checked lease true)
  else w.goTo id c (.checked lease false)

/-- The reading of `finally`. -/
def settle (id : ℕ) (c : LeaseCall) (lease : FencedWriterLease) (returns : Bool) : World :=
  match w.file with
  | .stored latest =>
      if latest.resourceId = lease.resourceId ∧ latest.ownerId = lease.ownerId ∧
          latest.fence = lease.fence then w.goTo id c (.finishing lease returns latest)
      else w.leave id c (if returns then .returned else .failed)
  | .absent => w.leave id c (if returns then .returned else .failed)
  | .corrupt => w.leave id c (.threw "WRITER_LEASE_CORRUPT")

/-- The write that releases the lease, and the end of the call. -/
def release (id : ℕ) (c : LeaseCall) (lease : FencedWriterLease) (returns : Bool) : World :=
  (w.write { lease with expiresAtMs := 0 }).leave id c (if returns then .returned else .failed)

/-- The read of a renewal by the timer of a running callback. -/
def startRenewal (id : ℕ) (nowMs : ℚ) (c : LeaseCall) (lease : FencedWriterLease)
    (renewalError : Bool) : World :=
  match w.file with
  | .stored current =>
      if owns lease nowMs current then w.goTo id c (.renewing lease renewalError current nowMs)
      else w.goTo id c (.running lease true)
  | _ => w.goTo id c (.running lease true)

end World

def callStep (w : World) (id : ℕ) (c : LeaseCall) : Phase → Action → Option World
  | .waiting, .lock _ =>
      if w.locks c.resourceId = none then
        some { w.goTo id c .holding with locks := Function.update w.locks c.resourceId (some id) }
      else none
  | .holding, .read _ nowMs => some (w.read id nowMs c)
  | .acquiring seen nowMs, .write _ => some (w.acquire id nowMs c seen)
  | .starting lease, .read _ nowMs => some (w.start id nowMs c lease)
  | .running lease renewalError, .renew _ nowMs =>
      if c.renews then some (w.startRenewal id nowMs c lease renewalError) else none
  | .renewing token renewalError seen nowMs, .write _ =>
      some (w.extend id nowMs c token renewalError seen)
  | .confirming token renewalError extended, .read _ nowMs =>
      some (w.confirm id nowMs c token renewalError extended)
  | .running lease renewalError, .finish _ nowMs ok =>
      some (w.finish id nowMs ok c lease renewalError)
  | .checked lease returns, .read _ _ => some (w.settle id c lease returns)
  | .finishing lease returns _, .write _ => some (w.release id c lease returns)
  | .ended _, .crash _ => none
  | _, .crash _ => some (w.goTo id c (.ended .crashed))
  | _, _ => none

def Action.subject : Action → Option ℕ
  | .lock id | .read id _ | .write id | .renew id _ | .finish id _ _ | .crash id => some id
  | _ => none

/-- `assertLeaseIdentity`, true when it does not throw. -/
def assertLeaseIdentity (options : LeaseOptions) : Task → Bool
  | .guard => true
  | .renew token => token.resourceId = options.resourceId && token.ownerId = options.ownerId

/-- The call that the options admit. -/
def newCall (options : LeaseOptions) (task : Task) : Option LeaseCall :=
  match validateLeaseOptions options with
  | .error _ => none
  | .ok (resourceId, ownerId, ttlMs) =>
      match validateRenewalInterval options.renewEveryMs ttlMs with
      | .error _ => none
      | .ok () =>
          if assertLeaseIdentity options task then
            some ⟨resourceId, ownerId, ttlMs, options.renewEveryMs.isSome, task, .waiting⟩
          else none

/-- Any calls on one lease path, any of which can crash; the lock of a dead call is reclaimed, and a
backend can lose the lock of a live one. -/
def writerLease : Transition.System World Action where
  init w := w = {}
  step w
    | .enter id options task =>
        if w.calls id = none then (newCall options task).map fun c =>
          { w with calls := Function.update w.calls id (some c) }
        else none
    | .reclaim resourceId =>
        match (w.locks resourceId).bind w.calls with
        | some { phase := .ended _, .. } =>
            some { w with locks := Function.update w.locks resourceId none }
        | _ => none
    | .lose resourceId => some { w with locks := Function.update w.locks resourceId none }
    | .damage => some { w with file := .corrupt }
    | a => a.subject.bind fun id => (w.calls id).bind fun c => callStep w id c c.phase a

end Kyberion.WriterLease
