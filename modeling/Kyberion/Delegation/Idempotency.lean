import Kyberion.Transition
import Mathlib.Data.Int.Notation
import Mathlib.Data.List.Nodup
import Mathlib.Logic.Function.Basic

/-!
Idempotent delegation: the reservation that binds a key to one payload and one execution, and the
calls of any number of processes that compete for it. The file of one key is changed under its lock
only; the reading before the lock, the execution and the settling are steps of their own.
-/

namespace Kyberion.Delegation.Idempotency

inductive DelegationResultStatus
  | completed | failed | incomplete | cancelled
  deriving DecidableEq

structure DelegationResult where
  status : DelegationResultStatus
  outputText : String
  message : String := ""
  deriving DecidableEq

inductive ReservationStatus
  | inFlight | terminal | released
  deriving DecidableEq

structure DelegationReservation where
  payloadHash : String
  status : ReservationStatus
  reservedAt : ℤ
  ownerPid : ℕ
  ownerInstance : ℕ
  ownerHost : String
  ownerStartMarker : Option String
  heartbeatAt : ℤ
  startedAt : ℤ
  completedAt : Option ℤ := none
  result : Option DelegationResult := none
  deriving DecidableEq

/-- What lies at `reservationPath`. -/
inductive ReservationFile
  | absent
  | unreadable
  | stored (record : DelegationReservation)
  deriving DecidableEq

/-- A loaded copy of the module; `inReserve` is the call that blocks it inside `reserve`. -/
structure ModuleInstance where
  host : String
  pid : ℕ
  startMarker : Option String
  alive : Bool := true
  inFlight : Option ℕ := none
  inReserve : Option ℕ := none
  deriving DecidableEq

inductive Settlement
  | release
  | terminal (result : DelegationResult)
  deriving DecidableEq

/-- `recorded` says that the owner's own settling has been written. -/
inductive CallEnd
  | executed (result : DelegationResult) (recorded : Bool)
  | released
  | joined (result : DelegationResult) (recorded : Bool)
  | replayed (result : DelegationResult)
  | conflict (storedPayloadHash : String)
  | unreadable
  | waitTimeout
  | cancelled
  | lockFailed
  deriving DecidableEq

inductive CallPhase
  | looking
  | joining (owner : ℕ)
  | peeked (peek : Option DelegationReservation) (gone : Option String)
  | sleeping
  | reserved
  | executing (started : Bool)
  | settling (settlement : Settlement)
  | ended (outcome : CallEnd)
  deriving DecidableEq

structure DelegationCall where
  owner : ℕ
  payloadHash : String
  waitDeadline : ℤ
  phase : CallPhase
  deriving DecidableEq

/-- `begun` are the executions whose side effects have become possible, `settled` is the first
terminal record that was written. -/
structure World where
  file : ReservationFile := .absent
  instances : ℕ → Option ModuleInstance := fun _ => none
  calls : ℕ → Option DelegationCall := fun _ => none
  begun : List ℕ := []
  settled : Option (String × DelegationResult) := none

structure Host where
  buildFailedDelegationResult : String → DelegationResult
  maskSecrets : String → String
  leaseMs : ℤ
  maxWaitMs : ℤ

/-- Where a locked section or its write fails. -/
inductive Fault
  | none | beforeWrite | afterWrite
  deriving DecidableEq

section Records

variable (host : Host)

/-- `buildCompletedDelegationResult` -/
def Host.completed (text : String) : DelegationResult :=
  { status := .completed, outputText := host.maskSecrets text }

def interruptedResult (reason : String) : DelegationResult :=
  host.buildFailedDelegationResult ("[DELEGATION_INTERRUPTED] " ++ reason ++
    "; execution was assumed started, outcome unknown and side effects may exist — not re-running")

/-- The result that `replay` returns or throws. -/
def replay (record : DelegationReservation) : DelegationResult :=
  record.result.getD (host.buildFailedDelegationResult
    "[DELEGATION_REPLAY] terminal reservation carries no stored result")

/-- `alive` is what the probe of the recorded process says. -/
def ownerGoneReason (self : ℕ) (m : ModuleInstance) (now : ℤ) (alive : Bool)
    (record : DelegationReservation) : Option String :=
  if record.ownerInstance = self then some "the owning execution was lost in this process"
  else if record.ownerHost = m.host then
    if alive then none else some "the owning process exited"
  else if now - record.heartbeatAt ≤ host.leaseMs then none
  else some ("the owner on " ++ record.ownerHost ++ " stopped heartbeating")

def sameInFlightRecord (a b : DelegationReservation) : Bool :=
  a.status = .inFlight && b.status = .inFlight && a.ownerInstance = b.ownerInstance &&
    a.reservedAt = b.reservedAt

inductive ReserveOutcome
  | reserved (record : DelegationReservation)
  | settled (record : DelegationReservation)
  | replay (record : DelegationReservation)
  | wait
  | conflict (storedPayloadHash : String)
  deriving DecidableEq

def newReservation (self : ℕ) (m : ModuleInstance) (payloadHash : String) (now : ℤ) :
    DelegationReservation where
  payloadHash
  status := .inFlight
  reservedAt := now
  ownerPid := m.pid
  ownerInstance := self
  ownerHost := m.host
  ownerStartMarker := m.startMarker
  heartbeatAt := now
  startedAt := now

/-- The locked section of `reserve`, on what was read before and on what it reads now. -/
def reserve (self : ℕ) (m : ModuleInstance) (payloadHash : String) (now : ℤ)
    (peek : Option DelegationReservation) (gone : Option String) :
    Option DelegationReservation → ReserveOutcome
  | none => .reserved (newReservation self m payloadHash now)
  | some existing =>
      if existing.status = .released then .reserved (newReservation self m payloadHash now)
      else if existing.payloadHash ≠ payloadHash then .conflict existing.payloadHash
      else if existing.status = .terminal then .replay existing
      else
        match if peek.any (sameInFlightRecord · existing) then gone else none with
        | none => .wait
        | some reason => .settled { existing with
            status := .terminal
            completedAt := some now
            result := some (interruptedResult host reason) }

end Records

/-- What a call ends with, when it is the result of an execution that has been written. -/
def CallEnd.recordedResult : CallEnd → Option DelegationResult
  | .executed result true => some result
  | .joined result true => some result
  | .replayed result => some result
  | _ => none

/-- `readReservation`, which throws at a file that it cannot read. -/
def ReservationFile.read : ReservationFile → Option (Option DelegationReservation)
  | .absent => some none
  | .unreadable => none
  | .stored record => some (some record)

inductive Action
  | boot (id : ℕ) (host : String) (pid : ℕ) (startMarker : Option String)
  | crash (id : ℕ)
  | corrupt
  | call (id owner : ℕ) (payloadHash : String) (now : ℤ)
  | look (id : ℕ) (now : ℤ) (alive : Bool)
  | reserve (id : ℕ) (now : ℤ) (fault : Fault)
  | wake (id : ℕ)
  | cancel (id : ℕ)
  | abort (id : ℕ)
  | dispatch (id : ℕ)
  | start (id : ℕ) (reported : Bool)
  | value (id : ℕ) (text : String)
  | error (id : ℕ) (marker : Option Bool) (result : DelegationResult)
  | settle (id : ℕ) (now : ℤ) (written : Bool)
  | heartbeat (id : ℕ) (now : ℤ)
  | resume (id : ℕ)
  | forget (id : ℕ)

namespace World

variable (host : Host) (w : World)

def setInstance (id : ℕ) (m : ModuleInstance) : World :=
  { w with instances := Function.update w.instances id (some m) }

def goTo (id : ℕ) (c : DelegationCall) (phase : CallPhase) : World :=
  { w with calls := Function.update w.calls id (some { c with phase }) }

def write (record : DelegationReservation) : World :=
  { w with file := .stored record }

/-- Writes a terminal record; the first one is remembered. -/
def writeTerminal (record : DelegationReservation) : World :=
  { w with
    file := .stored record
    settled := w.settled.or (some (record.payloadHash, replay host record)) }

/-- The call and its live process, unless that one is inside the `reserve` of another call. -/
def running (id : ℕ) : Option (DelegationCall × ModuleInstance) :=
  (w.calls id).bind fun c => ((w.instances c.owner).filter fun m =>
    m.alive && (m.inReserve = none || m.inReserve = some id)).map fun m => (c, m)

/-- The top of the loop of `runIdempotentDelegation`, and the reading before the lock. -/
def look (id : ℕ) (now : ℤ) (alive : Bool) (c : DelegationCall) (m : ModuleInstance) : World :=
  match m.inFlight.bind fun owner => (w.calls owner).map fun joined => (owner, joined) with
  | some (owner, joined) =>
      if joined.payloadHash ≠ c.payloadHash then
        w.goTo id c (.ended (.conflict joined.payloadHash))
      else w.goTo id c (.joining owner)
  | none =>
      match w.file.read with
      | none => w.goTo id c (.ended .unreadable)
      | some peek =>
          (w.setInstance c.owner { m with inReserve := some id }).goTo id c (.peeked peek
            ((peek.filter fun r => r.status = .inFlight && r.payloadHash = c.payloadHash).bind
              (ownerGoneReason host c.owner m now alive)))

/-- The locked section: what is written, and where the call goes. -/
def reserveLocked (id : ℕ) (now : ℤ) (fault : Fault) (c : DelegationCall) (m : ModuleInstance)
    (peek : Option DelegationReservation) (gone : Option String) : World :=
  let free := w.setInstance c.owner { m with inReserve := none }
  if fault = .beforeWrite then free.goTo id c (.ended .lockFailed)
  else
    match w.file.read with
    | none => free.goTo id c (.ended .unreadable)
    | some existing =>
        match reserve host c.owner m c.payloadHash now peek gone existing with
        | .reserved record =>
            if fault = .afterWrite then (free.write record).goTo id c (.ended .lockFailed)
            else
              ((w.setInstance c.owner { m with inReserve := none, inFlight := some id }).write
                record).goTo id c .reserved
        | .settled record =>
            if fault = .afterWrite then
              (free.writeTerminal host record).goTo id c (.ended .lockFailed)
            else
              (free.writeTerminal host record).goTo id c (.ended (.replayed (replay host record)))
        | .replay record => free.goTo id c (.ended (.replayed (replay host record)))
        | .wait =>
            if c.waitDeadline ≤ now then free.goTo id c (.ended .waitTimeout)
            else free.goTo id c .sleeping
        | .conflict stored => free.goTo id c (.ended (.conflict stored))

/-- The record that `update` finds to be the caller's own and in flight. -/
def ownRecord (c : DelegationCall) : Option DelegationReservation :=
  match w.file with
  | .stored record =>
      if record.ownerInstance = c.owner ∧ record.status = .inFlight then some record else none
  | _ => none

/-- The owner's `update` of its record, and the end of its promise. -/
def settle (id : ℕ) (now : ℤ) (written : Bool) (c : DelegationCall) : Settlement → World
  | .release =>
      match w.ownRecord c, written with
      | some record, true =>
          (w.write { record with status := .released }).goTo id c (.ended .released)
      | _, _ => w.goTo id c (.ended .released)
  | .terminal result =>
      match w.ownRecord c, written with
      | some record, true =>
          (w.writeTerminal host { record with
            status := .terminal, completedAt := some now, result := some result }).goTo id c
            (.ended (.executed result true))
      | _, _ => w.goTo id c (.ended (.executed result false))

def heartbeat (now : ℤ) (c : DelegationCall) : World :=
  match w.ownRecord c with
  | some record => w.write { record with heartbeatAt := now }
  | none => w

/-- Takes the execution out of the map of its process. -/
def forget (id : ℕ) (c : DelegationCall) (m : ModuleInstance) : World :=
  if m.inFlight = some id then w.setInstance c.owner { m with inFlight := none } else w

/-- A call that waits on the promise of an execution which has ended. -/
def resume (id owner : ℕ) (c : DelegationCall) (m : ModuleInstance) : CallEnd → Option World
  | .executed result recorded => some (w.goTo id c (.ended (.joined result recorded)))
  | .released => some ((w.forget owner c m).goTo id c .looking)
  | _ => none

end World

/-- The steps of one call of a process that can run. -/
def callStep (host : Host) (w : World) (id : ℕ) (c : DelegationCall) (m : ModuleInstance) :
    CallPhase → Action → Option World
  | .looking, .look _ now alive => some (w.look host id now alive c m)
  | .peeked peek gone, .reserve _ now fault => some (w.reserveLocked host id now fault c m peek gone)
  | .sleeping, .wake _ => some (w.goTo id c .looking)
  | .sleeping, .cancel _ => some (w.goTo id c (.ended .cancelled))
  | .joining _, .cancel _ => some (w.goTo id c (.ended .cancelled))
  | .joining owner, .resume _ =>
      match w.calls owner with
      | some { phase := .ended outcome, .. } => w.resume id owner c m outcome
      | _ => none
  | .reserved, .abort _ => some (w.goTo id c (.settling .release))
  | .reserved, .dispatch _ => some (w.goTo id c (.executing false))
  | .executing started, .start _ reported =>
      if id ∈ w.begun then none
      else some ({ w with begun := w.begun ++ [id] }.goTo id c (.executing (started || reported)))
  | .executing _, .value _ text =>
      some (w.goTo id c (.settling (.terminal (host.completed text))))
  | .executing started, .error _ marker result =>
      if started = false ∧ marker = some false then some (w.goTo id c (.settling .release))
      else some (w.goTo id c (.settling (.terminal result)))
  | .executing _, .heartbeat _ now => some (w.heartbeat now c)
  | .settling settlement, .settle _ now written => some (w.settle host id now written c settlement)
  | .ended _, .forget _ => some (w.forget id c m)
  | _, _ => none

def Action.subject : Action → Option ℕ
  | .look id _ _ | .reserve id _ _ | .wake id | .cancel id | .abort id | .dispatch id
  | .start id _ | .value id _ | .error id _ _ | .settle id _ _ | .heartbeat id _ | .resume id
  | .forget id => some id
  | _ => none

/-- Any processes on any hosts, with any calls of one key; any of them can crash at any time. -/
def idempotency (host : Host) : Transition.System World Action where
  init w := w = {}
  step w
    | .boot id name pid startMarker =>
        if w.instances id = none then
          some (w.setInstance id { host := name, pid, startMarker })
        else none
    | .crash id => (w.instances id).map fun m => w.setInstance id { m with alive := false }
    | .corrupt => if w.file = .absent then none else some { w with file := .unreadable }
    | .call id owner payloadHash now =>
        if w.calls id = none ∧ (w.instances owner).any (·.alive) then
          some { w with calls := Function.update w.calls id (some
            ⟨owner, payloadHash, now + host.maxWaitMs, .looking⟩) }
        else none
    | a => a.subject.bind fun id => (w.running id).bind fun (c, m) => callStep host w id c m c.phase a

end Kyberion.Delegation.Idempotency
