import Kyberion.Approval.Decide
import Kyberion.Transition
import Mathlib.Algebra.Order.Floor.Ring
import Mathlib.Data.Rat.Floor

/-!
Requests that proceed when nobody objects. The window counts active minutes from
the delivery of the notice; a tick decides for the policy once they have passed.
Ticks, marks of delivery and decisions of people interleave between the locks:
what a tick has listed it looks at again under the lock of the record.
-/

namespace Kyberion.Approval

open Js (throwIf)

structure ActiveHours where
  start : String
  end_ : String
  timezone : String
  deriving DecidableEq, Repr

/-- The first and the third instant are `none` for a text that holds none; the second is written
by the delivery only. -/
structure ApprovalVetoWindow where
  windowMinutes : ℚ
  activeHours : Option ActiveHours := none
  deliveryDeadlineAt : Option ℤ
  deliveredAt : Option ℤ := none
  proceedsAt : Option ℤ := none
  shadow : Bool := false
  /-- `undelivered` -/
  fallback : Bool := false
  shadowElapsedAt : Option ℤ := none
  deriving DecidableEq

inductive VetoWindowState
  | awaitingDelivery | counting | elapsed | elapsedShadow | undelivered
  deriving DecidableEq, Repr

structure VetoHost extends DecisionHost where
  localMinuteOfDay : ℤ → String → Except String ℕ

/-- A digit of `/^([01]\d|2[0-3]):([0-5]\d)$/`. -/
def digitValue (c : Char) : Option ℕ :=
  if isDigit c then some (c.toNat - '0'.toNat) else none

def parseHhMm (value : String) : Except String ℕ :=
  let parsed := match value.toList with
    | [h, h', ':', m, m'] => do
        let hour := 10 * (← digitValue h) + (← digitValue h')
        let tens ← digitValue m
        let minute := 10 * tens + (← digitValue m')
        if hour < 24 ∧ tens < 6 then some (hour * 60 + minute) else none
    | _ => none
  match parsed with
  | some minute => .ok minute
  | none => .error ("[POLICY_VIOLATION] Invalid active-hours time: " ++ value)

variable (host : VetoHost)

def isWithinActiveHours (ms : ℤ) (activeHours : Option ActiveHours) : Except String Bool :=
  match activeHours with
  | none => .ok true
  | some hours => do
      let start ← parseHhMm hours.start
      let stop ← parseHhMm hours.end_
      if start = stop then .ok true
      else
        let minute ← host.localMinuteOfDay ms hours.timezone
        .ok (if start < stop then start ≤ minute && minute < stop
          else start ≤ minute || minute < stop)

/-- The loop over minutes; `scans` is how many it may still look at. -/
def scanMinutes (activeHours : Option ActiveHours) (minutes : ℕ) :
    ℕ → ℕ → ℤ → Except String (Option ℤ)
  | scans, counted, cursor =>
      if minutes ≤ counted then .ok (some cursor)
      else match scans with
        | 0 => .ok none
        | scans + 1 => do
            let active ← isWithinActiveHours host cursor activeHours
            scanMinutes activeHours minutes scans (if active then counted + 1 else counted)
              (cursor + 60000)

/-- The start of the first minute from `ms` on. -/
def nextMinute (ms : ℤ) : ℤ :=
  (ms + 59999) / 60000 * 60000

def computeVetoDeadline (startMs : ℤ) (windowMinutes : ℚ) (activeHours : Option ActiveHours) :
    Except String (Option ℤ) :=
  let minutes := ⌈windowMinutes⌉.toNat
  match activeHours with
  | none => .ok (some (startMs + minutes * 60000))
  | some _ => scanMinutes host activeHours minutes (60 * 24 * 60) 0 (nextMinute startMs)

/-- `new Date(ms).toISOString()`, read back -/
def isoInstant (ms : ℤ) : Except String ℤ :=
  throwIf (8640000000000000 < ms.natAbs) "Invalid time value" (.ok ms)

/-- A number of milliseconds as the instant of a `Date`. -/
def toInstant (ms : ℚ) : ℤ :=
  ms.num.tdiv ms.den

def buildVetoWindow (windowMinutes : ℚ) (activeHours : Option ActiveHours) (shadow : Bool)
    (deliveryGraceMinutes : Option ℚ) (now : ℤ) : Except String ApprovalVetoWindow :=
  throwIf (windowMinutes ≤ 0)
    "[POLICY_VIOLATION] Veto window requires a positive window length" <| do
  let deadline ← isoInstant (toInstant (now + deliveryGraceMinutes.getD 30 * 60000))
  .ok { windowMinutes, activeHours, deliveryDeadlineAt := some deadline, shadow }

def evaluateVetoWindow (veto : ApprovalVetoWindow) (now : ℤ) : VetoWindowState :=
  if veto.fallback then .undelivered
  else match veto.deliveredAt with
    | none =>
        if veto.deliveryDeadlineAt.all (· ≤ now) then .undelivered else .awaitingDelivery
    | some _ =>
        if veto.proceedsAt.all (now < ·) then .counting
        else if veto.shadow then .elapsedShadow else .elapsed

/-- A request with its window. -/
structure VetoRequest where
  record : DecisionRecord
  veto : Option ApprovalVetoWindow

def fallBackToDecisionUnlocked (request : VetoRequest) : VetoRequest :=
  match request.veto with
  | none => request
  | some veto =>
      if veto.fallback ∨ request.record.status ≠ .pending then request
      else { request with veto := some { veto with fallback := true } }

/-- `deliveredMs` is the instant that the receipt names, if it names one. -/
def markApprovalNotificationDelivered (deliveredMs : Option ℤ) (request : VetoRequest) :
    Except String VetoRequest :=
  match request.veto, deliveredMs with
  | none, _ => .ok request
  | some _, none => .ok request
  | some veto, some deliveredMs =>
      if request.record.status ≠ .pending ∨ veto.deliveredAt.isSome then .ok request
      else if evaluateVetoWindow veto deliveredMs = .undelivered then
        .ok (fallBackToDecisionUnlocked request)
      else do
        let proceedsAt ← computeVetoDeadline host deliveredMs veto.windowMinutes veto.activeHours
        let deliveredAt ← isoInstant deliveredMs
        match proceedsAt with
        | none =>
            .ok (fallBackToDecisionUnlocked
              { request with veto := some { veto with deliveredAt := some deliveredAt } })
        | some proceedsAt => do
            let proceedsAt ← isoInstant proceedsAt
            .ok { request with
              veto := some { veto with
                deliveredAt := some deliveredAt, proceedsAt := some proceedsAt } }

def proceedParams (record : DecisionRecord) (note : String) : DecideParams where
  channel := record.channel
  storageChannel := some record.storageChannel
  requestId := record.id
  decision := .approved
  decidedBy := "policy:veto-window"
  proof := { decidedByType := some .service, authenticated := some false }
  note := some note

/-- Whether a tick at `now` goes on with a request that it has listed. -/
def tickConsiders (now : ℤ) (request : VetoRequest) : Bool :=
  request.record.status = .pending && request.veto.any fun veto =>
    match evaluateVetoWindow veto now with
    | .undelivered | .elapsedShadow | .elapsed => true
    | .awaitingDelivery | .counting => false

/-- The record after a decision, however the call ends. -/
def decided (env : DecideEnv) (params : DecideParams) (record : DecisionRecord) : DecisionRecord :=
  ((decideApprovalRequestUnlocked host.toDecisionHost env params).run (some record)).1.getD record

/-- What a tick does under the lock of the record; `note` tells the minutes of silence. -/
def tickLocked (env : DecideEnv) (note : String) (now : ℤ) (request : VetoRequest) : VetoRequest :=
  match request.veto with
  | none => request
  | some veto =>
      if request.record.status ≠ .pending then request
      else match evaluateVetoWindow veto now with
        | .undelivered => fallBackToDecisionUnlocked request
        | .elapsedShadow =>
            match veto.shadowElapsedAt, isoInstant now with
            | none, .ok at_ =>
                { request with veto := some { veto with shadowElapsedAt := some at_ } }
            | _, _ => request
        | .elapsed =>
            { request with
              record := decided host env (proceedParams request.record note) request.record }
        | .awaitingDelivery | .counting => request

/-- A tick that is under way: it has passed the halt, and it may have listed the request. -/
structure TickRun where
  now : ℤ
  listed : Bool
  deriving DecidableEq

/-- The request and the ticks under way; `delivered` collects the instants of the deliveries that
were marked, and `fellBack` tells whether a fallback was recorded. -/
structure VetoState where
  request : VetoRequest
  ticks : List TickRun
  delivered : List ℤ
  fellBack : Bool

inductive VetoAction
  | beginTick (now : ℤ)
  | listTick (tick : TickRun)
  | settleTick (tick : TickRun) (env : DecideEnv) (note : String)
  | mark (deliveredMs : Option ℤ)
  | decide (env : DecideEnv) (params : DecideParams)

/-- The state after the request was written back. -/
def VetoState.write (s : VetoState) (request : VetoRequest) : VetoState :=
  { s with request := request, fellBack := s.fellBack || request.veto.any (·.fallback) }

/-- Steps on one request under the halt periods `halted`. -/
def vetoWindow (halted : ℤ → Bool) : Transition.System VetoState VetoAction where
  init s := s.request.record.status = .pending ∧ s.ticks = [] ∧ s.delivered = [] ∧
    s.fellBack = false ∧ ∀ veto, s.request.veto = some veto →
      veto.deliveredAt = none ∧ veto.proceedsAt = none ∧ veto.fallback = false
  step s
    | .beginTick now =>
        some (if halted now then s else { s with ticks := ⟨now, false⟩ :: s.ticks })
    | .listTick tick =>
        if tick ∈ s.ticks ∧ tick.listed = false then
          some { s with ticks :=
            if tickConsiders tick.now s.request then ⟨tick.now, true⟩ :: s.ticks.erase tick
            else s.ticks.erase tick }
        else none
    | .settleTick tick env note =>
        if tick ∈ s.ticks ∧ tick.listed = true then
          some ({ s with ticks := s.ticks.erase tick }.write
            (tickLocked host env note tick.now s.request))
        else none
    | .mark deliveredMs =>
        match markApprovalNotificationDelivered host deliveredMs s.request with
        | .error _ => some s
        | .ok request =>
            some ({ s with delivered := deliveredMs.toList ++ s.delivered }.write request)
    | .decide env params =>
        some { s with request :=
          { s.request with record := decided host env params s.request.record } }

end Kyberion.Approval
