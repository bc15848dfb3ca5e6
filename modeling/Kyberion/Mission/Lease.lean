import Kyberion.Js.Text
import Kyberion.Transition
import Mathlib.Logic.Function.Basic
import Mathlib.Order.Defs.LinearOrder
import Mathlib.Order.Lattice

/-!
Lease managers over one backend. A manager keeps its leases and a slot for each
resource; the backend keeps one record for each resource, and every call runs
under the lock of its resource. A call brings its own instant, and a number that
is not finite is `none`.
-/

namespace Kyberion.Mission

open Js

/-- The finite numbers: `add` is `none` when the sum is not one. -/
structure Numbers (T : Type) where
  zero : T
  add : T → T → Option T

/-- `FencedLeaseRecord` -/
structure FencedLeaseRecord (T : Type) where
  resourceId : String
  ownerId : String
  fence : ℕ
  expiresAtMs : T
  deriving DecidableEq

inductive StoredStatus
  | active | released
  deriving DecidableEq

structure StoredLease (T : Type) where
  leaseId : String
  resourceId : String
  holder : String
  fence : ℕ
  status : StoredStatus
  acquiredAtMs : T
  expiresAtMs : T
  renewedAtMs : T
  renewCount : ℕ
  releasedAtMs : Option T := none
  deriving DecidableEq

structure ResourceLeaseSlot (T : Type) where
  fence : ℕ
  leaseId : Option String
  contenders : List (String × T)

/-- `LEASE_INVALID_ARGUMENT`, `LEASE_SUSPENDED`, … -/
inductive MissionLeaseErrorCode
  | invalidArgument | suspended | notFound | notHolder | expired | released | superseded
  deriving DecidableEq

inductive MissionLeaseStatus
  | active | released | expired
  deriving DecidableEq

/-- What a caller is shown of a lease: `status` is that of the instant of the call. -/
structure MissionLease (T : Type) where
  lease : StoredLease T
  status : MissionLeaseStatus
  deriving DecidableEq

structure LeaseResult (T : Type) where
  ok : Bool
  lease : Option (MissionLease T) := none
  suspendedFollowers : Option (List String) := none
  issues : List MissionLeaseErrorCode := []

structure Manager (T : Type) where
  leases : String → Option (StoredLease T)
  resources : String → Option (ResourceLeaseSlot T)

def Manager.new (T : Type) : Manager T :=
  ⟨fun _ => none, fun _ => none⟩

/-- The records by lease key. -/
abbrev Backend (T : Type) := String → Option (FencedLeaseRecord T)

section Model

variable {T : Type} [LinearOrder T]

def isLive (lease : StoredLease T) (now : T) : Bool :=
  lease.status = .active && now < lease.expiresAtMs

def toPublic (lease : StoredLease T) (now : T) : MissionLease T where
  lease := lease
  status := match lease.status with
    | .active => if lease.expiresAtMs ≤ now then .expired else .active
    | .released => .released

def leaseIdFor (resource : String) (fence : ℕ) : String :=
  "lease-" ++ resource ++ "-" ++ toString fence

def toDurable (lease : StoredLease T) : FencedLeaseRecord T where
  resourceId := lease.resourceId
  ownerId := lease.holder
  fence := lease.fence
  expiresAtMs := lease.expiresAtMs

def synthesizeFromDurable (record : FencedLeaseRecord T) : StoredLease T where
  leaseId := leaseIdFor record.resourceId record.fence
  resourceId := record.resourceId
  holder := record.ownerId
  fence := record.fence
  status := .active
  acquiredAtMs := record.expiresAtMs
  expiresAtMs := record.expiresAtMs
  renewedAtMs := record.expiresAtMs
  renewCount := 0

namespace Manager

variable (m : Manager T)

def setLease (id : String) (lease : StoredLease T) : Manager T :=
  { m with leases := Function.update m.leases id (some lease) }

def setSlot (resource : String) (slot : ResourceLeaseSlot T) : Manager T :=
  { m with resources := Function.update m.resources resource (some slot) }

/-- `this.slot(resource, true)` -/
def slot (resource : String) : ResourceLeaseSlot T :=
  (m.resources resource).getD ⟨0, none, []⟩

/-- `state.lease_id ? this.leases.get(state.lease_id) : undefined` -/
def leaseOf (slot : ResourceLeaseSlot T) : Option (StoredLease T) :=
  slot.leaseId.bind m.leases

end Manager

/-- The lease is the generation of the record, as its manager knows it. -/
def matchesDurable (existing : StoredLease T) (durable : FencedLeaseRecord T) : Bool :=
  existing.fence = durable.fence && existing.holder = durable.ownerId &&
    existing.status = .active

def hydrateFromDurable (m : Manager T) (resource : String) (slot : ResourceLeaseSlot T)
    (durable : FencedLeaseRecord T) (now : T) : Manager T × Option (StoredLease T) :=
  if durable.expiresAtMs ≤ now then (m.setSlot resource slot, none)
  else
    let synthesized := synthesizeFromDurable durable
    let replaced := (m.setLease synthesized.leaseId synthesized).setSlot resource
      { slot with
        leaseId := some synthesized.leaseId
        fence := max slot.fence durable.fence }
    match m.leaseOf slot with
    | some existing =>
        if matchesDurable existing durable then
          let existing := { existing with expiresAtMs := durable.expiresAtMs }
          ((m.setSlot resource slot).setLease existing.leaseId existing, some existing)
        else (replaced, some synthesized)
    | none => (replaced, some synthesized)

/-- A local lease that the record has left behind. -/
def lapse (num : Numbers T) (durable : FencedLeaseRecord T) (now : T) (lease : StoredLease T) :
    StoredLease T :=
  let lapsed := { lease with expiresAtMs := min lease.expiresAtMs durable.expiresAtMs }
  if durable.expiresAtMs = num.zero then
    { lapsed with
      status := .released
      releasedAtMs := some (lapsed.releasedAtMs.getD now) }
  else lapsed

variable (num : Numbers T) (leaseKeyFor : String → String)

def liveLeaseOf (m : Manager T) (backend : Backend T) (resource : String) (now : T) :
    Manager T × Option (StoredLease T) :=
  match backend (leaseKeyFor resource), m.resources resource with
  | some durable, state =>
      if now < durable.expiresAtMs then
        let slot := m.slot resource
        hydrateFromDurable m resource { slot with fence := max slot.fence durable.fence } durable
          now
      else
        match state with
        | none => (m, none)
        | some slot =>
            let refreshed := m.setSlot resource { slot with fence := max slot.fence durable.fence }
            match m.leaseOf slot with
            | some lease =>
                if lease.status = .active ∧ lease.fence ≤ durable.fence then
                  (refreshed.setLease lease.leaseId (lapse num durable now lease), none)
                else (refreshed, none)
            | none => (refreshed, none)
  | none, none => (m, none)
  | none, some slot => (m, (m.leaseOf slot).filter fun lease => isLive lease now)

/-- The id under which `liveLeaseOf` enters a new object, if it does. -/
def hydratedId (m : Manager T) (backend : Backend T) (resource : String) (now : T) :
    Option String :=
  match backend (leaseKeyFor resource) with
  | some durable =>
      if durable.expiresAtMs ≤ now then none
      else if (m.leaseOf (m.slot resource)).any fun existing => matchesDurable existing durable then
        none
      else some (leaseIdFor durable.resourceId durable.fence)
  | none => none

def persistLive (backend : Backend T) (lease : StoredLease T) : Backend T :=
  Function.update backend (leaseKeyFor lease.resourceId) (some (toDurable lease))

def persistReleased (backend : Backend T) (lease : StoredLease T) : Backend T :=
  Function.update backend (leaseKeyFor lease.resourceId)
    (some { toDurable lease with expiresAtMs := num.zero })

/-- Every registered contender but the holder. -/
def suspendedUnder (slot : ResourceLeaseSlot T) (live : StoredLease T) : List String :=
  (slot.contenders.map Prod.fst).filter (· ≠ live.holder)

/-- `contenders.set(holder, now)` for a holder that is not registered. -/
def contend (slot : ResourceLeaseSlot T) (holder : String) (now : T) : ResourceLeaseSlot T :=
  if (slot.contenders.map Prod.fst).contains holder then slot
  else { slot with contenders := slot.contenders ++ [(holder, now)] }

def requiredIssues (text : String) : List MissionLeaseErrorCode :=
  if trim text = "" then [.invalidArgument] else []

def finiteIssues (now : Option T) : List MissionLeaseErrorCode :=
  if now.isNone then [.invalidArgument] else []

/-- The checks of `ttlMs` and `extendMs`, of `now` and of the deadline. -/
def durationIssues (ms now : Option T) : List MissionLeaseErrorCode :=
  (match ms with
    | some ms => if ms ≤ num.zero then [.invalidArgument] else []
    | none => [.invalidArgument]) ++
  finiteIssues now ++
  match now, ms with
  | some now, some ms =>
      match num.add now ms with
      | some deadline => if deadline ≤ now then [.invalidArgument] else []
      | none => [.invalidArgument]
  | _, _ => []

structure AcquireInput (T : Type) where
  resource : String
  holder : String
  ttlMs : Option T
  now : Option T

structure RenewInput (T : Type) where
  leaseId : String
  holder : String
  extendMs : Option T
  now : Option T

structure ReleaseInput (T : Type) where
  leaseId : String
  holder : String
  now : Option T

structure SuspendInput (T : Type) where
  resource : String
  now : Option T
  followers : List String

/-- A manager, the backend and what the call returns. -/
structure Outcome (T : Type) where
  manager : Manager T
  backend : Backend T
  result : LeaseResult T

/-- The lease of a takeover: its fence is above the slot's and the record's. -/
def takeoverLease (m : Manager T) (backend : Backend T) (resource holder : String)
    (now deadline : T) : StoredLease T :=
  let durableFence := ((backend (leaseKeyFor resource)).map fun record => record.fence).getD 0
  let nextFence := max (m.slot resource).fence durableFence + 1
  { leaseId := leaseIdFor resource nextFence
    resourceId := resource
    holder := holder
    fence := nextFence
    status := .active
    acquiredAtMs := now
    expiresAtMs := deadline
    renewedAtMs := now
    renewCount := 0 }

def acquireLease (m : Manager T) (backend : Backend T) (input : AcquireInput T) : Outcome T :=
  let resource := trim input.resource
  let holder := trim input.holder
  let issues := requiredIssues resource ++ requiredIssues holder ++
    durationIssues num input.ttlMs input.now
  match issues, input.now, input.ttlMs.bind fun ttl => input.now.bind fun now => num.add now ttl with
  | [], some now, some deadline =>
      let m := m.setSlot resource (m.slot resource)
      match liveLeaseOf num leaseKeyFor m backend resource now with
      | (m, some live) =>
          if live.holder ≠ holder then
            { manager := m.setSlot resource (contend (m.slot resource) holder now)
              backend := backend
              result := { ok := false, lease := some (toPublic live now), issues := [.suspended] } }
          else
            { manager := m
              backend := backend
              result := { ok := true, lease := some (toPublic live now) } }
      | (m, none) =>
          let stored := takeoverLease leaseKeyFor m backend resource holder now deadline
          let slot : ResourceLeaseSlot T :=
            { fence := stored.fence
              leaseId := some stored.leaseId
              contenders := (m.slot resource).contenders.filter fun row => row.1 ≠ holder }
          { manager := (m.setLease stored.leaseId stored).setSlot resource slot
            backend := persistLive leaseKeyFor backend stored
            result :=
              { ok := true
                lease := some (toPublic stored now)
                suspendedFollowers := some (suspendedUnder slot stored) } }
  | issues, _, _ => ⟨m, backend, { ok := false, issues := issues }⟩

/-- What a renewal finds wrong with the lease. -/
def renewIssues (m : Manager T) (leaseId holder : String) (stored : StoredLease T) (now : T) :
    List MissionLeaseErrorCode :=
  (if (m.resources stored.resourceId).bind (fun slot => slot.leaseId) ≠ some leaseId then
    [.superseded] else []) ++
  (if stored.status = .released then [.released]
    else if stored.expiresAtMs ≤ now then [.expired] else []) ++
  (if stored.holder ≠ holder then [.notHolder] else [])

def renewLease (m : Manager T) (backend : Backend T) (input : RenewInput T) : Outcome T :=
  let leaseId := trim input.leaseId
  let holder := trim input.holder
  let issues := requiredIssues leaseId ++ requiredIssues holder ++
    durationIssues num input.extendMs input.now
  match issues, input.now,
    input.extendMs.bind fun extend => input.now.bind fun now => num.add now extend with
  | [], some now, some deadline =>
      match m.leases leaseId with
      | none => ⟨m, backend, { ok := false, issues := [.notFound] }⟩
      | some peeked =>
          let resource := peeked.resourceId
          let refreshed := (liveLeaseOf num leaseKeyFor m backend resource now).1
          -- a fresh object in the map leaves the caller with the old one
          let orphan : Bool := hydratedId leaseKeyFor m backend resource now = some leaseId
          let stored := if orphan then peeked else (refreshed.leases leaseId).getD peeked
          match renewIssues refreshed leaseId holder stored now with
          | [] =>
              let renewed := { stored with
                expiresAtMs := deadline
                renewedAtMs := now
                renewCount := stored.renewCount + 1 }
              { manager := if orphan then refreshed else refreshed.setLease leaseId renewed
                backend := persistLive leaseKeyFor backend renewed
                result := { ok := true, lease := some (toPublic renewed now) } }
          | issues =>
              ⟨refreshed, backend,
                { ok := false, lease := some (toPublic stored now), issues := issues }⟩
  | issues, _, _ => ⟨m, backend, { ok := false, issues := issues }⟩

def releaseLease (m : Manager T) (backend : Backend T) (input : ReleaseInput T) : Outcome T :=
  let leaseId := trim input.leaseId
  let holder := trim input.holder
  let issues := requiredIssues leaseId ++ requiredIssues holder ++ finiteIssues input.now
  match issues, input.now with
  | [], some now =>
      match m.leases leaseId with
      | none => ⟨m, backend, { ok := false, issues := [.notFound] }⟩
      | some stored =>
          let releaseIssues : List MissionLeaseErrorCode :=
            (if stored.status = .released then [.released] else []) ++
            (if stored.holder ≠ holder then [.notHolder] else [])
          match releaseIssues with
          | [] =>
              let released := { stored with status := .released, releasedAtMs := some now }
              { manager := m.setLease leaseId released
                backend := persistReleased num leaseKeyFor backend released
                result := { ok := true, lease := some (toPublic released now) } }
          | issues =>
              ⟨m, backend, { ok := false, lease := some (toPublic stored now), issues := issues }⟩
  | issues, _ => ⟨m, backend, { ok := false, issues := issues }⟩

def suspendFollowers (m : Manager T) (backend : Backend T) (input : SuspendInput T) : Outcome T :=
  let resource := trim input.resource
  let issues := requiredIssues resource ++ finiteIssues input.now ++
    if input.followers.any isBlank then [.invalidArgument] else []
  match issues, input.now with
  | [], some now =>
      match m.resources resource, liveLeaseOf num leaseKeyFor m backend resource now with
      | some _, (m, some live) =>
          let others := (input.followers.map trim).filter (· ≠ live.holder)
          let slot := others.foldl (fun slot id => contend slot id now) (m.slot resource)
          { manager := m.setSlot resource slot
            backend := backend
            result := { ok := true, suspendedFollowers := some (suspendedUnder slot live) } }
      -- a slot that the call itself has made does not count
      | _, (m, _) => ⟨m, backend, { ok := false, issues := [.notFound] }⟩
  | issues, _ => ⟨m, backend, { ok := false, issues := issues }⟩

inductive LeaseOp (T : Type)
  | acquire (input : AcquireInput T)
  | renew (input : RenewInput T)
  | release (input : ReleaseInput T)
  | suspendFollowers (input : SuspendInput T)

def LeaseOp.now : LeaseOp T → Option T
  | .acquire input => input.now
  | .renew input => input.now
  | .release input => input.now
  | .suspendFollowers input => input.now

def LeaseOp.run (m : Manager T) (backend : Backend T) : LeaseOp T → Outcome T
  | .acquire input => acquireLease num leaseKeyFor m backend input
  | .renew input => renewLease num leaseKeyFor m backend input
  | .release input => releaseLease num leaseKeyFor m backend input
  | .suspendFollowers input => Mission.suspendFollowers num leaseKeyFor m backend input

/-- A lease as its holder knows it. -/
structure Holding where
  resource : String
  fence : ℕ
  holder : String
  deriving DecidableEq

/-- `told` is the expiry a holder was last told of a lease that it has not released, and `handed`
the fences that callers were given. -/
structure World (T : Type) where
  backend : Backend T
  managers : ℕ → Manager T
  clock : Option T
  told : Holding → Option T
  handed : String → List ℕ

def World.start (T : Type) : World T :=
  ⟨fun _ => none, fun _ => .new T, none, fun _ => none, fun _ => []⟩

def World.tell (w : World T) (op : LeaseOp T) (result : LeaseResult T) : World T :=
  match result.ok, result.lease with
  | true, some shown =>
      let lease := shown.lease
      let holding : Holding := ⟨lease.resourceId, lease.fence, lease.holder⟩
      match op with
      | .release _ => { w with told := Function.update w.told holding none }
      | _ =>
          { w with
            told := Function.update w.told holding (some lease.expiresAtMs)
            handed := Function.update w.handed lease.resourceId
              (lease.fence :: w.handed lease.resourceId) }
  | _, _ => w

/-- The call comes no earlier than the calls before it. -/
def World.inTime (w : World T) (op : LeaseOp T) : Bool :=
  w.clock.all fun clock => op.now.all fun now => clock ≤ now

/-- Calls by any managers, one after another under the lock of their resource. -/
def leaseManagers : Transition.System (World T) (ℕ × LeaseOp T) where
  init w := w = .start T
  step w a :=
    if w.inTime a.2 then
      let outcome := a.2.run num leaseKeyFor (w.managers a.1) w.backend
      some (World.tell
        { w with
          backend := outcome.backend
          managers := Function.update w.managers a.1 outcome.manager
          clock := a.2.now.or w.clock } a.2 outcome.result)
    else none

end Model

end Kyberion.Mission
