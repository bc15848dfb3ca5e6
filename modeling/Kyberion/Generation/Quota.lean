import Kyberion.Mission.EventScope
import Kyberion.Transition
import Mathlib.Algebra.Order.Field.Rat
import Mathlib.Logic.Function.Basic

/-!
The daily quota of generation jobs: one counter for each tenant and day, changed under its lock, and
the scheduled runs that reserve units, submit a job, and give the units back when there is none.
Units are exact numbers here, as whole ones are in the code.
-/

namespace Kyberion.Generation

open Mission Transition

structure GenerationQuotaOverride where
  maxUnitsPerDay : Option ℚ := none
  warnRatio : Option ℚ := none
  operationUnits : Option (List (String × ℚ)) := none
  deriving DecidableEq

structure GenerationQuotaPolicy where
  maxUnitsPerDay : ℚ
  warnRatio : ℚ
  operationUnits : List (String × ℚ)
  tenantOverrides : List (String × GenerationQuotaOverride) := []
  deriving DecidableEq

def DEFAULT_GENERATION_QUOTA_POLICY : GenerationQuotaPolicy where
  maxUnitsPerDay := 100
  warnRatio := 4 / 5
  operationUnits :=
    [("generate_image", 1), ("generate_video", 10), ("generate_music", 10), ("run_workflow", 5)]

def positiveUnits (units : List (String × ℚ)) : List (String × ℚ) :=
  units.filter fun entry => 0 < entry.2

/-- The values of an override that can be used, if any. -/
def readOverride (raw : GenerationQuotaOverride) : Option GenerationQuotaOverride :=
  let override : GenerationQuotaOverride :=
    { maxUnitsPerDay := raw.maxUnitsPerDay.filter (0 < ·)
      warnRatio := raw.warnRatio.filter fun ratio => 0 < ratio && ratio ≤ 1
      operationUnits := (raw.operationUnits.map positiveUnits).filter (· ≠ []) }
  if override = {} then none else some override

/-- The policy of a parsed file, with defaults for what is not positive. -/
def readPolicy (parsed : GenerationQuotaPolicy) : GenerationQuotaPolicy where
  maxUnitsPerDay := if 0 < parsed.maxUnitsPerDay then parsed.maxUnitsPerDay
    else DEFAULT_GENERATION_QUOTA_POLICY.maxUnitsPerDay
  warnRatio := if 0 < parsed.warnRatio ∧ parsed.warnRatio ≤ 1 then parsed.warnRatio
    else DEFAULT_GENERATION_QUOTA_POLICY.warnRatio
  operationUnits := if positiveUnits parsed.operationUnits ≠ [] then
      positiveUnits parsed.operationUnits
    else DEFAULT_GENERATION_QUOTA_POLICY.operationUnits
  tenantOverrides := parsed.tenantOverrides.filterMap fun entry =>
    (readOverride entry.2).map fun override => (entry.1, override)

structure EffectivePolicy where
  limit : ℚ
  warnRatio : ℚ
  units : ℚ
  deriving DecidableEq

/-- What a policy says of one tenant and action. -/
def effectivePolicy (policy : GenerationQuotaPolicy) (tenantSlug action : String) :
    EffectivePolicy :=
  let override := policy.tenantOverrides.lookup tenantSlug
  { limit := (override.bind (·.maxUnitsPerDay)).getD policy.maxUnitsPerDay
    warnRatio := (override.bind (·.warnRatio)).getD policy.warnRatio
    units :=
      ((override.bind (·.operationUnits)).bind (·.lookup action)).getD <|
        (policy.operationUnits.lookup action).getD <|
          (policy.operationUnits.lookup "run_workflow").getD 5 }

/-- What lies at the path of a counter. -/
inductive CounterFile
  | absent
  | unreadable
  | stored (tenantSlug date : String) (units : ℚ)
  deriving DecidableEq

/-- The units used, and whether the counter is invalid. -/
def readUsage (file : CounterFile) (expectedTenantSlug expectedDate : String) : ℚ × Bool :=
  match file with
  | .absent => (0, false)
  | .unreadable => (0, true)
  | .stored tenantSlug date units =>
      if tenantSlug ≠ expectedTenantSlug ∨ date ≠ expectedDate then (0, true)
      else if units = 0 ∨ 0 < units then (units, false)
      else (0, true)

inductive GenerationQuotaLevel
  | ok | warn | block
  deriving DecidableEq

structure GenerationQuotaDecision where
  allowed : Bool
  level : GenerationQuotaLevel
  tenantSlug : Option String := none
  date : Option String := none
  action : String
  units : ℚ
  usage : ℚ
  projected : ℚ
  limit : Option ℚ := none
  warned : Bool
  reason : Option String := none
  deriving DecidableEq

/-- What a decision about a tenant rests on. -/
structure QuotaInput where
  tenant : String
  date : String
  action : String
  units : ℚ
  limit : ℚ
  warnRatio : ℚ
  deriving DecidableEq

structure GenerationQuotaOptions where
  policy : GenerationQuotaPolicy
  /-- The day of `now`. -/
  date : String
  reservationUnits : Option ℚ := none
  deriving DecidableEq

def systemDecision (action : String) : GenerationQuotaDecision where
  allowed := true
  level := .ok
  action := action
  units := 0
  usage := 0
  projected := 0
  warned := false
  reason := some "system scope is not charged to a tenant quota"

/-- What a decision rests on, none where the scope has no tenant. -/
def quotaInput (scope : EventScopeInput) (action : String) (options : GenerationQuotaOptions) :
    Except String (Option QuotaInput) := do
  let normalized ← normalizeEventScope scope
  return normalized.tenantSlug.map fun tenant =>
    let effective := effectivePolicy options.policy tenant action
    { tenant, date := options.date, action
      units := (options.reservationUnits.filter (0 < ·)).getD effective.units
      limit := effective.limit
      warnRatio := effective.warnRatio }

namespace QuotaInput

variable (input : QuotaInput)

def invalidReason : String :=
  "tenant '" ++ input.tenant ++ "' generation quota counter is invalid"

/-- A decision to reserve, or about whether one could. -/
def decision (usage : ℚ) (invalid : Bool) (refusal : String) : GenerationQuotaDecision :=
  let projected := usage + input.units
  let warned : Bool := input.warnRatio * input.limit ≤ projected
  let allowed : Bool := !invalid && projected ≤ input.limit
  { allowed, warned, usage, projected
    level := if allowed then (if warned then .warn else .ok) else .block
    tenantSlug := some input.tenant
    date := some input.date
    action := input.action
    units := input.units
    limit := some input.limit
    reason := if allowed then none else some (if invalid then input.invalidReason else refusal) }

/-- The decision of `checkGenerationQuota`, which warns of nothing when the counter is invalid. -/
def check (numberText : ℚ → String) (file : CounterFile) : GenerationQuotaDecision :=
  let usage := readUsage file input.tenant input.date
  let decided := input.decision usage.1 usage.2
    ("tenant '" ++ input.tenant ++ "' daily generation quota would exceed " ++
      numberText input.limit ++ " units")
  if usage.2 then { decided with warned := false } else decided

/-- `reserveGenerationQuota` under the lock of the counter. -/
def reserve (file : CounterFile) : GenerationQuotaDecision × CounterFile :=
  let usage := readUsage file input.tenant input.date
  let decided := input.decision usage.1 usage.2
    ("tenant '" ++ input.tenant ++ "' daily generation quota exceeded")
  (decided, if decided.allowed then .stored input.tenant input.date decided.projected else file)

/-- `releaseGenerationQuota` under the lock of the counter. -/
def release (file : CounterFile) : GenerationQuotaDecision × CounterFile :=
  let usage := readUsage file input.tenant input.date
  let next := max 0 (usage.1 - input.units)
  let decided : GenerationQuotaDecision :=
    { allowed := !usage.2
      level := if usage.2 then .block else .ok
      tenantSlug := some input.tenant
      date := some input.date
      action := input.action
      units := input.units
      usage := usage.1
      projected := if usage.2 then usage.1 else next
      limit := some input.limit
      warned := false
      reason := some (if usage.2 then input.invalidReason
        else "generation quota reservation released") }
  (decided, if usage.2 then file else .stored input.tenant input.date next)

end QuotaInput

/-- Where a run stands. `returning` has a submission that came to nothing, and gives its units back;
`again` says that it has tried once. -/
inductive Phase
  | claimed
  | submitting (units : ℚ) (charged : Bool)
  | returning (units : ℚ) (again : Bool)
  | submitted (units : ℚ) (charged : Bool)
  | blocked
  | failed
  | crashed
  deriving DecidableEq

structure GenerationRun where
  scope : EventScopeInput
  action : String
  phase : Phase
  deriving DecidableEq

/-- Units that are reserved and have not been given back. -/
structure Reservation where
  run : ℕ
  tenant : String
  date : String
  units : ℚ
  deriving DecidableEq

/-- What is true when a reservation is granted: the limit in force, the units that are then
reserved for the tenant and day, and those that have been returned to that day but were reserved
on another. -/
structure Grant where
  run : ℕ
  tenant : String
  date : String
  limit : ℚ
  live : ℚ
  misdirected : ℚ
  deriving DecidableEq

/-- `reservations`, `misdirected` and `grants` are kept by the model only. -/
structure World where
  counters : String × String → CounterFile := fun _ => .absent
  runs : ℕ → Option GenerationRun := fun _ => none
  reservations : List Reservation := []
  misdirected : String × String → ℚ := fun _ => 0
  grants : List Grant := []

/-- How a submission ends. -/
inductive Submission
  | job
  | noJob
  | threw
  deriving DecidableEq

inductive Action
  | claim (id : ℕ) (scope : EventScopeInput) (action : String)
  | reserve (id : ℕ) (parsed : GenerationQuotaPolicy) (date : String)
  | submit (id : ℕ) (submission : Submission)
  | giveBack (id : ℕ) (parsed : GenerationQuotaPolicy) (date : String) (throws : Bool)
  | crash (id : ℕ)
  | damage (tenant date : String)
  deriving DecidableEq

def Reservation.isFor (reservation : Reservation) (key : String × String) : Bool :=
  reservation.tenant = key.1 && reservation.date = key.2

/-- The units reserved for a tenant and day. -/
def liveUnits (reservations : List Reservation) (key : String × String) : ℚ :=
  ((reservations.filter (·.isFor key)).map (·.units)).sum

namespace World

variable (w : World)

def goTo (id : ℕ) (run : GenerationRun) (phase : Phase) : World :=
  { w with runs := Function.update w.runs id (some { run with phase }) }

def write (key : String × String) (file : CounterFile) : World :=
  { w with counters := Function.update w.counters key file }

/-- The units of a run are reserved. -/
def reserved (id : ℕ) (input : QuotaInput) : World :=
  let reservations := ⟨id, input.tenant, input.date, input.units⟩ :: w.reservations
  { w with
    reservations
    grants := w.grants ++ [
      { run := id, tenant := input.tenant, date := input.date, limit := input.limit
        live := liveUnits reservations (input.tenant, input.date)
        misdirected := w.misdirected (input.tenant, input.date) }] }

/-- The units of a run are given back, to the day on which this happens. -/
def returned (id : ℕ) (input : QuotaInput) : World :=
  { w with
    reservations := w.reservations.filter (·.run ≠ id)
    misdirected :=
      if w.reservations.any fun reservation => reservation.run = id &&
          reservation.isFor (input.tenant, input.date) then w.misdirected
      else Function.update w.misdirected (input.tenant, input.date)
        (w.misdirected (input.tenant, input.date) + input.units) }

/-- The reservation of a claimed run. -/
def reserve (id : ℕ) (run : GenerationRun) (options : GenerationQuotaOptions) : World :=
  match quotaInput run.scope run.action options with
  | .error _ => w.goTo id run .failed
  | .ok none => w.goTo id run (.submitting 0 false)
  | .ok (some input) =>
      let decided := input.reserve (w.counters (input.tenant, input.date))
      let written := w.write (input.tenant, input.date) decided.2
      if decided.1.allowed then
        (written.reserved id input).goTo id run (.submitting input.units true)
      else written.goTo id run .blocked

/-- `quotaRelease`, which changes nothing when it throws. -/
def giveBack (id : ℕ) (run : GenerationRun) (options : GenerationQuotaOptions) : World :=
  match quotaInput run.scope run.action options with
  | .ok (some input) =>
      let decided := input.release (w.counters (input.tenant, input.date))
      (w.write (input.tenant, input.date) decided.2).returned id input
  | _ => w

end World

def runStep (w : World) (id : ℕ) (run : GenerationRun) : Phase → Action → Option World
  | .claimed, .reserve _ parsed date =>
      some (w.reserve id run { policy := readPolicy parsed, date })
  | .submitting units charged, .submit _ .job => some (w.goTo id run (.submitted units charged))
  | .submitting units charged, .submit _ .noJob =>
      some (w.goTo id run (if charged then .returning units false else .failed))
  | .submitting units charged, .submit _ .threw =>
      some (w.goTo id run (if charged then .returning units true else .failed))
  | .returning units again, .giveBack _ parsed date throws =>
      if throws then some (w.goTo id run (if again then .failed else .returning units true))
      else some ((w.giveBack id run ⟨readPolicy parsed, date, some units⟩).goTo id run .failed)
  | .submitted _ _, .crash _ | .blocked, .crash _ | .failed, .crash _ | .crashed, .crash _ => none
  | _, .crash _ => some (w.goTo id run .crashed)
  | _, _ => none

def Action.subject : Action → Option ℕ
  | .reserve id _ _ | .submit id _ | .giveBack id _ _ _ | .crash id => some id
  | _ => none

/-- Scheduled runs, each of which can crash, and counters that become unreadable. -/
def quota : Transition.System World Action where
  init w := w = {}
  step w
    | .claim id scope action =>
        if w.runs id = none then
          some { w with runs := Function.update w.runs id (some ⟨scope, action, .claimed⟩) }
        else none
    | .damage tenant date => some (w.write (tenant, date) .unreadable)
    | a => a.subject.bind fun id => (w.runs id).bind fun run => runStep w id run run.phase a

end Kyberion.Generation
