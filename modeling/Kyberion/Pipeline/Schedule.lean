import Kyberion.Js.Text
import Kyberion.Keyed
import Mathlib.Data.Int.Notation
import Mathlib.Data.Nat.Notation

/-!
The registry of scheduled pipelines and what each operation makes of a registry that it has loaded:
claiming and completing a run, registering, reconciling and unregistering schedules.
-/

namespace Kyberion.Pipeline

/-- A date text as it reads, none when it does not. -/
abbrev Instant := Option ℤ

structure ScheduledPipelineRunLock where
  token : String
  acquiredAt : Instant
  expiresAt : Instant
  deriving DecidableEq

inductive ScheduleTrigger
  | cron (expression : String) (timezone : Option String)
  | interval (intervalMs : ℤ) (timezone : Option String)
  deriving DecidableEq

def ScheduleTrigger.timezone : ScheduleTrigger → Option String
  | .cron _ timezone => timezone
  | .interval _ timezone => timezone

inductive ScheduledRunStatus
  | succeeded | failed
  deriving DecidableEq

structure ScheduledPipeline (J : Type) where
  id : String
  name : String
  pipelinePath : String
  actuator : String
  trigger : ScheduleTrigger
  enabled : Bool
  managedBy : Option String := none
  optIn : Option Bool := none
  lastRun : Option Instant := none
  lastStatus : Option ScheduledRunStatus := none
  consecutiveFailures : Option ℕ := none
  disabledReason : Option String := none
  disabledAt : Option String := none
  context : Option J := none
  deliverTo : Option J := none
  runLock : Option ScheduledPipelineRunLock := none
  deriving DecidableEq

/-- What a host answers: the operator's lists of the environment, and the cron arithmetic. -/
structure SchedulerHost where
  scheduleAllowedByOperator : String → Bool
  scheduleExplicitlyOptedIn : String → Bool
  matchesCron : String → ℤ → Option String → Bool
  sameZonedMinute : Instant → ℤ → Option String → Bool
  hasMissedCronOccurrence : String → Instant → ℤ → Option String → Bool

variable {J : Type}

def runLockActive (lock : Option ScheduledPipelineRunLock) (now ttlMs : ℤ) : Bool :=
  match lock with
  | none => false
  | some lock =>
      match lock.acquiredAt, lock.expiresAt with
      | some acquiredAt, some expiresAt => expiresAt > now && now - acquiredAt < ttlMs
      | _, _ => false

def isScheduledPipelineDue (host : SchedulerHost) (schedule : ScheduledPipeline J)
    (timezone : Option String) (now ttlMs : ℤ) : Bool :=
  if !schedule.enabled &&
      !(schedule.optIn = some true && host.scheduleExplicitlyOptedIn schedule.id) then false
  else if !host.scheduleAllowedByOperator schedule.id then false
  else if runLockActive schedule.runLock now ttlMs then false
  else match schedule.trigger with
    | .interval intervalMs _ =>
        if intervalMs = 0 then false
        else match schedule.lastRun with
          | none => true
          | some none => false
          | some (some lastRun) => intervalMs ≤ now - lastRun
    | .cron expression own =>
        let tz := timezone.or own
        if host.matchesCron expression now tz then
          match schedule.lastRun with
          | none => true
          | some lastRun => !host.sameZonedMinute lastRun now tz
        else match schedule.lastRun with
          | none => false
          | some lastRun => host.hasMissedCronOccurrence expression lastRun now tz

/-- The schedules of the registry file. -/
abbrev ScheduleRegistry (J : Type) := List (ScheduledPipeline J)

def findSchedule (registry : ScheduleRegistry J) (id : String) : Option (ScheduledPipeline J) :=
  Keyed.find ScheduledPipeline.id id registry

section Claim

def claimed (now ttlMs : ℤ) (token : String) (schedule : ScheduledPipeline J) :
    ScheduledPipeline J :=
  { schedule with
    runLock := some
      { token := token, acquiredAt := some now, expiresAt := some (now + ttlMs) }
    lastRun := some (some now) }

/-- Whether a claim gets the schedule that it finds. -/
def claimable (host : SchedulerHost) (now ttlMs : ℤ) (schedule : ScheduledPipeline J) : Bool :=
  isScheduledPipelineDue host schedule schedule.trigger.timezone now ttlMs &&
    !runLockActive schedule.runLock now ttlMs

/-- The registry to save, none when the call returns null. -/
def claimScheduledPipelineRun (host : SchedulerHost) (id : String) (now ttlMs : ℤ) (token : String)
    (registry : ScheduleRegistry J) : Option (ScheduleRegistry J) :=
  match findSchedule registry id with
  | none => none
  | some schedule =>
      if claimable host now ttlMs schedule then
        some (Keyed.update ScheduledPipeline.id id (claimed now ttlMs token) registry)
      else none

def completed (status : ScheduledRunStatus) (schedule : ScheduledPipeline J) :
    ScheduledPipeline J :=
  { schedule with runLock := none, lastStatus := some status }

/-- Whether the token is the one of the schedule's lock. -/
def holdsToken (token : String) (schedule : ScheduledPipeline J) : Bool :=
  schedule.runLock.any fun lock => lock.token = token

def completeScheduledPipelineRun (id token : String) (status : ScheduledRunStatus)
    (registry : ScheduleRegistry J) : Option (ScheduleRegistry J) :=
  match findSchedule registry id with
  | none => none
  | some schedule =>
      if holdsToken token schedule then
        some (Keyed.update ScheduledPipeline.id id (completed status) registry)
      else none

end Claim

section Register

/-- `{ ...existing, ...wanted }`, with the state of the runs kept. -/
def mergeSchedule (existing wanted : ScheduledPipeline J) : ScheduledPipeline J :=
  { wanted with
    managedBy := wanted.managedBy.or existing.managedBy
    optIn := wanted.optIn.or existing.optIn
    lastRun := wanted.lastRun.or existing.lastRun
    lastStatus := wanted.lastStatus.or existing.lastStatus
    consecutiveFailures := wanted.consecutiveFailures.or existing.consecutiveFailures
    disabledReason := wanted.disabledReason.or existing.disabledReason
    disabledAt := wanted.disabledAt.or existing.disabledAt
    context := wanted.context.or existing.context
    deliverTo := wanted.deliverTo.or existing.deliverTo
    runLock := wanted.runLock.or existing.runLock }

def registerScheduledPipeline (pipeline : ScheduledPipeline J) (registry : ScheduleRegistry J) :
    ScheduleRegistry J :=
  match findSchedule registry pipeline.id with
  | some _ => Keyed.update ScheduledPipeline.id pipeline.id (mergeSchedule · pipeline) registry
  | none => registry ++ [pipeline]

/-- The pipelines of a source, marked as its own. -/
def desiredSchedules (source : String) (pipelines : List (ScheduledPipeline J)) :
    List (ScheduledPipeline J) :=
  pipelines.map fun pipeline => { pipeline with managedBy := some source }

/-- What becomes of a schedule of the registry: merged with the one wanted of its id, else removed
if the source manages it. -/
def reconcileOne (source : String) (desired : List (ScheduledPipeline J))
    (existing : ScheduledPipeline J) : Option (ScheduledPipeline J) :=
  match findSchedule desired existing.id with
  | some wanted => some (mergeSchedule existing wanted)
  | none => if existing.managedBy = some source then none else some existing

/-- The registry to save, none when the source is blank, an id comes twice, nothing changes, or
nothing is to be saved. -/
def reconcileScheduledPipelines [DecidableEq J] (source : String)
    (pipelines : List (ScheduledPipeline J)) (dryRun : Bool) (registry : ScheduleRegistry J) :
    Option (ScheduleRegistry J) :=
  let desired := desiredSchedules source pipelines
  if Js.trim source = "" ∨ ¬(desired.map ScheduledPipeline.id).Nodup then none
  else
    let added := desired.filter fun pipeline => (findSchedule registry pipeline.id).isNone
    let changed := added ≠ [] ∨
      ∃ existing ∈ registry, reconcileOne source desired existing ≠ some existing
    if changed ∧ dryRun = false then
      some (registry.filterMap (reconcileOne source desired) ++ added)
    else none

def unregisterScheduledPipeline (id : String) (registry : ScheduleRegistry J) :
    Option (ScheduleRegistry J) :=
  match findSchedule registry id with
  | none => none
  | some _ => some (Keyed.remove ScheduledPipeline.id id registry)

end Register

end Kyberion.Pipeline
