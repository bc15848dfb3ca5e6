import Kyberion.Pipeline.Schedule
import Kyberion.Transition
import Mathlib.Logic.Function.Basic

/-!
Processes that load the registry file, edit what they loaded and save it over the file. A load goes
through the catalog's cache, which takes the file for unchanged when its time and size are.
-/

namespace Kyberion.Pipeline

open Transition

inductive SchedulerCall (J : Type)
  | claim (host : SchedulerHost) (id : String) (now ttlMs : ℤ) (token : String)
  | complete (id token : String) (status : ScheduledRunStatus)
  | register (pipeline : ScheduledPipeline J)
  | reconcile (source : String) (pipelines : List (ScheduledPipeline J)) (dryRun : Bool)
  | unregister (id : String)

variable {J : Type}

/-- The registry that a call saves over the one it has loaded, none when it saves nothing. -/
def SchedulerCall.save [DecidableEq J] : SchedulerCall J → ScheduleRegistry J → Option (ScheduleRegistry J)
  | .claim host id now ttlMs token => claimScheduledPipelineRun host id now ttlMs token
  | .complete id token status => completeScheduledPipelineRun id token status
  | .register pipeline => fun registry => some (registerScheduledPipeline pipeline registry)
  | .reconcile source pipelines dryRun => reconcileScheduledPipelines source pipelines dryRun
  | .unregister id => unregisterScheduledPipeline id

/-- The reading of the clock that a call goes by. -/
def SchedulerCall.readsClock : SchedulerCall J → ℤ → Prop
  | .claim _ _ now _ _, clock => now ≤ clock
  | _, _ => True

instance (call : SchedulerCall J) (clock : ℤ) : Decidable (call.readsClock clock) := by
  cases call <;> unfold SchedulerCall.readsClock <;> infer_instance

/-- A run claim that has been returned and not completed. -/
structure RunClaim where
  id : String
  token : String
  acquiredAt : ℤ
  expiresAt : ℤ
  deriving DecidableEq

def RunClaim.lock (claim : RunClaim) : ScheduledPipelineRunLock :=
  { token := claim.token, acquiredAt := some claim.acquiredAt, expiresAt := some claim.expiresAt }

/-- The claims held after a call that has saved. -/
def SchedulerCall.holders : SchedulerCall J → List RunClaim → List RunClaim
  | .claim _ id now ttlMs token, held =>
      held ++ [{ id := id, token := token, acquiredAt := now, expiresAt := now + ttlMs }]
  | .complete id token _, held => held.filter fun claim => ¬(claim.id = id ∧ claim.token = token)
  | _, held => held

abbrev Schedules (J : Type) := String → Option (ScheduledPipeline J)

/-- What a call that succeeds does to its own schedules. -/
def SchedulerCall.effect : SchedulerCall J → Schedules J → Schedules J
  | .claim _ id now ttlMs token, schedules => fun key =>
      if key = id then (schedules id).map (claimed now ttlMs token) else schedules key
  | .complete id _ status, schedules => fun key =>
      if key = id then (schedules id).map (completed status) else schedules key
  | .register pipeline, schedules => fun key =>
      if key = pipeline.id then
        some (((schedules key).map (mergeSchedule · pipeline)).getD pipeline)
      else schedules key
  | .reconcile source pipelines _, schedules => fun key =>
      ((schedules key).bind (reconcileOne source (desiredSchedules source pipelines))).or
        (if (schedules key).isNone then findSchedule (desiredSchedules source pipelines) key
        else none)
  | .unregister id, schedules => fun key => if key = id then none else schedules key

structure Scheduling (J : Type) where
  /-- The registry file, with its time and size. -/
  file : Option (ScheduleRegistry J × ℕ)
  caches : ℕ → Option (ScheduleRegistry J × ℕ)
  pending : ℕ → Option (SchedulerCall J × ScheduleRegistry J) := fun _ => none
  clock : ℤ
  holders : List RunClaim := []
  schedules : Schedules J

def Scheduling.registry (s : Scheduling J) : ScheduleRegistry J :=
  (s.file.map Prod.fst).getD []

inductive SchedulerAction (J : Type)
  | tick (ms : ℕ)
  | load (caller process : ℕ) (call : SchedulerCall J)
  | save (caller signature : ℕ)
  | fail (caller : ℕ)

/-- `loadScheduleRegistry`, and the cache that it leaves. -/
def loadScheduleRegistry (file cache : Option (ScheduleRegistry J × ℕ)) :
    ScheduleRegistry J × Option (ScheduleRegistry J × ℕ) :=
  match file with
  | none => ([], cache)
  | some (content, signature) =>
      match cache with
      | some (cached, cachedSignature) =>
          if cachedSignature = signature then (cached, cache)
          else (content, some (content, signature))
      | none => (content, some (content, signature))

def load (s : Scheduling J) (caller process : ℕ) (call : SchedulerCall J) :
    Option (Scheduling J) :=
  if (s.pending caller).isNone ∧ call.readsClock s.clock then
    let (registry, cache) := loadScheduleRegistry s.file (s.caches process)
    some { s with
      caches := Function.update s.caches process cache
      pending := Function.update s.pending caller (some (call, registry)) }
  else none

def Scheduling.leave (s : Scheduling J) (caller : ℕ) : Scheduling J :=
  { s with pending := Function.update s.pending caller none }

@[simp] theorem leave_pending (s : Scheduling J) (caller : ℕ) :
    (s.leave caller).pending = Function.update s.pending caller none := rfl

/-- The call has written the registry. -/
def Scheduling.write (s : Scheduling J) (caller signature : ℕ) (call : SchedulerCall J)
    (registry : ScheduleRegistry J) : Scheduling J :=
  { s with
    file := some (registry, signature)
    pending := Function.update s.pending caller none
    holders := call.holders s.holders
    schedules := call.effect s.schedules }

/-- A call that throws leaves the file as it is. -/
def fail (s : Scheduling J) (caller : ℕ) : Option (Scheduling J) :=
  if (s.pending caller).isSome then some (s.leave caller) else none

-- what the schema of the catalog admits
variable [DecidableEq J] (valid : ScheduleRegistry J → Bool)

/-- `saveScheduleRegistry`, unless the call returns without it. -/
def save (s : Scheduling J) (caller signature : ℕ) : Option (Scheduling J) :=
  match s.pending caller with
  | none => none
  | some (call, registry) =>
      match call.save registry with
      | none => some (s.leave caller)
      | some next => if valid next then some (s.write caller signature call next) else none

def schedulerStep (s : Scheduling J) : SchedulerAction J → Option (Scheduling J)
  | .tick ms => some { s with clock := s.clock + ms }
  | .load caller process call => load s caller process call
  | .save caller signature => save valid s caller signature
  | .fail caller => fail s caller

/-- Any calls of any processes on one registry file, which names each schedule once at the start. -/
def scheduler : System (Scheduling J) (SchedulerAction J) where
  init s := (s.registry.map ScheduledPipeline.id).Nodup ∧ s.pending = (fun _ => none) ∧ s.holders = [] ∧
    s.schedules = findSchedule s.registry
  step := schedulerStep valid

section Effects

variable {registry : ScheduleRegistry J} {id : String}

omit [DecidableEq J]

theorem mergeSchedule_id (existing wanted : ScheduledPipeline J) :
    (mergeSchedule existing wanted).id = wanted.id := rfl

theorem reconcileOne_id {source : String} {desired : List (ScheduledPipeline J)}
    {existing schedule : ScheduledPipeline J}
    (h : reconcileOne source desired existing = some schedule) : schedule.id = existing.id := by
  unfold reconcileOne at h
  split at h
  · rename_i wanted hwanted
    have hid : wanted.id = existing.id := Keyed.key_of_find hwanted
    rw [← Option.some.inj h, mergeSchedule_id, hid]
  · split at h
    · cases h
    · rw [← Option.some.inj h]

theorem findSchedule_register (pipeline : ScheduledPipeline J) (key : String) :
    findSchedule (registerScheduledPipeline pipeline registry) key =
      if key = pipeline.id then
        some (((findSchedule registry key).map (mergeSchedule · pipeline)).getD pipeline)
      else findSchedule registry key := by
  unfold registerScheduledPipeline
  split
  · rename_i existing hexisting
    rw [findSchedule, Keyed.find_update (mergeSchedule · pipeline) fun _ _ => rfl]
    split
    · rename_i hkey
      simp only [findSchedule, hkey] at hexisting ⊢
      simp [hexisting]
    · rfl
  · rename_i hnone
    rw [findSchedule, Keyed.find_append, Keyed.find_singleton]
    split
    · rename_i hkey
      rw [if_pos hkey.symm, ← hkey, show Keyed.find _ _ registry = none from hnone]
      simp [show findSchedule registry pipeline.id = none from hnone]
    · rename_i hkey
      rw [if_neg (Ne.symm hkey), Option.or_none]
      rfl

theorem mem_ids_iff : id ∈ registry.map ScheduledPipeline.id ↔ (findSchedule registry id).isSome := by
  rw [← not_iff_not, Bool.not_eq_true, Option.isSome_eq_false_iff, Option.isNone_iff_eq_none]
  exact Keyed.find_eq_none.symm

end Effects

section Saves

variable {registry next : ScheduleRegistry J} {call : SchedulerCall J}

theorem reconcile_cases {source : String} {pipelines : List (ScheduledPipeline J)} {dryRun : Bool}
    (h : reconcileScheduledPipelines source pipelines dryRun registry = some next) :
    ((desiredSchedules source pipelines).map ScheduledPipeline.id).Nodup ∧
    next = registry.filterMap (reconcileOne source (desiredSchedules source pipelines)) ++
      (desiredSchedules source pipelines).filter
        fun pipeline => (findSchedule registry pipeline.id).isNone := by
  unfold reconcileScheduledPipelines at h
  dsimp only at h
  split at h
  · cases h
  · rename_i hguard
    push Not at hguard
    split at h
    · exact ⟨hguard.2, (Option.some.inj h).symm⟩
    · cases h

omit [DecidableEq J] in
theorem claim_cases {host : SchedulerHost} {id token : String} {now ttlMs : ℤ}
    (h : claimScheduledPipelineRun host id now ttlMs token registry = some next) :
    ∃ schedule, findSchedule registry id = some schedule ∧ claimable host now ttlMs schedule = true ∧
      next = Keyed.update ScheduledPipeline.id id (claimed now ttlMs token) registry := by
  unfold claimScheduledPipelineRun at h
  split at h
  · cases h
  · rename_i schedule hschedule
    obtain ⟨hclaimable, hnext⟩ := Option.ite_none_right_eq_some.mp h
    exact ⟨schedule, hschedule, hclaimable, (Option.some.inj hnext).symm⟩

omit [DecidableEq J] in
theorem complete_cases {id token : String} {status : ScheduledRunStatus}
    (h : completeScheduledPipelineRun id token status registry = some next) :
    ∃ schedule, findSchedule registry id = some schedule ∧ holdsToken token schedule = true ∧
      next = Keyed.update ScheduledPipeline.id id (completed status) registry := by
  unfold completeScheduledPipelineRun at h
  split at h
  · cases h
  · rename_i schedule hschedule
    obtain ⟨hholds, hnext⟩ := Option.ite_none_right_eq_some.mp h
    exact ⟨schedule, hschedule, hholds, (Option.some.inj hnext).symm⟩

omit [DecidableEq J] in
theorem unregister_cases {id : String} (h : unregisterScheduledPipeline id registry = some next) :
    next = Keyed.remove ScheduledPipeline.id id registry := by
  unfold unregisterScheduledPipeline at h
  split at h
  · cases h
  · exact (Option.some.inj h).symm

/-- What a call saves names each schedule once. -/
theorem nodup_save (hnodup : (registry.map ScheduledPipeline.id).Nodup) (h : call.save registry = some next) :
    (next.map ScheduledPipeline.id).Nodup := by
  cases call with
  | claim host id now ttlMs token =>
      obtain ⟨schedule, -, -, rfl⟩ := claim_cases h
      have hkey : ∀ a : ScheduledPipeline J, a.id = id → (claimed now ttlMs token a).id = id :=
        fun _ hid => hid
      rwa [Keyed.map_update _ hkey]
  | complete id token status =>
      obtain ⟨schedule, -, -, rfl⟩ := complete_cases h
      have hkey : ∀ a : ScheduledPipeline J, a.id = id → (completed status a).id = id :=
        fun _ hid => hid
      rwa [Keyed.map_update _ hkey]
  | register pipeline =>
      obtain rfl := Option.some.inj h
      unfold registerScheduledPipeline
      split
      · rwa [Keyed.map_update (mergeSchedule · pipeline) fun _ _ => rfl]
      · rename_i hnone
        have hfresh := Keyed.find_eq_none.mp hnone
        rw [List.map_append, List.nodup_append]
        refine ⟨hnodup, List.nodup_singleton _, fun a ha b hb hab => hfresh ?_⟩
        obtain rfl : b = pipeline.id := List.mem_singleton.mp hb
        exact hab ▸ ha
  | reconcile source pipelines dryRun =>
      obtain ⟨hdesired, rfl⟩ := reconcile_cases h
      rw [List.map_append, List.nodup_append]
      refine ⟨Keyed.nodup_filterMap (fun _ _ => reconcileOne_id) hnodup,
        hdesired.sublist (List.filter_sublist.map _), fun a ha b hb hab => ?_⟩
      obtain ⟨schedule, hschedule, rfl⟩ := List.mem_map.mp ha
      obtain ⟨existing, hexisting, hreconcile⟩ := List.mem_filterMap.mp hschedule
      obtain ⟨pipeline, hpipeline, rfl⟩ := List.mem_map.mp hb
      have hnone := (List.mem_filter.mp hpipeline).2
      have hsome := mem_ids_iff.mp (List.mem_map_of_mem hexisting)
      rw [← reconcileOne_id hreconcile, hab] at hsome
      simp_all
  | unregister id =>
      obtain rfl := unregister_cases h
      exact Keyed.nodup_remove hnodup

/-- A call that saves does to the registry that it has loaded what it does to its own schedules. -/
theorem findSchedule_save (hnodup : (registry.map ScheduledPipeline.id).Nodup)
    (h : call.save registry = some next) :
    findSchedule next = call.effect (findSchedule registry) := by
  funext key
  cases call with
  | claim host id now ttlMs token =>
      obtain ⟨schedule, -, -, rfl⟩ := claim_cases h
      exact Keyed.find_update (claimed now ttlMs token) fun _ hid => hid
  | complete id token status =>
      obtain ⟨schedule, -, -, rfl⟩ := complete_cases h
      exact Keyed.find_update (completed status) fun _ hid => hid
  | register pipeline =>
      obtain rfl := Option.some.inj h
      exact findSchedule_register pipeline key
  | reconcile source pipelines dryRun =>
      obtain ⟨-, rfl⟩ := reconcile_cases h
      rw [findSchedule, Keyed.find_append,
        Keyed.find_filterMap (fun _ _ => reconcileOne_id) hnodup,
        Keyed.find_filter fun id => (findSchedule registry id).isNone]
      rfl
  | unregister id =>
      obtain rfl := unregister_cases h
      exact Keyed.find_remove

end Saves

end Kyberion.Pipeline
