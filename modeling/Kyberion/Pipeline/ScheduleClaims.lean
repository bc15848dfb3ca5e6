import Kyberion.Pipeline.ScheduleRun
import Mathlib.Data.List.Pairwise

/-!
Runs in which no call saves over a registry that it has not seen: a schedule is claimed once at a
time, and the registry is what the calls that saved make of the schedules one after another.
-/

namespace Kyberion.Pipeline

open Transition

variable {J : Type}

/-- Whether a claim returned for a schedule is still open. -/
def Scheduling.heldOpen (s : Scheduling J) (id : String) : Prop :=
  ∃ claim ∈ s.holders, claim.id = id ∧ s.clock < claim.expiresAt

instance (s : Scheduling J) (id : String) : Decidable (s.heldOpen id) :=
  inferInstanceAs (Decidable (∃ claim ∈ s.holders, claim.id = id ∧ s.clock < claim.expiresAt))

/-- The time-to-live is not shorter than the age of an unexpired lock. -/
def ttlCovers (schedule : ScheduledPipeline J) (now ttlMs : ℤ) : Prop :=
  match schedule.runLock with
  | some ⟨_, some acquiredAt, some expiresAt⟩ => now < expiresAt → now - acquiredAt < ttlMs
  | _ => True

instance (schedule : ScheduledPipeline J) (now ttlMs : ℤ) :
    Decidable (ttlCovers schedule now ttlMs) := by
  unfold ttlCovers
  split <;> infer_instance

/-- The pipeline brings no lock of its own, and is not registered anew while a claim is open. -/
def Scheduling.registers (s : Scheduling J) (pipeline : ScheduledPipeline J) : Prop :=
  pipeline.runLock = none ∧
    ((findSchedule s.registry pipeline.id).isNone → ¬s.heldOpen pipeline.id)

instance (s : Scheduling J) (pipeline : ScheduledPipeline J) : Decidable (s.registers pipeline) :=
  inferInstanceAs (Decidable (_ ∧ _))

def Scheduling.admits (s : Scheduling J) : SchedulerCall J → Prop
  | .claim _ id now ttlMs _ => ∀ schedule ∈ findSchedule s.registry id, ttlCovers schedule now ttlMs
  | .complete _ _ _ => True
  | .register pipeline => s.registers pipeline
  | .reconcile _ pipelines _ => ∀ pipeline ∈ pipelines, s.registers pipeline
  | .unregister _ => True

instance (s : Scheduling J) : ∀ call : SchedulerCall J, Decidable (s.admits call)
  | .claim _ id now ttlMs _ =>
      inferInstanceAs (Decidable
        (∀ schedule ∈ findSchedule s.registry id, ttlCovers schedule now ttlMs))
  | .complete _ _ _ => inferInstanceAs (Decidable True)
  | .register pipeline => inferInstanceAs (Decidable (s.registers pipeline))
  | .reconcile _ pipelines _ =>
      inferInstanceAs (Decidable (∀ pipeline ∈ pipelines, s.registers pipeline))
  | .unregister _ => inferInstanceAs (Decidable True)

theorem readsClock_mono {call : SchedulerCall J} {clock clock' : ℤ} (h : call.readsClock clock) (hle : clock ≤ clock') :
    call.readsClock clock' := by
  cases call with
  | claim host id now ttlMs token => exact Int.le_trans h hle
  | complete => trivial
  | register => trivial
  | reconcile => trivial
  | unregister => trivial

/-- A lock that has not expired is active for every claim whose time-to-live covers it. -/
theorem runLockActive_of_held {claim : RunClaim} {schedule : ScheduledPipeline J} {now ttlMs : ℤ}
    (hlock : schedule.runLock = some claim.lock) (hopen : now < claim.expiresAt)
    (hcovers : ttlCovers schedule now ttlMs) : runLockActive schedule.runLock now ttlMs = true := by
  rw [ttlCovers, hlock] at hcovers
  have hage := hcovers hopen
  simp [hlock, runLockActive, RunClaim.lock, hopen, hage]

theorem mergeSchedule_runLock {existing wanted : ScheduledPipeline J}
    (h : wanted.runLock = none) : (mergeSchedule existing wanted).runLock = existing.runLock := by
  simp [mergeSchedule, h]

theorem mem_desiredSchedules {source : String} {pipelines : List (ScheduledPipeline J)}
    {wanted : ScheduledPipeline J} (h : wanted ∈ desiredSchedules source pipelines) :
    ∃ pipeline ∈ pipelines, wanted.id = pipeline.id ∧ wanted.runLock = pipeline.runLock := by
  obtain ⟨pipeline, hpipeline, rfl⟩ := List.mem_map.mp h
  exact ⟨pipeline, hpipeline, rfl, rfl⟩

structure SchedulingInv (s : Scheduling J) : Prop where
  nodup : (s.registry.map ScheduledPipeline.id).Nodup
  kept : findSchedule s.registry = s.schedules
  locked : ∀ claim ∈ s.holders, s.clock < claim.expiresAt →
    ∀ schedule, findSchedule s.registry claim.id = some schedule →
      schedule.runLock = some claim.lock
  single : s.holders.Pairwise fun a b =>
    a.id = b.id → ¬(s.clock < a.expiresAt ∧ s.clock < b.expiresAt)
  reads : ∀ caller call registry, s.pending caller = some (call, registry) →
    call.readsClock s.clock

variable {s t : Scheduling J}

theorem SchedulingInv.leave (h : SchedulingInv s) (caller : ℕ) : SchedulingInv (s.leave caller) :=
  { h with
    reads := fun other call registry hpending => by
      by_cases hother : other = caller
      · simp [hother] at hpending
      · rw [leave_pending, Function.update_of_ne hother] at hpending
        exact h.reads other call registry hpending }

/-- A schedule that a claim gets is held open by nobody. -/
theorem not_heldOpen_of_claimable (h : SchedulingInv s) {host : SchedulerHost} {id : String}
    {now ttlMs : ℤ} {schedule : ScheduledPipeline J} (hreads : now ≤ s.clock)
    (hfind : findSchedule s.registry id = some schedule) (hcovers : ttlCovers schedule now ttlMs)
    (hclaimable : claimable host now ttlMs schedule = true) : ¬s.heldOpen id := by
  rintro ⟨claim, hclaim, rfl, hopen⟩
  have hlock := h.locked claim hclaim hopen schedule hfind
  have hactive := runLockActive_of_held hlock (Int.lt_of_le_of_lt hreads hopen) hcovers
  simp [claimable, hactive] at hclaimable

/-- A schedule that a reconciliation keeps keeps its lock. -/
theorem reconcileOne_runLock {source : String} {pipelines : List (ScheduledPipeline J)}
    {existing schedule : ScheduledPipeline J}
    (hlocks : ∀ pipeline ∈ pipelines, pipeline.runLock = none)
    (h : reconcileOne source (desiredSchedules source pipelines) existing = some schedule) :
    schedule.runLock = existing.runLock := by
  unfold reconcileOne at h
  split at h
  · rename_i wanted hwanted
    obtain ⟨pipeline, hpipeline, -, hlock⟩ := mem_desiredSchedules (Keyed.mem_of_find hwanted)
    obtain rfl := Option.some.inj h
    exact mergeSchedule_runLock (hlock.trans (hlocks pipeline hpipeline))
  · split at h
    · cases h
    · rw [Option.some.inj h]

variable [DecidableEq J]

/-- A call saves over the registry that it has loaded. -/
def Undisturbed (s : Scheduling J) : SchedulerAction J → Prop
  | .save caller _ =>
      match s.pending caller with
      | none => True
      | some (call, registry) =>
          (call.save registry).isSome → registry = s.registry ∧ s.admits call
  | _ => True

instance (s : Scheduling J) (a : SchedulerAction J) : Decidable (Undisturbed s a) := by
  unfold Undisturbed
  split
  · split <;> infer_instance
  · infer_instance

variable {valid : ScheduleRegistry J → Bool} {call : SchedulerCall J}

/-- The claims that are open after a call lock the schedules that are there after it. -/
theorem locked_effect (h : SchedulingInv s) (hreads : call.readsClock s.clock)
    (hadmits : s.admits call) {next : ScheduleRegistry J} (hsave : call.save s.registry = some next) :
    ∀ claim ∈ call.holders s.holders, s.clock < claim.expiresAt →
      ∀ schedule, call.effect (findSchedule s.registry) claim.id = some schedule →
        schedule.runLock = some claim.lock := by
  intro claim hclaim hopen schedule heffect
  cases call with
  | claim host id now ttlMs token =>
      obtain ⟨found, hfound, hclaimable, -⟩ := claim_cases hsave
      have hfree := not_heldOpen_of_claimable h hreads hfound (hadmits found hfound) hclaimable
      simp only [SchedulerCall.effect] at heffect
      rcases List.mem_append.mp hclaim with hold | hnew
      · rw [if_neg fun hid => hfree ⟨claim, hold, hid, hopen⟩] at heffect
        exact h.locked claim hold hopen schedule heffect
      · obtain rfl := List.mem_singleton.mp hnew
        rw [if_pos rfl, hfound] at heffect
        obtain rfl := Option.some.inj heffect
        rfl
  | complete id token status =>
      obtain ⟨found, hfound, hholds, -⟩ := complete_cases hsave
      obtain ⟨hold, hother⟩ := List.mem_filter.mp hclaim
      simp only [SchedulerCall.effect] at heffect
      split at heffect
      · rename_i hid
        have hlock := h.locked claim hold hopen found (hid ▸ hfound)
        simp [holdsToken, hlock, RunClaim.lock] at hholds
        simp [hid, hholds] at hother
      · exact h.locked claim hold hopen schedule heffect
  | register pipeline =>
      obtain ⟨hlock, hanew⟩ := hadmits
      simp only [SchedulerCall.effect] at heffect
      split at heffect
      · rename_i hid
        cases hfound : findSchedule s.registry claim.id with
        | none => exact absurd ⟨claim, hclaim, hid, hopen⟩ (hanew (by rw [← hid, hfound]; rfl))
        | some existing =>
            rw [hfound] at heffect
            obtain rfl := Option.some.inj heffect
            exact (mergeSchedule_runLock hlock).trans (h.locked claim hclaim hopen existing hfound)
      · exact h.locked claim hclaim hopen schedule heffect
  | reconcile source pipelines dryRun =>
      simp only [SchedulerCall.effect] at heffect
      cases hfound : findSchedule s.registry claim.id with
      | none =>
          simp only [hfound, Option.bind_none, Option.isNone_none, if_true, Option.none_or]
            at heffect
          obtain ⟨pipeline, hpipeline, hid, -⟩ := mem_desiredSchedules (Keyed.mem_of_find heffect)
          have hkey := hid.symm.trans (Keyed.key_of_find heffect)
          obtain ⟨-, hanew⟩ := hadmits pipeline hpipeline
          exact absurd ⟨claim, hclaim, hkey.symm, hopen⟩ (hanew (by rw [hkey, hfound]; rfl))
      | some existing =>
          simp only [hfound, Option.bind_some, Option.isNone_some, Bool.false_eq_true, if_false,
            Option.or_none] at heffect
          exact (reconcileOne_runLock (fun p hp => (hadmits p hp).1) heffect).trans
            (h.locked claim hclaim hopen existing hfound)
  | unregister id =>
      simp only [SchedulerCall.effect] at heffect
      split at heffect
      · cases heffect
      · exact h.locked claim hclaim hopen schedule heffect

theorem single_holders (h : SchedulingInv s) (hreads : call.readsClock s.clock)
    (hadmits : s.admits call) {next : ScheduleRegistry J} (hsave : call.save s.registry = some next) :
    (call.holders s.holders).Pairwise fun a b =>
      a.id = b.id → ¬(s.clock < a.expiresAt ∧ s.clock < b.expiresAt) := by
  cases call with
  | claim host id now ttlMs token =>
      obtain ⟨found, hfound, hclaimable, -⟩ := claim_cases hsave
      have hfree := not_heldOpen_of_claimable h hreads hfound (hadmits found hfound) hclaimable
      refine List.pairwise_append.mpr ⟨h.single, List.pairwise_singleton _ _, ?_⟩
      intro a ha b hb heq hopen
      obtain rfl := List.mem_singleton.mp hb
      exact hfree ⟨a, ha, heq, hopen.1⟩
  | complete id token status => exact h.single.filter _
  | register pipeline => exact h.single
  | reconcile source pipelines dryRun => exact h.single
  | unregister id => exact h.single

theorem SchedulingInv.write (h : SchedulingInv s) (hreads : call.readsClock s.clock)
    (hadmits : s.admits call) {next : ScheduleRegistry J} (hsave : call.save s.registry = some next)
    (caller signature : ℕ) : SchedulingInv (s.write caller signature call next) where
  nodup := nodup_save h.nodup hsave
  kept := (findSchedule_save h.nodup hsave).trans (by rw [h.kept]; rfl)
  locked claim hclaim hopen schedule hschedule := by
    refine locked_effect h hreads hadmits hsave claim hclaim hopen schedule ?_
    rw [← findSchedule_save h.nodup hsave]
    exact hschedule
  single := single_holders h hreads hadmits hsave
  reads := (h.leave caller).reads

theorem SchedulingInv.step {a : SchedulerAction J} (h : SchedulingInv s) (hok : Undisturbed s a)
    (hstep : schedulerStep valid s a = some t) : SchedulingInv t := by
  cases a with
  | tick ms =>
      obtain rfl := Option.some.inj hstep
      have hle : s.clock ≤ s.clock + ms := by omega
      exact {
        nodup := h.nodup
        kept := h.kept
        locked := fun claim hclaim hopen => h.locked claim hclaim (Int.lt_of_le_of_lt hle hopen)
        single := h.single.imp fun hab heq ⟨ha, hb⟩ =>
          hab heq ⟨Int.lt_of_le_of_lt hle ha, Int.lt_of_le_of_lt hle hb⟩
        reads := fun caller call registry hpending =>
          readsClock_mono (h.reads caller call registry hpending) hle }
  | load caller process call =>
      obtain ⟨⟨-, hreads⟩, ht⟩ := Option.ite_none_right_eq_some.mp hstep
      obtain rfl := Option.some.inj ht
      exact { h with
        reads := fun other call' registry hpending => by
          by_cases hother : other = caller
          · simp [hother] at hpending
            exact hpending.1 ▸ hreads
          · dsimp only at hpending
            rw [Function.update_of_ne hother] at hpending
            exact h.reads other call' registry hpending }
  | save caller signature =>
      simp only [schedulerStep, save] at hstep
      split at hstep
      · cases hstep
      · rename_i call registry hpending
        split at hstep
        · obtain rfl := Option.some.inj hstep
          exact h.leave caller
        · rename_i next hsave
          obtain ⟨-, ht⟩ := Option.ite_none_right_eq_some.mp hstep
          obtain rfl := Option.some.inj ht
          rw [Undisturbed, hpending] at hok
          obtain ⟨rfl, hadmits⟩ := hok (by simp [hsave])
          exact h.write (h.reads caller call _ hpending) hadmits hsave caller signature
  | fail caller =>
      obtain ⟨-, ht⟩ := Option.ite_none_right_eq_some.mp hstep
      obtain rfl := Option.some.inj ht
      exact h.leave caller

/-- A schedule is claimed once at a time, and the registry holds what the calls that saved make of
each schedule. -/
structure SchedulesSafe (s : Scheduling J) : Prop where
  claimedOnce : s.holders.Pairwise fun a b =>
    a.id = b.id → ¬(s.clock < a.expiresAt ∧ s.clock < b.expiresAt)
  kept : ∀ id, findSchedule s.registry id = s.schedules id

/-- When calls save over the registry that they have loaded, no change of a schedule is lost and a
run is claimed once. -/
theorem schedules_safe (h : (scheduler valid).Reach Undisturbed s) : SchedulesSafe s := by
  have hinv : SchedulingInv s := by
    refine h.invariant (fun s h0 => ?_) fun _ _ _ hs hok hstep => hs.step hok hstep
    obtain ⟨hnodup, hpending, hholders, hschedules⟩ := h0
    exact {
      nodup := hnodup
      kept := hschedules.symm
      locked := fun claim hclaim => by simp [hholders] at hclaim
      single := by simp [hholders]
      reads := fun caller call registry hcall => by simp [hpending] at hcall }
  exact ⟨hinv.single, fun id => congrFun hinv.kept id⟩

section Interleaving

def hourly (id : String) : ScheduledPipeline Unit where
  id := id
  name := id
  pipelinePath := "pipelines/health.json"
  actuator := "system"
  trigger := .interval 3600000 none
  enabled := true

def anyHost : SchedulerHost where
  scheduleAllowedByOperator _ := true
  scheduleExplicitlyOptedIn _ := false
  matchesCron _ _ _ := false
  sameZonedMinute _ _ _ := false
  hasMissedCronOccurrence _ _ _ _ := false

/-- The registry file names one schedule. -/
def oneSchedule : Scheduling Unit where
  file := some ([hourly "a"], 0)
  caches _ := none
  clock := 0
  schedules := findSchedule [hourly "a"]

theorem oneSchedule_init (valid : ScheduleRegistry Unit → Bool) :
    (scheduler valid).init oneSchedule :=
  ⟨List.nodup_singleton _, rfl, rfl, rfl⟩

/-- Claims that load the registry before either saves it both get the run, and of two registrations
that do so one is lost. -/
theorem run_claimed_twice_and_schedule_lost :
    (∃ s, (scheduler (J := Unit) fun _ => true).Reachable s ∧ s.clock = 0 ∧ s.holders =
      [⟨"a", "first", 0, 900000⟩, ⟨"a", "second", 0, 900000⟩]) ∧
    ∃ s, (scheduler (J := Unit) fun _ => true).Reachable s ∧
      s.schedules "b" = some (hourly "b") ∧ findSchedule s.registry "b" = none := by
  constructor
  · exact System.exists_reachable_of_exec (S := scheduler fun _ => true) (s := oneSchedule)
      [.load 0 0 (.claim anyHost "a" 0 900000 "first"),
        .load 1 1 (.claim anyHost "a" 0 900000 "second"), .save 0 1, .save 1 2]
      (fun s => s.clock = 0 ∧ s.holders =
        [⟨"a", "first", 0, 900000⟩, ⟨"a", "second", 0, 900000⟩])
      (oneSchedule_init _) (by decide +kernel)
  · exact System.exists_reachable_of_exec (S := scheduler fun _ => true) (s := oneSchedule)
      [.load 0 0 (.register (hourly "b")), .load 1 1 (.register (hourly "c")), .save 0 1, .save 1 2]
      (fun s => s.schedules "b" = some (hourly "b") ∧ findSchedule s.registry "b" = none)
      (oneSchedule_init _) (by decide +kernel)

/-- One call after another: a run is claimed, refused and completed beside a registration. -/
theorem schedules_safe_turns : ∃ s,
    (scheduler (J := Unit) fun _ => true).Reach Undisturbed s ∧ SchedulesSafe s ∧
      s.holders = [] ∧ (findSchedule s.registry "b").isSome := by
  obtain ⟨s, hs, hholders, hb⟩ := System.exists_reach_of_execOk
    (S := scheduler (J := Unit) fun _ => true) (fun s a => decide (Undisturbed s a))
    (s := oneSchedule)
    [.load 0 0 (.claim anyHost "a" 0 900000 "first"), .save 0 1,
      .load 1 1 (.claim anyHost "a" 0 900000 "second"), .save 1 2,
      .load 1 1 (.register (hourly "b")), .save 1 3,
      .tick 60000, .load 0 0 (.complete "a" "first" .succeeded), .save 0 4]
    (fun s => s.holders = [] ∧ (findSchedule s.registry "b").isSome)
    (oneSchedule_init _) (by decide +kernel)
  have hreach := hs.mono fun _ _ h => of_decide_eq_true h
  exact ⟨s, hreach, schedules_safe hreach, hholders, hb⟩

end Interleaving

end Kyberion.Pipeline
