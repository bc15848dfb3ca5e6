import Kyberion.Lock.Promise

/-!
Mutual exclusion of the file lock. A reclaim reads the lock record and probes
its owner in two calls; while every probe made under the guard meets the record
it loaded, all promises hold in every run and no resource has two owners. A
probe that meets another record can displace a live lock.
-/

namespace Kyberion.Lock

open Transition

section Runs

variable {R : Type} [DecidableEq R]

/-- An under-guard probe that answers `ESRCH` is made while the record it loaded is in place. -/
def probeMeetsRecord (s : State R) : Label R → Bool
  | .tick p obs =>
      match (s.procs p).pc with
      | .probe content pid (.current r) =>
          s.alive pid || obs.probeFails || s.files.read (.lock r) = some content
      | _ => true
  | _ => true

theorem read_of_probe {s : State R} {p : Pid} {obs : Obs R} {content : Content R} {pid : Pid}
    {r : R} (hok : probeMeetsRecord s (.tick p obs) = true)
    (hpc : (s.procs p).pc = .probe content pid (.current r))
    (hdead : s.alive pid = false ∧ obs.probeFails = false) :
    s.files.read (.lock r) = some content := by
  simpa [probeMeetsRecord, hpc, hdead.1, hdead.2] using hok

theorem follows_load {s : State R} {p : Pid} {purpose : Purpose R} {obs : Obs R}
    (h : Promise s p) (halive : s.alive p = true) (hpc : (s.procs p).pc = .load purpose) :
    Promise (s.goto p (s.load p purpose obs)) p ∧
      Guarantee s (s.goto p (s.load p purpose obs)) p := by
  have hsup := hpc ▸ h.supports
  refine follows_goto h halive ?_
  unfold State.load
  cases hread : s.files.read purpose.file with
  | none =>
      refine supports_resume hsup.guard hsup.doomed ?_
      intro r _ hreclaim
      simp [lockReclaimable, RecordView.gone] at hreclaim
  | some content =>
      simp only
      split
      · refine supports_resume hsup.guard hsup.doomed ?_
        intro r _ hreclaim
        simp [lockReclaimable] at hreclaim
      cases howner : content.owner with
      | none =>
          refine supports_resume hsup.guard hsup.doomed ?_
          rintro r rfl -
          exact ⟨content, hread, fun q hq => by simp [howner] at hq⟩
      | some pid =>
          refine ⟨hsup.guard, hsup.doomed, fun r hr => by simp at hr,
            fun r hr => by simp [Pc.releases] at hr, ?_⟩
          rintro content' pid' purpose' hprobe
          obtain ⟨rfl, rfl, -⟩ := Pc.probe.inj hprobe
          exact howner

theorem follows_probe {s : State R} {p : Pid} {content : Content R} {pid : Pid}
    {purpose : Purpose R} {obs : Obs R} (h : Promise s p) (halive : s.alive p = true)
    (hpc : (s.procs p).pc = .probe content pid purpose)
    (hok : probeMeetsRecord s (.tick p obs) = true) {state : OwnerState}
    (hstate : state = if s.alive pid || obs.probeFails then .live else .dead) :
    let t := s.goto p (resume (s.procs p).mine ⟨state, obs.aged, content.identity⟩ purpose)
    Promise t p ∧ Guarantee s t p := by
  have hsup := hpc ▸ h.supports
  refine follows_goto h halive (supports_resume hsup.guard hsup.doomed ?_)
  rintro r rfl hreclaim
  have hdead : s.alive pid = false ∧ obs.probeFails = false := by
    by_contra hno
    have hlive : (s.alive pid || obs.probeFails) = true := by
      cases hpid : s.alive pid <;> simp_all
    simp [lockReclaimable, hstate, hlive] at hreclaim
  refine ⟨content, read_of_probe hok hpc hdead, ?_⟩
  intro q howner
  rw [hsup.probing content pid _ rfl] at howner
  exact Option.some.inj howner ▸ hdead.1

/-- One tick keeps the promise of its process and the guarantee to the others. -/
theorem follows_tick {s t : State R} {p : Pid} {obs : Obs R} (h : Promise s p)
    (halive : s.alive p = true) (hok : probeMeetsRecord s (.tick p obs) = true)
    (htick : s.tick p obs = some t) : Promise t p ∧ Guarantee s t p := by
  have hsup := h.supports
  unfold State.tick at htick
  simp only at htick
  cases hpc : (s.procs p).pc with
  | idle => simp [hpc] at htick
  | publishLock r =>
      rw [hpc] at htick
      simp only at htick
      split at htick
      · obtain rfl := Option.some.inj htick
        exact follows_goto h halive (supports_idle s p)
      split at htick
      · rename_i hpub
        obtain rfl := Option.some.inj htick
        exact follows_publishLock h halive hpub
      · obtain rfl := Option.some.inj htick
        exact follows_goto h halive
          (supports_load (by simp [Purpose.guarded]) (by simp [Purpose.aims]))
  | publishGuard r =>
      rw [hpc] at htick
      simp only at htick
      split at htick
      · obtain rfl := Option.some.inj htick
        exact follows_goto h halive (supports_idle s p)
      split at htick
      · rename_i hpub
        obtain rfl := Option.some.inj htick
        exact follows_publishGuard h halive hpub
      · obtain rfl := Option.some.inj htick
        exact follows_goto h halive
          (supports_load (by simp [Purpose.guarded]) (by simp [Purpose.aims]))
  | load purpose =>
      rw [hpc] at htick
      obtain rfl := Option.some.inj htick
      exact follows_load h halive hpc
  | probe content pid purpose =>
      rw [hpc] at htick
      obtain rfl := Option.some.inj htick
      exact follows_probe h halive hpc hok rfl
  | sweep r names removed =>
      rw [hpc] at htick hsup
      have hmine := hsup.guard r (by simp [Pc.guarded])
      have hcurrent : Supports s p (.load (.current r)) := by
        refine supports_load ?_ (by simp [Purpose.aims])
        intro r' hr
        obtain rfl : r = r' := by simpa [Purpose.guarded] using hr
        exact hmine
      have hsweep : ∀ rest n, Supports s p (.sweep r rest n) := by
        intro rest n
        constructor <;> simp [Pc.guarded, Pc.aims, Pc.releases, hmine]
      cases names with
      | nil =>
          obtain rfl := Option.some.inj htick
          exact follows_goto h halive hcurrent
      | cons name rest =>
          simp only at htick
          split at htick
          · obtain rfl := Option.some.inj htick
            exact follows_goto h halive hcurrent
          split at htick
          · rename_i hlitter
            obtain rfl := Option.some.inj htick
            cases name with
            | tomb name => exact follows_unlinkTomb h halive (hsweep rest _)
            | lock r' => simp [FileName.litter] at hlitter
            | guard r' => simp [FileName.litter] at hlitter
          · obtain rfl := Option.some.inj htick
            exact follows_goto h halive (hsweep rest _)
  | rename ofGuard r expected =>
      rw [hpc] at htick hsup
      have hmine := hsup.guard r (by simp [Pc.guarded])
      have hdoomed : ofGuard = false → s.DoomedLock r := by
        intro hof
        exact hsup.doomed r (by simp [Pc.aims, hof])
      simp only at htick
      split at htick
      · obtain rfl := Option.some.inj htick
        exact follows_goto h halive (supports_after fun _ => hmine)
      split at htick
      · obtain rfl := Option.some.inj htick
        exact follows_goto h halive (supports_after fun _ => hmine)
      · rename_i hren
        obtain rfl := Option.some.inj htick
        exact follows_rename ⟨ofGuard, r, p, obs.ts, obs.nonce⟩ h halive hmine hdoomed hren
  | unlinkTomb tomb =>
      rw [hpc] at htick hsup
      obtain rfl := Option.some.inj htick
      refine follows_unlinkTomb h halive (supports_after ?_)
      intro hof
      exact hsup.guard tomb.r (by simp [Pc.guarded, hof])
  | putBack tomb =>
      rw [hpc] at htick hsup
      have hmine : tomb.ofGuard = false → s.Names (.guard tomb.r) p := by
        intro hof
        exact hsup.guard tomb.r (by simp [Pc.guarded, hof])
      simp only at htick
      split at htick
      · obtain rfl := Option.some.inj htick
        exact follows_goto h halive (supports_after hmine)
      split at htick
      · obtain rfl := Option.some.inj htick
        exact follows_goto h halive (supports_after hmine)
      split at htick
      · rename_i hpub
        obtain rfl := Option.some.inj htick
        exact follows_putBack h halive hmine hpub
      · obtain rfl := Option.some.inj htick
        exact follows_goto h halive (supports_after hmine)
  | releaseExists r =>
      rw [hpc] at htick hsup
      have hfree := hsup.release r (by simp [Pc.releases])
      obtain rfl := Option.some.inj htick
      refine follows_goto h halive ?_
      split
      · constructor <;> simp [Pc.guarded, Pc.aims, Pc.releases, hfree]
      · exact supports_idle s p
  | releaseLoad r =>
      rw [hpc] at htick hsup
      have hfree := hsup.release r (by simp [Pc.releases])
      obtain rfl := Option.some.inj htick
      refine follows_goto h halive ?_
      split
      · rename_i hown
        simp only [Bool.and_eq_true, decide_eq_true_eq] at hown
        constructor <;> simp [Pc.guarded, Pc.aims, Pc.releases, hfree]
        exact hown.2
      · exact supports_idle s p
  | releaseUnlink r =>
      rw [hpc] at htick hsup
      obtain rfl := Option.some.inj htick
      exact follows_releaseUnlink h halive (hsup.unlink r rfl)
        (hsup.release r (by simp [Pc.releases]))

theorem promise_absent (s : State R) (p : Pid) (h : s.procs p = Proc.absent) : Promise s p := by
  have hdead : s.alive p = false := by
    simp [State.alive, h, Proc.absent]
  refine ⟨?_, ?_, ?_, ?_⟩
  · simp [hdead]
  · simp [h, Proc.absent]
  · simp [h, Proc.absent]
  · rw [h]
    exact supports_idle s p

/-- A new process reuses no pid that a record still names. -/
theorem follows_spawn {s t : State R} {p : Pid} (hstep : s.step (.spawn p) = some t) :
    Promise t p ∧ Guarantee s t p := by
  simp only [State.step] at hstep
  split at hstep
  · cases hstep
  rename_i hfresh
  obtain rfl := Option.some.inj hstep
  simp only [not_or, List.any_eq_true, decide_eq_true_eq, not_exists, not_and] at hfresh
  obtain ⟨hdead, hpos, hunnamed⟩ := hfresh
  have hself : (s.setProc p { (Proc.absent : Proc R) with alive := true }).procs p =
      { (Proc.absent : Proc R) with alive := true } := State.setProc_self _ _ _
  refine ⟨⟨?_, ?_, ?_, ?_⟩, fun q hne => State.setProc_of_ne _ _ hne,
    fun _ => .inl rfl, fun _ => .inl rfl, ?_⟩
  · intro _
    exact Nat.pos_of_ne_zero hpos
  · simp [Proc.absent]
  · simp [Proc.absent]
  · rw [hself]
    exact supports_idle _ p
  · intro r content hread hdoomed q howner
    have hne : q ≠ p := by
      rintro rfl
      exact hunnamed _ (Directory.mem_of_read hread) howner
    rw [State.alive, State.setProc_of_ne _ _ hne]
    exact hdoomed q howner

theorem follows_crash {s t : State R} {p : Pid} (hstep : s.step (.crash p) = some t) :
    Promise t p ∧ Guarantee s t p := by
  simp only [State.step] at hstep
  split at hstep
  · obtain rfl := Option.some.inj hstep
    refine ⟨promise_absent _ p (State.setProc_self _ _ _),
      fun q hne => State.setProc_of_ne _ _ hne, fun _ => .inl rfl, fun _ => .inl rfl, ?_⟩
    intro r content _ hdoomed q howner
    by_cases hq : q = p
    · subst hq
      rw [State.alive, State.setProc_self]
      rfl
    · rw [State.alive, State.setProc_of_ne _ _ hq]
      exact hdoomed q howner
  · cases hstep

theorem follows_acquire {s t : State R} {p : Pid} {r : R} (h : Promise s p)
    (hstep : s.step (.acquire p r) = some t) : Promise t p ∧ Guarantee s t p := by
  simp only [State.step] at hstep
  split at hstep
  · rename_i hready
    obtain rfl := Option.some.inj hstep
    refine follows_goto h hready.1 ?_
    constructor <;> simp [Pc.guarded, Pc.aims, Pc.releases]
  · cases hstep

theorem follows_release {s t : State R} {p : Pid} {r : R} (h : Promise s p)
    (hstep : s.step (.release p r) = some t) : Promise t p ∧ Guarantee s t p := by
  simp only [State.step] at hstep
  split at hstep
  · rename_i hready
    obtain rfl := Option.some.inj hstep
    refine follows_change _ h hready.1 (fun q hne => State.setProc_of_ne _ _ hne)
      (State.setProc_self _ _ _) hready.1 ?_ ?_ (fun _ => .inl rfl) (fun _ => .inl rfl)
    · intro r' hheld
      by_cases hr : r' = r
      · simp [hr] at hheld
      · simpa [Function.update_of_ne hr] using hheld
    · constructor <;> simp [Pc.guarded, Pc.aims, Pc.releases]
  · cases hstep

/-- All promises hold together. -/
def Promised (s : State R) : Prop :=
  ∀ p, Promise s p

def Label.actor : Label R → Pid
  | .spawn p | .acquire p _ | .release p _ | .tick p _ | .crash p => p

theorem follows_step {s t : State R} {label : Label R} (h : Promised s)
    (hok : probeMeetsRecord s label = true) (hstep : s.step label = some t) :
    Promise t label.actor ∧ Guarantee s t label.actor := by
  cases label with
  | spawn p => exact follows_spawn hstep
  | acquire p r => exact follows_acquire (h p) hstep
  | release p r => exact follows_release (h p) hstep
  | crash p => exact follows_crash hstep
  | tick p obs =>
      simp only [State.step] at hstep
      split at hstep
      · rename_i halive
        exact follows_tick (h p) halive hok hstep
      · cases hstep

theorem promised_step {s t : State R} {label : Label R} (h : Promised s)
    (hok : probeMeetsRecord s label = true) (hstep : s.step label = some t) : Promised t := by
  obtain ⟨hself, hguarantee⟩ := follows_step h hok hstep
  intro q
  by_cases hq : q = label.actor
  · exact hq ▸ hself
  · exact (h q).stable hguarantee hq

theorem promised_reach {s : State R} (hs : (lockSystem R).Reach (fun s label => probeMeetsRecord s label) s) :
    Promised s :=
  hs.invariant (fun s (h : ∀ p, s.procs p = Proc.absent) p => promise_absent s p (h p))
    (fun _ _ _ h hok hstep => promised_step h hok hstep)

end Runs

/-- At most one live process is inside the critical section of a resource. -/
def MutualExclusion {R : Type} [DecidableEq R] (s : State R) : Prop :=
  ∀ r p q, inside s p r → inside s q r → p = q

theorem lock_mutual_exclusion {R : Type} [DecidableEq R] {s : State R}
    (hs : (lockSystem R).Reach (fun s label => probeMeetsRecord s label) s) : MutualExclusion s := by
  intro r p q hp hq
  have hpromised := promised_reach hs
  exact ((hpromised p).held r hp.2).unique ((hpromised q).held r hq.2)

/-- Process 9 left a lock record behind; process 7 left none. -/
def deadRecord : Content String :=
  .record ⟨some 9, some 0, some "store", none⟩

def leftOver : State String :=
  ⟨⟨[(.lock "store", deadRecord)]⟩, fun _ => Proc.absent⟩

def ticks (p : Pid) (n : ℕ) : List (Label String) :=
  List.replicate n (.tick p {})

/-- Process 1 reclaims the record of 9 and takes the lock. -/
theorem lock_mutual_exclusion_after_reclaim :
    ∃ s, inside s 1 "store" ∧ MutualExclusion (R := String) s := by
  obtain ⟨s, hs, hinside⟩ := System.exists_reach_of_execOk
    (S := lockSystem String) probeMeetsRecord (s := leftOver)
    (.spawn 1 :: .acquire 1 "store" :: ticks 1 19 ++ .acquire 1 "store" :: ticks 1 1)
    (fun s => inside s 1 "store") (fun _ => rfl) (by decide)
  exact ⟨s, hinside, lock_mutual_exclusion hs⟩

/-- Reclaimer 1 inspects under its guard while 3 and 4 take the lock in turn. -/
def displacingRun : List (Label String) :=
  [.spawn 1, .spawn 2, .spawn 3, .spawn 4, .spawn 5, .acquire 1 "store", .acquire 2 "store"] ++
  -- both reclaimers find the record of 9 dead; 2 removes it and leaves
  ticks 1 3 ++ ticks 2 19 ++
  -- 3 takes the lock; 1 reads its record under the guard
  .acquire 3 "store" :: ticks 3 1 ++ ticks 1 3 ++
  -- 3 releases and exits, 4 takes the lock, then 1 probes 3
  .release 3 "store" :: ticks 3 3 ++ .acquire 4 "store" :: ticks 4 1 ++ .crash 3 :: ticks 1 1 ++
  -- 1 moves the record of 4 to a tomb and 5 takes the free name
  ticks 1 3 ++ .acquire 5 "store" :: ticks 5 1

theorem lock_admits_two_owners :
    ¬ ∀ s, (lockSystem String).Reachable s → MutualExclusion s := by
  intro h
  obtain ⟨s, hs, h4, h5⟩ := System.exists_reachable_of_exec
    (S := lockSystem String) (s := leftOver) displacingRun
    (fun s => inside s 4 "store" ∧ inside s 5 "store") (fun _ => rfl) (by decide)
  exact absurd (h s hs "store" 4 5 h4 h5) (by decide)

end Kyberion.Lock
