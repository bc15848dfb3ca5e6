import Mathlib.Logic.Function.Basic
import Kyberion.Directory
import Kyberion.Transition

/-!
The file lock as a system of processes over one lock directory. A tick runs one
file-system call or one owner probe of one process; every value the runtime
supplies (ages, failures, clocks, directory listings) is part of the label. A
process runs one synchronous segment at a time. Exclusive publication is one
atomic step, so publication temporaries never appear.
-/

namespace Kyberion.Lock

open Transition

abbrev Pid := ℕ

/-- `JSON.stringify([pid, ts, id, nonce])`, with `none` for an absent member. -/
structure Identity (R : Type) where
  pid : Option ℕ
  ts : Option ℕ
  id : Option R
  nonce : Option ℕ
  deriving DecidableEq, Repr

/-- A lock file: unparsable bytes, or a record whose pid may be unusable. -/
inductive Content (R : Type)
  | malformed
  | record (identity : Identity R)
  deriving DecidableEq, Repr

variable {R : Type} [DecidableEq R]

def Content.identity : Content R → Option (Identity R)
  | .malformed => none
  | .record identity => some identity

/-- The positive pid that a record names. -/
def Content.owner : Content R → Option Pid
  | .malformed => none
  | .record identity => identity.pid.bind fun pid => if 0 < pid then some pid else none

/-- A displaced lock or guard of `r`: `<file>.stale-<cleaner>-<created>-<serial>`. -/
structure TombName (R : Type) where
  ofGuard : Bool
  r : R
  cleaner : Pid
  created : ℕ
  serial : ℕ
  deriving DecidableEq, Repr

inductive FileName (R : Type)
  | lock (r : R)
  | guard (r : R)
  | tomb (name : TombName R)
  deriving DecidableEq, Repr

inductive OwnerState
  | live | dead | missing | unknown
  deriving DecidableEq, Repr

structure RecordView (R : Type) where
  state : OwnerState
  aged : Bool
  identity : Option (Identity R)
  deriving DecidableEq, Repr

def RecordView.gone : RecordView R :=
  ⟨.missing, false, none⟩

/-- A lock record may be removed: its owner is gone, or it is unverifiable and old. -/
def lockReclaimable (view : RecordView R) : Bool :=
  view.state = .dead ∨ (view.state = .unknown ∧ view.aged)

/-- What the result of an inspection is for. -/
inductive Purpose (R : Type)
  | initial (r : R)
  | holder (r : R)
  | current (r : R)
  | guardCheck (r : R) (current : RecordView R)
  | claimed (tomb : TombName R) (expected : RecordView R)
  | own (r : R)
  deriving DecidableEq, Repr

def Purpose.file : Purpose R → FileName R
  | .initial r | .current r => .lock r
  | .holder r | .guardCheck r _ | .own r => .guard r
  | .claimed tomb _ => .tomb tomb

/-- The next call of a process. -/
inductive Pc (R : Type)
  | idle
  | publishLock (r : R)
  | publishGuard (r : R)
  | load (purpose : Purpose R)
  | probe (content : Content R) (pid : Pid) (purpose : Purpose R)
  | sweep (r : R) (names : List (FileName R)) (removed : ℕ)
  | rename (ofGuard : Bool) (r : R) (expected : RecordView R)
  | unlinkTomb (tomb : TombName R)
  | putBack (tomb : TombName R)
  | releaseExists (r : R)
  | releaseLoad (r : R)
  | releaseUnlink (r : R)
  deriving DecidableEq, Repr

structure Proc (R : Type) where
  alive : Bool
  held : R → Bool
  pc : Pc R
  /-- Identity of the guard the running reclaim published. -/
  mine : Option (Identity R)

def Proc.absent : Proc R :=
  ⟨false, fun _ => false, .idle, none⟩

structure State (R : Type) where
  files : Directory (FileName R) (Content R)
  procs : Pid → Proc R

/-- What the runtime answers in one tick. -/
structure Obs (R : Type) where
  aged : Bool := false
  ioFails : Bool := false
  /-- The probe fails with something other than `ESRCH`. -/
  probeFails : Bool := false
  ts : ℕ := 0
  nonce : ℕ := 0
  names : List (FileName R) := []
  deriving DecidableEq, Repr

inductive Label (R : Type)
  | spawn (p : Pid)
  | acquire (p : Pid) (r : R)
  | release (p : Pid) (r : R)
  | tick (p : Pid) (obs : Obs R)
  | crash (p : Pid)
  deriving DecidableEq, Repr

def lockSweepLimit : ℕ := 32

def ownerRecord (p : Pid) (ts : ℕ) (r : R) : Content R :=
  .record ⟨some p, some ts, some r, none⟩

def guardIdentity (p : Pid) (ts nonce : ℕ) : Identity R :=
  ⟨some p, some ts, none, some nonce⟩

def baseFile (ofGuard : Bool) (r : R) : FileName R :=
  if ofGuard then .guard r else .lock r

/-- The `finally` block of the reclaim. -/
def finishReclaim (r : R) : Pc R :=
  .load (.own r)

/-- Where a removal continues: the lock's inside the guarded region, the guard's outside. -/
def afterRemoval (ofGuard : Bool) (r : R) : Pc R :=
  if ofGuard then .idle else finishReclaim r

def removable (ofGuard : Bool) (mine : Option (Identity R)) (view : RecordView R) : Bool :=
  if ofGuard then view.identity = mine else lockReclaimable view

/-- The branch a process takes on an inspected record. -/
def resume (mine : Option (Identity R)) (view : RecordView R) : Purpose R → Pc R
  | .initial r =>
      if view.state = .missing then .idle
      else if lockReclaimable view then .publishGuard r else .idle
  | .holder _ => .idle
  | .current r =>
      if view.state = .missing then finishReclaim r
      else if lockReclaimable view then .load (.guardCheck r view)
      else finishReclaim r
  | .guardCheck r current =>
      if view.identity = mine then .rename false r current else finishReclaim r
  | .claimed tomb expected =>
      if view.state = .missing then afterRemoval tomb.ofGuard tomb.r
      else if view.identity = expected.identity ∧ removable tomb.ofGuard mine view then
        .unlinkTomb tomb
      else .putBack tomb
  | .own r => if view.identity = mine then .rename true r view else .idle

def FileName.litter (alive : Pid → Bool) (obs : Obs R) : FileName R → Bool
  | .tomb name => obs.aged && !(alive name.cleaner || obs.probeFails)
  | _ => false

namespace State

def alive (s : State R) (p : Pid) : Bool :=
  (s.procs p).alive

def setProc (s : State R) (p : Pid) (proc : Proc R) : State R :=
  ⟨s.files, Function.update s.procs p proc⟩

def goto (s : State R) (p : Pid) (pc : Pc R) : State R :=
  s.setProc p { s.procs p with pc := pc }

def withFiles (s : State R) (files : Directory (FileName R) (Content R)) : State R :=
  ⟨files, s.procs⟩

/-- A failed best-effort unlink leaves the file. -/
def unlinkUnless (s : State R) (fails : Bool) (file : FileName R) : State R :=
  if fails then s else s.withFiles (s.files.unlink file)

/-- Loads a record; an unreadable one counts as live, an unusable pid as unknown. -/
def load (s : State R) (p : Pid) (purpose : Purpose R) (obs : Obs R) : Pc R :=
  let mine := (s.procs p).mine
  match s.files.read purpose.file with
  | none => resume mine .gone purpose
  | some content =>
      if obs.ioFails then resume mine ⟨.live, obs.aged, none⟩ purpose
      else match content.owner with
        | none => resume mine ⟨.unknown, obs.aged, content.identity⟩ purpose
        | some pid => .probe content pid purpose

def tick (s : State R) (p : Pid) (obs : Obs R) : Option (State R) :=
  let proc := s.procs p
  match proc.pc with
  | .idle => none
  | .publishLock r =>
      if obs.ioFails then some (s.goto p .idle)
      else match s.files.publishExclusive (.lock r) (ownerRecord p obs.ts r) with
        | some files => some ((s.withFiles files).setProc p
            { proc with pc := .idle, held := Function.update proc.held r true })
        | none => some (s.goto p (.load (.initial r)))
  | .publishGuard r =>
      if obs.ioFails then some (s.goto p .idle)
      else match s.files.publishExclusive (.guard r)
          (.record (guardIdentity p obs.ts obs.nonce)) with
        | some files => some ((s.withFiles files).setProc p
            { proc with
              pc := .sweep r obs.names 0, mine := some (guardIdentity p obs.ts obs.nonce) })
        | none => some (s.goto p (.load (.holder r)))
  | .load purpose => some (s.goto p (s.load p purpose obs))
  | .probe content pid purpose =>
      let state := if s.alive pid || obs.probeFails then OwnerState.live else .dead
      some (s.goto p (resume proc.mine ⟨state, obs.aged, content.identity⟩ purpose))
  | .sweep r names removed =>
      match names with
      | [] => some (s.goto p (.load (.current r)))
      | name :: rest =>
          if lockSweepLimit ≤ removed then some (s.goto p (.load (.current r)))
          else if name.litter s.alive obs then
            some ((s.unlinkUnless obs.ioFails name).goto p (.sweep r rest (removed + 1)))
          else some (s.goto p (.sweep r rest removed))
  | .rename ofGuard r expected =>
      let tomb : TombName R := ⟨ofGuard, r, p, obs.ts, obs.nonce⟩
      if obs.ioFails then some (s.goto p (afterRemoval ofGuard r))
      else match s.files.rename (baseFile ofGuard r) (.tomb tomb) with
        | none => some (s.goto p (afterRemoval ofGuard r))
        | some files => some ((s.withFiles files).goto p (.load (.claimed tomb expected)))
  | .unlinkTomb tomb =>
      some ((s.unlinkUnless obs.ioFails (.tomb tomb)).goto p (afterRemoval tomb.ofGuard tomb.r))
  | .putBack tomb =>
      let after := afterRemoval tomb.ofGuard tomb.r
      if obs.ioFails then some (s.goto p after)
      else match s.files.read (.tomb tomb) with
        | none => some (s.goto p after)
        | some content =>
            match s.files.publishExclusive (baseFile tomb.ofGuard tomb.r) content with
            | some files => some ((s.withFiles files).goto p (.unlinkTomb tomb))
            | none => some (s.goto p after)
  | .releaseExists r =>
      some (s.goto p (if (s.files.read (.lock r)).isSome then .releaseLoad r else .idle))
  | .releaseLoad r =>
      some (s.goto p
        (if !obs.ioFails && (s.files.read (.lock r)).bind Content.owner = some p then
          .releaseUnlink r
        else .idle))
  | .releaseUnlink r => some ((s.unlinkUnless obs.ioFails (.lock r)).goto p .idle)

def step (s : State R) : Label R → Option (State R)
  | .spawn p =>
      if s.alive p ∨ p = 0 ∨ (s.files.entries.any fun e => e.2.owner = some p) then none
      else some (s.setProc p { (Proc.absent : Proc R) with alive := true })
  | .acquire p r =>
      if s.alive p ∧ (s.procs p).pc = .idle then some (s.goto p (.publishLock r)) else none
  | .release p r =>
      if s.alive p ∧ (s.procs p).pc = .idle then
        some (s.setProc p { s.procs p with
          pc := .releaseExists r, held := Function.update (s.procs p).held r false })
      else none
  | .tick p obs => if s.alive p then s.tick p obs else none
  | .crash p => if s.alive p then some (s.setProc p Proc.absent) else none

end State

/-- Any left-over files; no process runs yet. -/
def lockSystem (R : Type) [DecidableEq R] : System (State R) (Label R) where
  init s := ∀ p, s.procs p = Proc.absent
  step := State.step

/-- The critical section of `r`: from the granted acquisition to the call of release. -/
def inside (s : State R) (p : Pid) (r : R) : Prop :=
  s.alive p ∧ (s.procs p).held r

instance (s : State R) (p : Pid) (r : R) : Decidable (inside s p r) := by
  unfold inside
  infer_instance

end Kyberion.Lock
