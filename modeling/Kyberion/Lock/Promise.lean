import Kyberion.Lock.Reclaim

/-!
Rely and guarantee for the lock directory. Each process keeps a promise about
the lock and guard records its next call relies on; each step guarantees the
other processes that it displaces only its own records or a doomed one, and so
a promise survives every step of another process.
-/

namespace Kyberion.Lock

namespace State

variable {R : Type}

/-- No live process stands behind the content. -/
def Doomed (s : State R) (content : Content R) : Prop :=
  ∀ q, content.owner = some q → s.alive q = false

@[simp] theorem setProc_files (s : State R) (p : Pid) (proc : Proc R) :
    (s.setProc p proc).files = s.files := rfl

@[simp] theorem setProc_self (s : State R) (p : Pid) (proc : Proc R) :
    (s.setProc p proc).procs p = proc := by
  simp [setProc]

theorem setProc_of_ne (s : State R) {p q : Pid} (proc : Proc R) (h : q ≠ p) :
    (s.setProc p proc).procs q = s.procs q := by
  simp [setProc, h]

@[simp] theorem goto_files (s : State R) (p : Pid) (pc : Pc R) :
    (s.goto p pc).files = s.files := rfl

@[simp] theorem goto_self (s : State R) (p : Pid) (pc : Pc R) :
    (s.goto p pc).procs p = { s.procs p with pc := pc } := by
  simp [goto]

theorem goto_of_ne (s : State R) {p q : Pid} (pc : Pc R) (h : q ≠ p) :
    (s.goto p pc).procs q = s.procs q :=
  setProc_of_ne s _ h

@[simp] theorem withFiles_files (s : State R) (files : Directory (FileName R) (Content R)) :
    (s.withFiles files).files = files := rfl

@[simp] theorem withFiles_procs (s : State R) (files : Directory (FileName R) (Content R)) :
    (s.withFiles files).procs = s.procs := rfl

variable [DecidableEq R]

/-- The record under a name is owned by process `p`. -/
def Names (s : State R) (file : FileName R) (p : Pid) : Prop :=
  (s.files.read file).bind Content.owner = some p

/-- The lock record of `r` is there and doomed. -/
def DoomedLock (s : State R) (r : R) : Prop :=
  ∃ content, s.files.read (.lock r) = some content ∧ s.Doomed content

theorem Names.unique {s : State R} {file : FileName R} {p q : Pid} (hp : s.Names file p)
    (hq : s.Names file q) : p = q :=
  Option.some.inj (hp.symm.trans hq)

theorem Names.congr {s t : State R} {file : FileName R} {p : Pid} (h : s.Names file p)
    (hread : t.files.read file = s.files.read file) : t.Names file p := by
  rw [Names, hread]
  exact h

theorem Names.not_absent {s : State R} {file : FileName R} {p : Pid} (h : s.Names file p) :
    s.files.read file ≠ none := by
  intro hnone
  simp [Names, hnone] at h

/-- A live owner and a doomed record exclude each other. -/
theorem DoomedLock.not_names {s : State R} {r : R} {p : Pid} (h : s.DoomedLock r)
    (halive : s.alive p = true) : ¬ s.Names (.lock r) p := by
  intro hnames
  obtain ⟨content, hread, hdoomed⟩ := h
  obtain ⟨content', hread', howner⟩ := Option.bind_eq_some_iff.mp hnames
  obtain rfl := Option.some.inj (hread.symm.trans hread')
  simp [hdoomed p howner] at halive

@[simp] theorem unlinkUnless_procs (s : State R) (fails : Bool) (file : FileName R) :
    (s.unlinkUnless fails file).procs = s.procs := by
  unfold unlinkUnless
  split <;> rfl

theorem unlinkUnless_read_of_ne (s : State R) (fails : Bool) {file other : FileName R}
    (h : other ≠ file) :
    (s.unlinkUnless fails file).files.read other = s.files.read other := by
  unfold unlinkUnless
  split
  · rfl
  · rw [withFiles_files, Directory.read_unlink_of_ne _ h]

end State

/-- A step of a live process changes no other entry and keeps its own alive. -/
theorem alive_of_other {R : Type} {s t : State R} {p : Pid} (hother : ∀ q, q ≠ p → t.procs q = s.procs q)
    (hself : t.alive p = s.alive p) (q : Pid) : t.alive q = s.alive q := by
  by_cases hq : q = p
  · rw [hq, hself]
  · simp only [State.alive, hother q hq]

section Regions

variable {R : Type} [DecidableEq R]

/-- An inspection made between the publication and the removal of the guard. -/
def Purpose.guarded (r : R) : Purpose R → Bool
  | .current r' | .guardCheck r' _ | .own r' => r' = r
  | .claimed tomb _ => !tomb.ofGuard && tomb.r = r
  | .initial _ | .holder _ => false

/-- The process owns the cleanup guard of `r`. -/
def Pc.guarded (r : R) : Pc R → Bool
  | .load purpose | .probe _ _ purpose => purpose.guarded r
  | .sweep r' _ _ | .rename _ r' _ => r' = r
  | .unlinkTomb tomb | .putBack tomb => !tomb.ofGuard && tomb.r = r
  | _ => false

/-- The process has found the lock record of `r` reclaimable under its guard. -/
def Purpose.aims (r : R) : Purpose R → Bool
  | .guardCheck r' _ => r' = r
  | _ => false

def Pc.aims (r : R) : Pc R → Bool
  | .load purpose | .probe _ _ purpose => purpose.aims r
  | .rename ofGuard r' _ => !ofGuard && r' = r
  | _ => false

def Pc.releases (r : R) : Pc R → Bool
  | .releaseExists r' | .releaseLoad r' | .releaseUnlink r' => r' = r
  | _ => false

theorem Purpose.guarded_of_aims {r : R} {purpose : Purpose R} (h : purpose.aims r = true) :
    purpose.guarded r = true := by
  cases purpose <;> simp_all [Purpose.aims, Purpose.guarded]

theorem Pc.guarded_of_aims {r : R} {pc : Pc R} (h : pc.aims r = true) : pc.guarded r = true := by
  cases pc with
  | load purpose => exact Purpose.guarded_of_aims h
  | probe content pid purpose => exact Purpose.guarded_of_aims h
  | rename ofGuard r' expected =>
      simp only [Pc.aims, Bool.and_eq_true] at h
      exact h.2
  | _ => simp [Pc.aims] at h

/-- What the next call of a process relies on. -/
structure Supports (s : State R) (p : Pid) (pc : Pc R) : Prop where
  guard : ∀ r, pc.guarded r = true → s.Names (.guard r) p
  doomed : ∀ r, pc.aims r = true → s.DoomedLock r
  unlink : ∀ r, pc = .releaseUnlink r → s.Names (.lock r) p
  release : ∀ r, pc.releases r = true → (s.procs p).held r = false
  probing : ∀ content pid purpose, pc = .probe content pid purpose → content.owner = some pid

structure Promise (s : State R) (p : Pid) : Prop where
  positive : s.alive p = true → 0 < p
  absent : s.alive p = false → (s.procs p).pc = .idle ∧ ∀ r, (s.procs p).held r = false
  held : ∀ r, (s.procs p).held r = true → s.Names (.lock r) p
  supports : Supports s p (s.procs p).pc

/-- What a step of `p` from `s` to `t` leaves to the other processes. -/
structure Guarantee (s t : State R) (p : Pid) : Prop where
  procs : ∀ q, q ≠ p → t.procs q = s.procs q
  lock : ∀ r, t.files.read (.lock r) = s.files.read (.lock r) ∨
    s.files.read (.lock r) = none ∨ (s.alive p = true ∧ s.Names (.lock r) p) ∨
    (s.Names (.guard r) p ∧ s.DoomedLock r)
  guard : ∀ r, t.files.read (.guard r) = s.files.read (.guard r) ∨
    s.files.read (.guard r) = none ∨ s.Names (.guard r) p
  doomed : ∀ r content, s.files.read (.lock r) = some content → s.Doomed content →
    t.Doomed content

/-- A promise survives the steps of every other process. -/
theorem Promise.stable {s t : State R} {p q : Pid} (hq : Promise s q) (hG : Guarantee s t p)
    (hne : q ≠ p) : Promise t q := by
  have hproc : t.procs q = s.procs q := hG.procs q hne
  have hlive : ∀ r, s.Names (.lock r) q → s.alive q = true → t.Names (.lock r) q := by
    intro r hnames halive
    rcases hG.lock r with hsame | hnone | ⟨-, hp⟩ | ⟨-, hdoomed⟩
    · exact hnames.congr hsame
    · exact absurd hnone hnames.not_absent
    · exact absurd (hnames.unique hp) hne
    · exact absurd hnames (hdoomed.not_names halive)
  have hguard : ∀ r, s.Names (.guard r) q → t.Names (.guard r) q := by
    intro r hnames
    rcases hG.guard r with hsame | hnone | hp
    · exact hnames.congr hsame
    · exact absurd hnone hnames.not_absent
    · exact absurd (hnames.unique hp) hne
  have hruns : (s.procs q).pc ≠ .idle → s.alive q = true := by
    intro hbusy
    by_contra hdead
    exact hbusy (hq.absent (by simpa using hdead)).1
  refine ⟨?_, ?_, ?_, ?_⟩
  · simpa only [State.alive, hproc] using hq.positive
  · simpa only [State.alive, hproc] using hq.absent
  · intro r hheld
    rw [hproc] at hheld
    refine hlive r (hq.held r hheld) ?_
    by_contra hdead
    simp [(hq.absent (by simpa using hdead)).2 r] at hheld
  rw [hproc]
  have hsup := hq.supports
  refine ⟨fun r h => hguard r (hsup.guard r h), ?_, ?_, ?_, hsup.probing⟩
  · intro r haims
    obtain ⟨content, hread, hdoomed⟩ := hsup.doomed r haims
    refine ⟨content, ?_, hG.doomed r content hread hdoomed⟩
    rcases hG.lock r with hsame | hnone | ⟨halive, hp⟩ | ⟨hother, -⟩
    · rw [hsame, hread]
    · simp [hread] at hnone
    · exact absurd hp (State.DoomedLock.not_names ⟨content, hread, hdoomed⟩ halive)
    · exact absurd ((hsup.guard r (Pc.guarded_of_aims haims)).unique hother) hne
  · intro r hunlink
    exact hlive r (hsup.unlink r hunlink) (hruns (by simp [hunlink]))
  · intro r hreleases
    rw [hproc]
    exact hsup.release r hreleases

/-- A step that leaves every lock and guard record alone. -/
theorem Guarantee.of_files {s t : State R} {p : Pid} (hprocs : ∀ q, q ≠ p → t.procs q = s.procs q)
    (hlock : ∀ r, t.files.read (.lock r) = s.files.read (.lock r))
    (hguard : ∀ r, t.files.read (.guard r) = s.files.read (.guard r))
    (halive : ∀ q, t.alive q = s.alive q) : Guarantee s t p where
  procs := hprocs
  lock r := .inl (hlock r)
  guard r := .inl (hguard r)
  doomed r content _ hdoomed q howner := by rw [halive q, hdoomed q howner]

theorem supports_idle (s : State R) (p : Pid) : Supports s p .idle := by
  constructor <;> simp [Pc.guarded, Pc.aims, Pc.releases]

theorem supports_finish {s : State R} {p : Pid} {r : R} (h : s.Names (.guard r) p) :
    Supports s p (finishReclaim r) := by
  constructor <;>
    simp [finishReclaim, Pc.guarded, Purpose.guarded, Pc.aims, Purpose.aims, Pc.releases, h]

theorem supports_after {s : State R} {p : Pid} {ofGuard : Bool} {r : R}
    (h : ofGuard = false → s.Names (.guard r) p) : Supports s p (afterRemoval ofGuard r) := by
  cases ofGuard with
  | false => exact supports_finish (h rfl)
  | true => exact supports_idle s p

theorem supports_load {s : State R} {p : Pid} {purpose : Purpose R}
    (hguard : ∀ r, purpose.guarded r = true → s.Names (.guard r) p)
    (haims : ∀ r, purpose.aims r = true → s.DoomedLock r) : Supports s p (.load purpose) where
  guard := hguard
  doomed := haims
  unlink r h := by cases h
  release r h := by cases h
  probing content pid purpose' h := by cases h

theorem supports_tomb {s : State R} {p : Pid} {tomb : TombName R} {pc : Pc R}
    (h : tomb.ofGuard = false → s.Names (.guard tomb.r) p)
    (hpc : pc = .unlinkTomb tomb ∨ pc = .putBack tomb) : Supports s p pc := by
  rcases hpc with rfl | rfl <;> constructor <;> simp [Pc.guarded, Pc.aims, Pc.releases] <;> exact h

/-- The branch taken on an inspection keeps what the inspection relied on. -/
theorem supports_resume {s : State R} {p : Pid} {mine : Option (Identity R)} {view : RecordView R}
    {purpose : Purpose R} (hguard : ∀ r, purpose.guarded r = true → s.Names (.guard r) p)
    (haims : ∀ r, purpose.aims r = true → s.DoomedLock r)
    (hcurrent : ∀ r, purpose = .current r → lockReclaimable view = true → s.DoomedLock r) :
    Supports s p (resume mine view purpose) := by
  cases purpose with
  | initial r =>
      simp only [resume]
      split_ifs
      · exact supports_idle s p
      · constructor <;> simp [Pc.guarded, Pc.aims, Pc.releases]
      · exact supports_idle s p
  | holder r => exact supports_idle s p
  | current r =>
      have hmine := hguard r (by simp [Purpose.guarded])
      simp only [resume]
      split_ifs with hmissing hreclaim
      · exact supports_finish hmine
      · refine supports_load ?_ ?_
        · intro r' h
          obtain rfl : r = r' := by simpa [Purpose.guarded] using h
          exact hmine
        · intro r' h
          obtain rfl : r = r' := by simpa [Purpose.aims] using h
          exact hcurrent r rfl hreclaim
      · exact supports_finish hmine
  | guardCheck r current =>
      have hmine := hguard r (by simp [Purpose.guarded])
      have hdoomed := haims r (by simp [Purpose.aims])
      simp only [resume]
      split_ifs
      · constructor <;> simp [Pc.guarded, Pc.aims, Pc.releases, hmine, hdoomed]
      · exact supports_finish hmine
  | claimed tomb expected =>
      have hmine : tomb.ofGuard = false → s.Names (.guard tomb.r) p := by
        intro h
        exact hguard tomb.r (by simp [Purpose.guarded, h])
      simp only [resume]
      split_ifs
      · exact supports_after hmine
      · exact supports_tomb hmine (.inl rfl)
      · exact supports_tomb hmine (.inr rfl)
  | own r =>
      have hmine := hguard r (by simp [Purpose.guarded])
      simp only [resume]
      split_ifs
      · constructor <;> simp [Pc.guarded, Pc.aims, Pc.releases, hmine]
      · exact supports_idle s p

/-- A running process that keeps what it holds and goes on to a supported call. -/
theorem follows_change {s t : State R} {p : Pid} (proc : Proc R) (h : Promise s p)
    (halive : s.alive p = true) (hother : ∀ q, q ≠ p → t.procs q = s.procs q)
    (hself : t.procs p = proc) (hrunning : proc.alive = true)
    (hheld : ∀ r, proc.held r = true → (s.procs p).held r = true) (hsup : Supports t p proc.pc)
    (hlock : ∀ r, t.files.read (.lock r) = s.files.read (.lock r) ∨
      s.files.read (.lock r) = none ∨
      (proc.held r = false ∧ s.Names (.lock r) p) ∨
      (s.Names (.guard r) p ∧ s.DoomedLock r))
    (hguard : ∀ r, t.files.read (.guard r) = s.files.read (.guard r) ∨
      s.files.read (.guard r) = none ∨ s.Names (.guard r) p) :
    Promise t p ∧ Guarantee s t p := by
  have hlives := alive_of_other hother (by rw [halive, State.alive, hself, hrunning])
  refine ⟨⟨?_, ?_, ?_, by rwa [hself]⟩, hother, ?_, hguard, ?_⟩
  · intro _
    exact h.positive halive
  · intro hdead
    rw [hlives p, halive] at hdead
    cases hdead
  · intro r hr
    rw [hself] at hr
    have hnames := h.held r (hheld r hr)
    rcases hlock r with hsame | hnone | ⟨hfree, -⟩ | ⟨-, hdoomed⟩
    · exact hnames.congr hsame
    · exact absurd hnone hnames.not_absent
    · simp [hfree] at hr
    · exact absurd hnames (hdoomed.not_names halive)
  · intro r
    rcases hlock r with hsame | hnone | ⟨-, hnames⟩ | hdoomed
    · exact .inl hsame
    · exact .inr (.inl hnone)
    · exact .inr (.inr (.inl ⟨halive, hnames⟩))
    · exact .inr (.inr (.inr hdoomed))
  · intro r content _ hdoomed q howner
    rw [hlives q, hdoomed q howner]

/-- A change of tombs only, and a supported next call. -/
theorem follows_quiet {s t : State R} {p : Pid} {pc : Pc R} (h : Promise s p)
    (halive : s.alive p = true) (hsup : Supports s p pc)
    (hlock : ∀ r, t.files.read (.lock r) = s.files.read (.lock r))
    (hguard : ∀ r, t.files.read (.guard r) = s.files.read (.guard r))
    (hprocs : t.procs = (s.goto p pc).procs) : Promise t p ∧ Guarantee s t p := by
  have hself : t.procs p = { s.procs p with pc := pc } := by
    rw [hprocs, State.goto_self]
  have hother : ∀ q, q ≠ p → t.procs q = s.procs q := by
    intro q hne
    rw [hprocs, State.goto_of_ne s pc hne]
  have hlives := alive_of_other hother (by simp only [State.alive, hself])
  refine follows_change _ h halive hother hself halive (fun _ hr => hr) ?_
    (fun r => .inl (hlock r)) (fun r => .inl (hguard r))
  refine ⟨fun r hr => (hsup.guard r hr).congr (hguard r), ?_,
    fun r hr => (hsup.unlink r hr).congr (hlock r), ?_, hsup.probing⟩
  · intro r hr
    obtain ⟨content, hread, hdoomed⟩ := hsup.doomed r hr
    exact ⟨content, (hlock r).trans hread, fun q hq => (hlives q).trans (hdoomed q hq)⟩
  · intro r hr
    rw [hself]
    exact hsup.release r hr

theorem follows_goto {s : State R} {p : Pid} {pc : Pc R} (h : Promise s p)
    (halive : s.alive p = true) (hsup : Supports s p pc) :
    Promise (s.goto p pc) p ∧ Guarantee s (s.goto p pc) p :=
  follows_quiet h halive hsup (fun _ => rfl) (fun _ => rfl) rfl

theorem follows_unlinkTomb {s : State R} {p : Pid} {pc : Pc R} {fails : Bool} {tomb : TombName R}
    (h : Promise s p) (halive : s.alive p = true) (hsup : Supports s p pc) :
    Promise ((s.unlinkUnless fails (.tomb tomb)).goto p pc) p ∧
      Guarantee s ((s.unlinkUnless fails (.tomb tomb)).goto p pc) p := by
  refine follows_quiet h halive hsup ?_ ?_ ?_
  · intro r
    rw [State.goto_files, State.unlinkUnless_read_of_ne s fails (by simp)]
  · intro r
    rw [State.goto_files, State.unlinkUnless_read_of_ne s fails (by simp)]
  · simp [State.goto, State.setProc]

theorem follows_publishLock {s : State R} {p : Pid} {r : R} {ts : ℕ}
    {files : Directory (FileName R) (Content R)} (h : Promise s p) (halive : s.alive p = true)
    (hpub : s.files.publishExclusive (.lock r) (ownerRecord p ts r) = some files) :
    let t := (s.withFiles files).setProc p
      { s.procs p with pc := .idle, held := Function.update (s.procs p).held r true }
    Promise t p ∧ Guarantee s t p := by
  intro t
  obtain ⟨hnone, rfl⟩ := Directory.publishExclusive_eq_some.mp hpub
  have hother : ∀ q, q ≠ p → t.procs q = s.procs q :=
    fun q hne => State.setProc_of_ne _ _ hne
  have hself : t.procs p = { s.procs p with
      pc := .idle, held := Function.update (s.procs p).held r true } := State.setProc_self _ _ _
  have hlives := alive_of_other hother (by simp only [State.alive, hself])
  have hread : ∀ file, file ≠ .lock r → t.files.read file = s.files.read file :=
    fun file hne => Directory.read_write_of_ne _ _ hne
  refine ⟨⟨fun _ => h.positive halive, ?_, ?_, ?_⟩, hother, ?_, ?_, ?_⟩
  · intro hdead
    rw [hlives p, halive] at hdead
    cases hdead
  · intro r' hheld
    by_cases hr : r' = r
    · subst hr
      change ((s.files.write (.lock r') _).read (.lock r')).bind _ = _
      rw [Directory.read_write_self]
      simp [ownerRecord, Content.owner, h.positive halive]
    · rw [hself] at hheld
      simp only [Function.update_of_ne hr] at hheld
      exact (h.held r' hheld).congr (hread _ (by simpa using hr))
  · rw [hself]
    exact supports_idle t p
  · intro r'
    by_cases hr : r' = r
    · exact .inr (.inl (hr ▸ hnone))
    · exact .inl (hread _ (by simpa using hr))
  · intro r'
    exact .inl (hread _ (by simp))
  · intro r' content _ hdoomed q howner
    rw [hlives q, hdoomed q howner]

theorem follows_publishGuard {s : State R} {p : Pid} {r : R} {ts nonce : ℕ}
    {names : List (FileName R)} {files : Directory (FileName R) (Content R)} (h : Promise s p)
    (halive : s.alive p = true)
    (hpub : s.files.publishExclusive (.guard r) (.record (guardIdentity p ts nonce)) =
      some files) :
    let t := (s.withFiles files).setProc p
      { s.procs p with pc := .sweep r names 0, mine := some (guardIdentity p ts nonce) }
    Promise t p ∧ Guarantee s t p := by
  intro t
  obtain ⟨hnone, rfl⟩ := Directory.publishExclusive_eq_some.mp hpub
  have hread : ∀ file, file ≠ .guard r → t.files.read file = s.files.read file :=
    fun file hne => Directory.read_write_of_ne _ _ hne
  refine follows_change _ h halive (fun q hne => State.setProc_of_ne _ _ hne)
    (State.setProc_self _ _ _) halive (fun _ hr => hr) ?_
    (fun r' => .inl (hread _ (by simp))) ?_
  · have hmine : t.Names (.guard r) p := by
      change ((s.files.write (.guard r) _).read (.guard r)).bind _ = _
      rw [Directory.read_write_self]
      simp [guardIdentity, Content.owner, h.positive halive]
    constructor <;> simp [Pc.guarded, Pc.aims, Pc.releases, hmine]
  · intro r'
    by_cases hr : r' = r
    · exact .inr (.inl (hr ▸ hnone))
    · exact .inl (hread _ (by simpa using hr))

/-- The rename to a tomb: a doomed lock under the own guard, or the own guard itself. -/
theorem follows_rename {s : State R} {p : Pid} (tomb : TombName R) {expected : RecordView R}
    {files : Directory (FileName R) (Content R)} (h : Promise s p) (halive : s.alive p = true)
    (hmine : s.Names (.guard tomb.r) p) (hdoomed : tomb.ofGuard = false → s.DoomedLock tomb.r)
    (hren : s.files.rename (baseFile tomb.ofGuard tomb.r) (.tomb tomb) = some files) :
    let t := (s.withFiles files).goto p (.load (.claimed tomb expected))
    Promise t p ∧ Guarantee s t p := by
  intro t
  have hread : ∀ file, file ≠ baseFile tomb.ofGuard tomb.r → file ≠ .tomb tomb →
      t.files.read file = s.files.read file :=
    fun file hs ht => Directory.read_rename_of_ne hren hs ht
  have hguard : ∀ r, ¬ (tomb.ofGuard = true ∧ r = tomb.r) →
      t.files.read (.guard r) = s.files.read (.guard r) := by
    intro r hr
    refine hread _ ?_ (by simp)
    cases hg : tomb.ofGuard <;> simp_all [baseFile]
  refine follows_change _ h halive (fun q hne => State.goto_of_ne _ _ hne) (State.goto_self _ _ _)
    halive (fun _ hr => hr) (supports_load ?_ (by simp [Purpose.aims])) ?_ ?_
  · intro r hr
    simp only [Purpose.guarded, Bool.and_eq_true, Bool.not_eq_true', decide_eq_true_eq] at hr
    exact (hr.2 ▸ hmine).congr (hguard r (by simp [hr.1]))
  · intro r
    by_cases hr : tomb.ofGuard = false ∧ r = tomb.r
    · exact .inr (.inr (.inr (hr.2 ▸ ⟨hmine, hdoomed hr.1⟩)))
    · refine .inl (hread _ ?_ (by simp))
      cases hg : tomb.ofGuard <;> simp_all [baseFile]
  · intro r
    by_cases hr : tomb.ofGuard = true ∧ r = tomb.r
    · exact .inr (.inr (hr.2 ▸ hmine))
    · exact .inl (hguard r hr)

theorem follows_putBack {s : State R} {p : Pid} {tomb : TombName R} {content : Content R}
    {files : Directory (FileName R) (Content R)} (h : Promise s p) (halive : s.alive p = true)
    (hmine : tomb.ofGuard = false → s.Names (.guard tomb.r) p)
    (hpub : s.files.publishExclusive (baseFile tomb.ofGuard tomb.r) content = some files) :
    let t := (s.withFiles files).goto p (.unlinkTomb tomb)
    Promise t p ∧ Guarantee s t p := by
  intro t
  obtain ⟨hnone, rfl⟩ := Directory.publishExclusive_eq_some.mp hpub
  have hread : ∀ file, t.files.read file = s.files.read file ∨ s.files.read file = none := by
    intro file
    by_cases hfile : file = baseFile tomb.ofGuard tomb.r
    · exact .inr (hfile ▸ hnone)
    · exact .inl (Directory.read_write_of_ne _ _ hfile)
  refine follows_change _ h halive (fun q hne => State.goto_of_ne _ _ hne) (State.goto_self _ _ _)
    halive (fun _ hr => hr) (supports_tomb ?_ (.inl rfl)) ?_ ?_
  · intro hof
    have hnames := hmine hof
    rcases hread (.guard tomb.r) with hsame | hgone
    · exact hnames.congr hsame
    · exact absurd hgone hnames.not_absent
  · intro r
    rcases hread (.lock r) with hsame | hgone
    · exact .inl hsame
    · exact .inr (.inl hgone)
  · intro r
    rcases hread (.guard r) with hsame | hgone
    · exact .inl hsame
    · exact .inr (.inl hgone)

theorem follows_releaseUnlink {s : State R} {p : Pid} {r : R} {fails : Bool} (h : Promise s p)
    (halive : s.alive p = true) (hmine : s.Names (.lock r) p)
    (hfree : (s.procs p).held r = false) :
    let t := (s.unlinkUnless fails (.lock r)).goto p .idle
    Promise t p ∧ Guarantee s t p := by
  intro t
  have hread : ∀ file, file ≠ .lock r → t.files.read file = s.files.read file :=
    fun file hne => State.unlinkUnless_read_of_ne s fails hne
  refine follows_change { s.procs p with pc := .idle } h halive ?_ ?_ halive
    (fun _ hr => hr) (supports_idle t p) ?_ ?_
  · intro q hne
    simp [t, State.goto_of_ne _ _ hne]
  · simp [t]
  · intro r'
    by_cases hr : r' = r
    · exact .inr (.inr (.inl (hr ▸ ⟨hfree, hmine⟩)))
    · exact .inl (hread _ (by simpa using hr))
  · intro r'
    exact .inl (hread _ (by simp))

end Regions

end Kyberion.Lock
