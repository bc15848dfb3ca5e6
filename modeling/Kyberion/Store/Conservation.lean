import Kyberion.Store.Rewrite

/-!
No line is lost in a parked rewrite. Lines are counted by occurrence: what ever
entered the store is bounded by the live file, the staging copies and what a
published pass dropped. The raw-union restore replaces the live path, so the
bound needs its move to meet no file that an appender created meanwhile.
-/

namespace Kyberion.Store

open Transition

universe u

section Conservation

variable {α : Type u}

@[simp] theorem linesOf_nil : linesOf ([] : List (Parked α)) = [] := rfl

@[simp] theorem linesOf_single (copy : Parked α) : linesOf [copy] = copy.lines := by
  simp [linesOf]

theorem linesOf_append (xs ys : List (Parked α)) :
    linesOf (xs ++ ys) = linesOf xs ++ linesOf ys := by
  simp [linesOf]

/-- A move over the live path meets no live file; a late write meets an empty one. -/
def replacesNothing (s : State α) : Label α → Bool
  | .tick throws _ =>
      match s.pc with
      | .restoreMove _ _ => throws || s.live.isNone
      | .copyWrite _ _ | .copyUnlink => throws || !s.appendedToLive
      | _ => true
  | _ => true

/-- What the next operation assumes about the run so far. -/
def PcOk (s : State α) : Prop :=
  match s.pc with
  | .idle => True
  | .publish _ content drops | .copyWrite content drops =>
      s.liveRestored = false ∧ content = s.filter.survivors (s.copies.map (·.lines)) ∧
        drops = s.filter.dropped (s.copies.map (·.lines))
  | .restoreMove _ content => s.liveRestored = false ∧ content = linesOf s.copies
  | .archive | .clean _ => s.liveRestored = true
  | _ => s.liveRestored = false

/-- Only the program counter and the report flags differ. -/
structure Keeps (s t : State α) : Prop where
  live : t.live = s.live
  kept : t.kept = s.kept
  copies : t.copies = s.copies
  liveRestored : t.liveRestored = s.liveRestored
  entered : t.entered = s.entered
  dropped : t.dropped = s.dropped

theorem keeps_goto (s : State α) (pc : Pc α) : Keeps s (s.goto pc) :=
  ⟨rfl, rfl, rfl, rfl, rfl, rfl⟩

theorem keeps_settle (s : State α) : Keeps s s.settle := by
  unfold State.settle
  split <;> exact keeps_goto s _

theorem keeps_caught (s : State α) : Keeps s s.caught := by
  unfold State.caught
  split
  · exact keeps_goto s _
  · exact keeps_settle s

theorem keeps_restoreFailed (s : State α) (inCatch : Bool) : Keeps s (s.restoreFailed inCatch) := by
  unfold State.restoreFailed
  split
  · exact keeps_settle s
  · exact keeps_caught s

theorem keeps_restoreDone (s : State α) (inCatch : Bool) : Keeps s (s.restoreDone inCatch) := by
  unfold State.restoreDone
  split
  · exact keeps_settle s
  · exact keeps_goto s _

theorem keeps_retry (s : State α) (i : ℕ) : Keeps s (s.retry i) := by
  unfold State.retry
  split <;> exact keeps_goto s _

theorem pcOk_settle (s : State α) : PcOk s.settle := by
  unfold State.settle
  split
  · trivial
  · rename_i h
    simp only [Bool.or_eq_true, not_or] at h
    simpa [PcOk, State.goto] using h.1

theorem pcOk_caught (s : State α) : PcOk s.caught := by
  unfold State.caught
  split
  · rename_i h
    simp only [Bool.and_eq_true] at h
    simpa [PcOk, State.goto] using h.1
  · exact pcOk_settle s

theorem pcOk_restoreFailed (s : State α) (inCatch : Bool) : PcOk (s.restoreFailed inCatch) := by
  unfold State.restoreFailed
  split
  · exact pcOk_settle s
  · exact pcOk_caught s

theorem pcOk_restoreDone {s : State α} (h : s.liveRestored = true) (inCatch : Bool) :
    PcOk (s.restoreDone inCatch) := by
  unfold State.restoreDone
  split
  · exact pcOk_settle s
  · exact h

theorem pcOk_retry {s : State α} (h : s.liveRestored = false) (i : ℕ) : PcOk (s.retry i) := by
  unfold State.retry
  split <;> exact h

theorem live_empty_of_not_appended {s : State α} (h : s.appendedToLive = false) :
    s.live.getD [] = [] := by
  simpa [State.appendedToLive] using h

variable [DecidableEq α]

/-- Occurrences of a line in the live file and the staging copies that count, or dropped. -/
def State.stored (s : State α) (line : α) : ℕ :=
  (linesOf s.kept).count line + (if s.liveRestored then 0 else (linesOf s.copies).count line) +
    (s.live.getD []).count line + s.dropped.count line

def Bounded (s : State α) : Prop :=
  ∀ line, s.entered.count line ≤ s.stored line

/-- The accounting invariant. -/
structure Accounted (s : State α) : Prop where
  pcOk : PcOk s
  bounded : Bounded s

theorem Keeps.bounded {s t : State α} (h : Keeps s t) (hs : Bounded s) : Bounded t := by
  intro line
  have hbound := hs line
  simpa only [State.stored, h.live, h.kept, h.copies, h.liveRestored, h.entered, h.dropped]
    using hbound

theorem accounted_goto {s : State α} (hs : Bounded s) {pc : Pc α} (hpc : PcOk (s.goto pc)) :
    Accounted (s.goto pc) :=
  ⟨hpc, (keeps_goto s pc).bounded hs⟩

theorem accounted_caught {s : State α} (hs : Bounded s) : Accounted s.caught :=
  ⟨pcOk_caught s, (keeps_caught s).bounded hs⟩

theorem accounted_restoreFailed {s : State α} (hs : Bounded s) (inCatch : Bool) :
    Accounted (s.restoreFailed inCatch) :=
  ⟨pcOk_restoreFailed s inCatch, (keeps_restoreFailed s inCatch).bounded hs⟩

theorem accounted_retry {s : State α} (hs : Bounded s) (h : s.liveRestored = false) (i : ℕ) :
    Accounted (s.retry i) :=
  ⟨pcOk_retry h i, (keeps_retry s i).bounded hs⟩

/-- Parking moves the live lines to a staging copy. -/
theorem bounded_park {s : State α} {lines : List α} (hs : Bounded s)
    (hlive : s.live = some lines) (h : s.liveRestored = false) : Bounded (s.park lines) := by
  intro line
  have hbound := hs line
  simp only [State.stored, h, hlive, Option.getD_some, Bool.false_eq_true, if_false] at hbound
  simp only [State.park, State.stored, h, linesOf_append, Option.getD_none, Bool.false_eq_true,
    if_false, List.count_append, List.count_nil]
  rw [linesOf_single]
  change _ ≤ _ + (_ + lines.count line) + 0 + _
  omega

/-- Publication replaces the copies by survivors and what was dropped. -/
theorem bounded_publish {s : State α} (hs : Bounded s) (h : s.liveRestored = false)
    (hlive : s.live.getD [] = []) :
    Bounded (s.publishLive (s.filter.survivors (s.copies.map (·.lines)))
      (s.filter.dropped (s.copies.map (·.lines)))) := by
  intro line
  have hbound := hs line
  have hsplit := s.filter.count_survivors_add_dropped (s.copies.map (·.lines)) line
  simp only [State.stored, h, hlive, List.count_nil, Bool.false_eq_true, if_false, linesOf]
    at hbound
  simp only [State.publishLive, State.stored, Option.getD_some, List.count_append, linesOf,
    if_true]
  omega

/-- A restored live file holds every copy, so the copies no longer count. -/
theorem accounted_restored {s : State α} {content : Option (List α)} (hs : Bounded s)
    (h : s.liveRestored = false) (inCatch : Bool)
    (hcontent : ∀ line, (linesOf s.copies).count line + (s.live.getD []).count line ≤
      (content.getD []).count line) :
    Accounted ({ s with live := content, liveRestored := true }.restoreDone inCatch) := by
  refine ⟨pcOk_restoreDone rfl inCatch, (keeps_restoreDone _ inCatch).bounded ?_⟩
  intro line
  have hbound := hs line
  have hmore := hcontent line
  simp only [State.stored, h, Bool.false_eq_true, if_false] at hbound
  simp only [State.stored, if_true]
  omega

theorem bounded_create {s : State α} (hs : Bounded s) (hlive : s.live = none) (pc : Pc α) :
    Bounded { s with live := some [], pc := pc } := by
  intro line
  have hbound := hs line
  simpa [State.stored, hlive] using hbound

theorem bounded_unlink {s : State α} (hs : Bounded s) (hlive : s.live.getD [] = []) :
    Bounded { s with live := none } := by
  intro line
  have hbound := hs line
  simpa [State.stored, hlive] using hbound

theorem bounded_append {s : State α} (hs : Bounded s) (line : α) : Bounded (s.append line) := by
  intro line'
  have hbound := hs line'
  simp only [State.stored] at hbound
  simp only [State.append, State.stored, Option.getD_some, List.count_append]
  split at hbound <;> rename_i h <;> simp only [h, if_true, if_false, Bool.false_eq_true] <;> omega

theorem bounded_begin {s : State α} (hs : Bounded s) (filter : LineFilter α) (options : Options) :
    Bounded (s.begin filter options) := by
  intro line
  have hbound := hs line
  simp only [State.stored] at hbound
  simp only [State.begin, State.stored, linesOf_append, List.count_append, Bool.false_eq_true,
    if_false, linesOf_nil, List.count_nil]
  split at hbound <;> omega

theorem bounded_clean {s : State α} (hs : Bounded s) (h : s.liveRestored = true) (n : ℕ) :
    Bounded { s with copies := s.copies.eraseIdx n } := by
  intro line
  have hbound := hs line
  simpa only [State.stored, h, if_true] using hbound

/-- One operation of the rewrite, case by case over the program counter. -/
theorem accounted_tick {s t : State α} {throws : Bool} {overlap : List α} (hs : Accounted s)
    (hok : replacesNothing s (.tick throws overlap) = true)
    (htick : s.tick throws overlap = some t) : Accounted t := by
  have hpc := hs.pcOk
  have hb := hs.bounded
  unfold State.tick at htick
  cases hpc' : s.pc with
  | idle => simp [hpc'] at htick
  | start =>
      simp only [PcOk, hpc'] at hpc htick
      split at htick
      · obtain rfl := Option.some.inj htick
        exact accounted_goto hb trivial
      · obtain rfl := Option.some.inj htick
        split
        · exact accounted_goto hb hpc
        · exact accounted_goto hb trivial
  | parkInitial =>
      simp only [PcOk, hpc'] at hpc htick
      split at htick
      · obtain rfl := Option.some.inj htick
        exact accounted_caught hb
      split at htick
      · obtain rfl := Option.some.inj htick
        exact accounted_goto hb trivial
      · rename_i hlive
        obtain rfl := Option.some.inj htick
        exact accounted_goto (bounded_park hb hlive hpc) hpc
  | indexInitial =>
      simp only [PcOk, hpc'] at hpc htick
      split at htick
      · obtain rfl := Option.some.inj htick
        exact accounted_caught hb
      · obtain rfl := Option.some.inj htick
        exact accounted_goto hb hpc
  | look i =>
      simp only [PcOk, hpc'] at hpc htick
      split at htick
      · obtain rfl := Option.some.inj htick
        exact accounted_caught hb
      · obtain rfl := Option.some.inj htick
        split
        · exact accounted_retry hb hpc i
        · exact accounted_goto hb hpc
  | write i =>
      simp only [PcOk, hpc'] at hpc htick
      split at htick
      · obtain rfl := Option.some.inj htick
        exact accounted_caught hb
      · obtain rfl := Option.some.inj htick
        exact accounted_goto hb ⟨hpc, rfl, rfl⟩
  | publish i content drops =>
      simp only [PcOk, hpc'] at hpc htick
      obtain ⟨hfree, rfl, rfl⟩ := hpc
      split at htick
      · obtain rfl := Option.some.inj htick
        exact accounted_caught hb
      split at htick
      · obtain rfl := Option.some.inj htick
        exact accounted_retry hb hfree i
      · rename_i hlive
        split at htick
        · obtain rfl := Option.some.inj htick
          exact ⟨rfl, bounded_publish hb hfree (by simp [hlive])⟩
        · obtain rfl := Option.some.inj htick
          exact ⟨⟨hfree, rfl, rfl⟩, bounded_create hb hlive _⟩
  | copyWrite content drops =>
      simp only [PcOk, hpc', replacesNothing] at hpc htick hok
      obtain ⟨hfree, rfl, rfl⟩ := hpc
      split at htick
      · obtain rfl := Option.some.inj htick
        exact accounted_goto hb hfree
      · rename_i hthrows
        have hempty : s.appendedToLive = false := by
          simpa [hthrows] using hok
        obtain rfl := Option.some.inj htick
        rw [hempty, if_neg (by simp), List.append_nil]
        exact ⟨rfl, bounded_publish hb hfree (live_empty_of_not_appended hempty)⟩
  | copyUnlink =>
      simp only [PcOk, hpc', replacesNothing] at hpc htick hok
      obtain rfl := Option.some.inj htick
      split
      · exact accounted_caught hb
      · rename_i hthrows
        have hempty : s.appendedToLive = false := by
          simpa [hthrows] using hok
        exact accounted_caught (bounded_unlink hb (live_empty_of_not_appended hempty))
  | parkMerge i =>
      simp only [PcOk, hpc'] at hpc htick
      split at htick
      · obtain rfl := Option.some.inj htick
        exact accounted_caught hb
      split at htick
      · obtain rfl := Option.some.inj htick
        exact accounted_goto hb hpc
      · rename_i hlive
        obtain rfl := Option.some.inj htick
        exact accounted_goto (bounded_park hb hlive hpc) hpc
  | indexMerge i =>
      simp only [PcOk, hpc'] at hpc htick
      split at htick
      · obtain rfl := Option.some.inj htick
        exact accounted_caught hb
      · obtain rfl := Option.some.inj htick
        exact accounted_goto hb hpc
  | restoreLook inCatch =>
      simp only [PcOk, hpc'] at hpc htick
      split at htick
      · obtain rfl := Option.some.inj htick
        exact accounted_restoreFailed hb inCatch
      · obtain rfl := Option.some.inj htick
        split
        · exact accounted_goto hb hpc
        · exact accounted_goto hb hpc
  | restorePark inCatch =>
      simp only [PcOk, hpc'] at hpc htick
      split at htick
      · obtain rfl := Option.some.inj htick
        exact accounted_restoreFailed hb inCatch
      split at htick
      · obtain rfl := Option.some.inj htick
        exact accounted_goto hb hpc
      · rename_i hlive
        obtain rfl := Option.some.inj htick
        exact accounted_goto (bounded_park hb hlive hpc) hpc
  | restoreIndex inCatch =>
      simp only [PcOk, hpc'] at hpc htick
      split at htick
      · obtain rfl := Option.some.inj htick
        exact accounted_restoreFailed hb inCatch
      · obtain rfl := Option.some.inj htick
        exact accounted_goto hb hpc
  | restoreWrite inCatch =>
      simp only [PcOk, hpc'] at hpc htick
      split at htick
      · rename_i hnone
        obtain rfl := Option.some.inj htick
        refine accounted_restored hb hpc inCatch ?_
        intro line
        simp [linesOf, List.isEmpty_iff.mp hnone]
      split at htick
      · obtain rfl := Option.some.inj htick
        exact accounted_restoreFailed hb inCatch
      · obtain rfl := Option.some.inj htick
        exact accounted_goto hb ⟨hpc, rfl⟩
  | restoreMove inCatch content =>
      simp only [PcOk, hpc', replacesNothing] at hpc htick hok
      obtain ⟨hfree, rfl⟩ := hpc
      split at htick
      · obtain rfl := Option.some.inj htick
        exact accounted_restoreFailed hb inCatch
      · rename_i hthrows
        have hnone : s.live = none := by
          simpa [hthrows] using hok
        obtain rfl := Option.some.inj htick
        refine accounted_restored hb hfree inCatch ?_
        intro line
        simp [hnone]
  | archive =>
      simp only [PcOk, hpc'] at hpc htick
      split at htick
      · obtain rfl := Option.some.inj htick
        exact accounted_goto hb hpc
      split at htick
      · obtain rfl := Option.some.inj htick
        exact accounted_caught hb
      · obtain rfl := Option.some.inj htick
        exact ⟨hpc, hb⟩
  | clean n =>
      simp only [PcOk, hpc'] at hpc htick
      split at htick
      · split at htick
        · obtain rfl := Option.some.inj htick
          exact accounted_goto hb hpc
        · obtain rfl := Option.some.inj htick
          refine ⟨?_, bounded_clean hb hpc n⟩
          simpa only [PcOk, hpc'] using hpc
      · obtain rfl := Option.some.inj htick
        exact accounted_goto hb trivial

theorem accounted_step {s t : State α} {label : Label α} (hs : Accounted s)
    (hok : replacesNothing s label = true) (hstep : s.step label = some t) : Accounted t := by
  cases label with
  | append line =>
      obtain rfl := Option.some.inj hstep
      exact ⟨hs.pcOk, bounded_append hs.bounded line⟩
  | begin filter options =>
      simp only [State.step] at hstep
      split at hstep
      · obtain rfl := Option.some.inj hstep
        exact ⟨rfl, bounded_begin hs.bounded filter options⟩
      · cases hstep
  | tick throws overlap => exact accounted_tick hs hok hstep

theorem accounted_initial {s : State α} (h : s.Initial) : Accounted s := by
  refine ⟨by simp [PcOk, h.idle], ?_⟩
  intro line
  simp only [State.stored, h.entered, h.copies, h.dropped, List.count_append]
  omega

/-- Occurrences of a line in the live file, in a recognised staging copy, or dropped. -/
def State.found (s : State α) (line : α) : ℕ :=
  (s.live.getD []).count line + (linesOf (s.kept ++ s.copies)).count line + s.dropped.count line

def NoLineLost (s : State α) : Prop :=
  ∀ line, s.entered.count line ≤ s.found line

/-- Every line that ever entered the store is still found, however the rewrites ran. -/
theorem rewrite_loses_no_line {s : State α}
    (hs : (storeSystem α).Reach (fun s label => replacesNothing s label) s) : NoLineLost s := by
  have hacc : Accounted s :=
    hs.invariant (fun _ h => accounted_initial h)
      (fun _ _ _ h hok hstep => accounted_step h hok hstep)
  intro line
  have hbound := hacc.bounded line
  simp only [State.stored] at hbound
  simp only [State.found, linesOf_append, List.count_append]
  split at hbound <;> omega

end Conservation

def keepAll : LineFilter String where
  oversized _ := false
  blank _ := false
  keep _ _ _ _ := true

/-- A store that holds one line. -/
def oneLine : State String where
  live := some ["a"]
  kept := []
  copies := []
  nextPark := 0
  pc := .idle
  filter := keepAll
  options := {}
  published := false
  liveRestored := false
  archived := false
  entered := ["a"]
  dropped := []

theorem oneLine_initial : oneLine.Initial := by
  refine ⟨rfl, rfl, rfl, rfl, ?_⟩
  intro copy hcopy
  simp [oneLine] at hcopy

def proceed (n : ℕ) : List (Label String) :=
  List.replicate n (.tick false [])

/-- An append before the publication is merged and published. -/
theorem rewrite_loses_no_line_merged :
    ∃ s : State String, s.pc = .idle ∧ s.live = some ["a", "b"] ∧ NoLineLost s := by
  obtain ⟨s, hs, hpc, hlive⟩ := System.exists_reach_of_execOk
    (S := storeSystem String) replacesNothing (s := oneLine)
    (.begin keepAll {} :: proceed 4 ++ .append "b" :: proceed 11)
    (fun s => s.pc = .idle ∧ s.live = some ["a", "b"]) oneLine_initial (by decide)
  exact ⟨s, hpc, hlive, rewrite_loses_no_line hs⟩

/-- A read error after the park makes the restore run; its move replaces the line "b". -/
theorem rewrite_loses_line :
    ¬ ∀ s : State String, (storeSystem String).Reachable s → s.pc = .idle → NoLineLost s := by
  intro h
  obtain ⟨s, hs, hpc, hlost⟩ := System.exists_reachable_of_exec
    (S := storeSystem String) (s := oneLine)
    (.begin keepAll {} :: proceed 2 ++ .tick true [] :: proceed 2 ++ .append "b" :: proceed 3)
    (fun s => s.pc = .idle ∧ s.found "b" < s.entered.count "b") oneLine_initial (by decide)
  exact absurd (h s hs hpc "b") (by omega)

end Kyberion.Store
