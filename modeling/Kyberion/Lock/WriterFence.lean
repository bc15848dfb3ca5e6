import Kyberion.Lock.WriterLease
import Kyberion.Trace
import Mathlib.Data.List.Pairwise

/-!
What the fence is good for. As long as no write overwrites a record other than the one it has read,
fences only grow, and the callbacks that return a result have run one after the other, also when the
lock was lost while they ran. A lock that is never lost gives this to every write.
-/

namespace Kyberion.WriterLease

open Transition Trace

def Event.fence? : Event → Option ℕ
  | .acquired _ fence => some fence
  | .returned _ _ => none

/-- The fences granted, in order. -/
def fences (log : List Event) : List ℕ :=
  log.filterMap Event.fence?

/-- The write relies on the record as it still is. -/
def untouched (w : World) : Action → Bool
  | .write id =>
      match w.calls id with
      | some { phase := .acquiring seen _, .. } => w.file.read = some seen
      | some { phase := .renewing _ _ seen _, .. } => w.file = .stored seen
      | some { phase := .finishing _ _ seen, .. } => w.file = .stored seen
      | _ => true
  | _ => true

structure Serial (w : World) : Prop where
  increasing : (fences w.log).Pairwise (· < ·)
  /-- Nothing is acquired between the acquisition and the return of one callback. -/
  alone : ∀ front id fence between back, w.log =
    front ++ .acquired id fence :: between ++ .returned id fence :: back → fences between = []

section Log

variable {log : List Event} {id fence : ℕ}

@[simp] theorem fences_append (a b : List Event) : fences (a ++ b) = fences a ++ fences b := by
  simp [fences]

@[simp] theorem fences_acquired (id fence : ℕ) (log : List Event) :
    fences (.acquired id fence :: log) = fence :: fences log := rfl

@[simp] theorem fences_returned (id fence : ℕ) (log : List Event) :
    fences (.returned id fence :: log) = fences log := rfl

@[simp] theorem fences_nil : fences [] = [] := rfl

theorem mem_fences (h : .acquired id fence ∈ log) : fence ∈ fences log :=
  List.mem_filterMap.mpr ⟨_, h, rfl⟩

end Log

def LeaseFile.fence : LeaseFile → ℕ
  | .stored lease => lease.fence
  | _ => 0

/-- The lease under which the callback of a call runs. -/
def LeaseCall.lease? (c : LeaseCall) : Option FencedWriterLease :=
  match c.task, c.phase with
  | .guard, .starting lease => some lease
  | .guard, .running lease _ => some lease
  | .guard, .renewing lease _ _ _ => some lease
  | .guard, .confirming lease _ _ => some lease
  | _, _ => none

/-- Only a guard runs a callback; what it releases is its own record. -/
def LeaseCall.sane (c : LeaseCall) : Prop :=
  match c.phase with
  | .acquiring _ _ => c.task = .guard
  | .starting _ => c.task = .guard
  | .running _ _ => c.task = .guard
  | .finishing lease _ seen => seen.fence = lease.fence
  | _ => True

variable {w t : World} {id : ℕ} {c : LeaseCall} {phase : Phase} {lease seen : FencedWriterLease}

structure Fenced (w : World) : Prop extends Serial w where
  below : w.file ≠ .corrupt → ∀ fence ∈ fences w.log, fence ≤ w.file.fence
  granted : ∀ id c lease, w.calls id = some c → c.lease? = some lease →
    .acquired id lease.fence ∈ w.log
  sane : ∀ id c, w.calls id = some c → c.sane

namespace Fenced

theorem initial : Fenced {} where
  increasing := List.Pairwise.nil
  alone front _ _ _ _ h := by
    have hlength := congrArg List.length h
    simp at hlength
  below _ _ h := by cases h
  granted _ _ _ h := by cases h
  sane _ _ h := by cases h

theorem calls_goTo_cases {id' : ℕ} {c' : LeaseCall} (h : (w.goTo id c phase).calls id' = some c') :
    id' = id ∧ c' = { c with phase } ∨ w.calls id' = some c' := by
  simp only [World.goTo, Function.update_apply] at h
  split at h
  · rename_i heq
    exact .inl ⟨heq, (Option.some.inj h).symm⟩
  · exact .inr h

theorem goTo (h : Fenced w)
    (hgranted : ∀ lease, LeaseCall.lease? { c with phase } = some lease →
      .acquired id lease.fence ∈ w.log) (hsane : LeaseCall.sane { c with phase }) :
    Fenced (w.goTo id c phase) where
  increasing := h.increasing
  alone := h.alone
  below := h.below
  granted id' c' lease hc' hlease := by
    rcases calls_goTo_cases hc' with ⟨rfl, rfl⟩ | hc'
    · exact hgranted lease hlease
    · exact h.granted id' c' lease hc' hlease
  sane id' c' hc' := by
    rcases calls_goTo_cases hc' with ⟨rfl, rfl⟩ | hc'
    · exact hsane
    · exact h.sane id' c' hc'

theorem locks (h : Fenced w) (locks : String → Option ℕ) : Fenced { w with locks } :=
  ⟨⟨h.increasing, h.alone⟩, h.below, h.granted, h.sane⟩

theorem leave (h : Fenced w) (outcome : Outcome) : Fenced (w.leave id c outcome) :=
  have hleft : Fenced (w.goTo id c (.ended outcome)) := h.goTo (by simp [LeaseCall.lease?]) trivial
  hleft.locks _

/-- A record is replaced by one with the same fence, or a higher one. -/
theorem write (h : Fenced w) (hcorrupt : w.file ≠ .corrupt) (hfence : w.file.fence ≤ lease.fence) :
    Fenced (w.write lease) :=
  ⟨⟨h.increasing, h.alone⟩, fun _ fence hmem => Nat.le_trans (h.below hcorrupt fence hmem) hfence,
    h.granted, h.sane⟩

theorem damage (h : Fenced w) : Fenced { w with file := .corrupt } :=
  ⟨⟨h.increasing, h.alone⟩, fun hfile => absurd rfl hfile, h.granted, h.sane⟩

theorem granted_append (h : Fenced w) (e : Event) :
    ∀ id c lease, w.calls id = some c → c.lease? = some lease →
      .acquired id lease.fence ∈ w.log ++ [e] :=
  fun id c lease hc hlease => List.mem_append_left _ (h.granted id c lease hc hlease)

/-- An acquisition is logged: its fence is above all the others. -/
theorem acquired (h : Fenced w) {fence : ℕ} (hnew : ∀ old ∈ fences w.log, old < fence)
    (hfile : w.file.fence = fence) : Fenced (w.record (.acquired id fence)) where
  increasing := by
    simp only [World.record, fences_append, fences_acquired, fences_nil]
    refine List.pairwise_append.mpr ⟨h.increasing, List.pairwise_singleton _ _, ?_⟩
    intro old hold new hnew'
    rw [List.mem_singleton.mp hnew']
    exact hnew old hold
  alone front i f between back hlog := by
    rw [List.append_assoc, List.cons_append, ← List.cons_append, ← List.append_assoc] at hlog
    rcases append_one_split hlog with ⟨-, hevent, -⟩ | ⟨rest, -, hrest⟩
    · cases hevent
    · exact h.alone front i f between rest hrest
  below _ f hf := by
    simp only [World.record, fences_append, fences_acquired, fences_nil] at hf
    rcases List.mem_append.mp hf with hold | hf
    · exact (hfile ▸ Nat.le_of_lt (hnew f hold) : f ≤ w.file.fence)
    · rw [List.mem_singleton.mp hf]
      exact Nat.le_of_eq hfile.symm
  granted := h.granted_append _
  sane := h.sane

/-- A return is logged while the record still has the fence of the call. -/
theorem returned (h : Fenced w) {fence : ℕ} (hcorrupt : w.file ≠ .corrupt)
    (hfile : w.file.fence = fence) : Fenced (w.record (.returned id fence)) where
  increasing := by
    simp only [World.record, fences_append, fences_returned, fences_nil, List.append_nil]
    exact h.increasing
  alone front i f between back hlog := by
    rw [List.append_assoc, List.cons_append, ← List.cons_append, ← List.append_assoc] at hlog
    rcases append_one_split hlog with ⟨-, hevent, hfront⟩ | ⟨rest, -, hrest⟩
    · obtain ⟨rfl, rfl⟩ := Event.returned.inj hevent
      -- whatever was acquired in between would have a fence above that of the record
      refine List.eq_nil_iff_forall_not_mem.mpr fun g hg => ?_
      have hincreasing := h.increasing
      rw [← hfront, fences_append, fences_acquired] at hincreasing
      have habove := (List.pairwise_cons.mp (List.pairwise_append.mp hincreasing).2.1).1 g hg
      have hbelow := h.below hcorrupt g (by
        rw [← hfront, fences_append, fences_acquired]
        exact List.mem_append_right _ (List.mem_cons_of_mem _ hg))
      rw [hfile] at hbelow
      exact absurd habove (Nat.not_lt.mpr hbelow)
    · exact h.alone front i f between rest hrest
  below hfile' f hf := by
    simp only [World.record, fences_append, fences_returned, fences_nil, List.append_nil] at hf
    exact h.below hfile' f hf
  granted := h.granted_append _
  sane := h.sane

theorem read (h : Fenced w) (nowMs : ℚ) : Fenced (w.read id nowMs c) := by
  unfold World.read
  split
  · exact h.leave _
  · cases htask : c.task with
    | guard =>
        dsimp only
        split
        · exact h.leave _
        · exact h.goTo (by simp [LeaseCall.lease?]) htask
    | renew token =>
        dsimp only
        split
        · exact h.leave _
        · exact h.goTo (by simp [LeaseCall.lease?, htask]) trivial

/-- The record that was read and the record that is there. -/
theorem fence_of_read {current : Option FencedWriterLease} (h : w.file.read = some current) :
    w.file ≠ .corrupt ∧ World.nextFence current = w.file.fence + 1 := by
  cases hfile : w.file with
  | absent =>
      rw [hfile] at h
      obtain rfl := Option.some.inj h
      exact ⟨by rintro ⟨⟩, rfl⟩
  | corrupt =>
      rw [hfile] at h
      cases h
  | stored lease =>
      rw [hfile] at h
      obtain rfl := Option.some.inj h
      exact ⟨by rintro ⟨⟩, rfl⟩

theorem acquire (h : Fenced w) {current : Option FencedWriterLease} {nowMs : ℚ}
    (htask : c.task = .guard) (hread : w.file.read = some current) :
    Fenced (w.acquire id nowMs c current) := by
  obtain ⟨hcorrupt, hnext⟩ := fence_of_read hread
  have hwrite : Fenced (w.write ⟨c.resourceId, c.ownerId, World.nextFence current,
      nowMs + c.ttlMs⟩) := h.write hcorrupt (by simp only [hnext, Nat.le_succ])
  refine (hwrite.acquired (fun old hold => ?_) rfl).goTo ?_ htask
  · have hbelow := h.below hcorrupt old hold
    rw [hnext]
    exact Nat.lt_succ_of_le hbelow
  · intro lease hlease
    simp only [LeaseCall.lease?, htask, Option.some.injEq] at hlease
    subst hlease
    exact List.mem_append_right _ List.mem_cons_self

theorem start (h : Fenced w) (hc : w.calls id = some c) (hphase : c.phase = .starting lease)
    (nowMs : ℚ) : Fenced (w.start id nowMs c lease) := by
  have htask : c.task = .guard := by simpa only [LeaseCall.sane, hphase] using h.sane id c hc
  have hgranted : .acquired id lease.fence ∈ w.log :=
    h.granted id c lease hc (by simp [LeaseCall.lease?, htask, hphase])
  unfold World.start
  split
  · exact h.goTo (by simpa [LeaseCall.lease?, htask] using hgranted) htask
  · exact h.leave _

theorem startRenewal (h : Fenced w) (hc : w.calls id = some c) {renewalError : Bool}
    (hphase : c.phase = .running lease renewalError) (nowMs : ℚ) :
    Fenced (w.startRenewal id nowMs c lease renewalError) := by
  have htask : c.task = .guard := by simpa only [LeaseCall.sane, hphase] using h.sane id c hc
  have hgranted : .acquired id lease.fence ∈ w.log :=
    h.granted id c lease hc (by simp [LeaseCall.lease?, htask, hphase])
  have hstopped : Fenced (w.goTo id c (.running lease true)) :=
    h.goTo (by simpa [LeaseCall.lease?, htask] using hgranted) htask
  unfold World.startRenewal
  split
  · split
    · exact h.goTo (by simpa [LeaseCall.lease?, htask] using hgranted) trivial
    · exact hstopped
  · exact hstopped

theorem extend (h : Fenced w) (hc : w.calls id = some c) {renewalError : Bool} {nowMs : ℚ}
    (hphase : c.phase = .renewing lease renewalError seen nowMs) (hfile : w.file = .stored seen) :
    Fenced (w.extend id nowMs c lease renewalError seen) := by
  have hcorrupt : w.file ≠ .corrupt := by simp [hfile]
  have hwrite : Fenced (w.write { seen with expiresAtMs := nowMs + c.ttlMs }) :=
    h.write hcorrupt (by simp [hfile, LeaseFile.fence])
  refine hwrite.goTo (fun own hown => ?_) trivial
  cases htask : c.task with
  | guard =>
      simp only [LeaseCall.lease?, htask, Option.some.injEq] at hown
      subst hown
      exact h.granted id c lease hc (by simp [LeaseCall.lease?, htask, hphase])
  | renew token => simp [LeaseCall.lease?, htask] at hown

theorem confirm (h : Fenced w) (hc : w.calls id = some c) {renewalError : Bool}
    {extended : FencedWriterLease} (hphase : c.phase = .confirming lease renewalError extended)
    (nowMs : ℚ) : Fenced (w.confirm id nowMs c lease renewalError extended) := by
  unfold World.confirm
  cases htask : c.task with
  | guard =>
      have hgranted : .acquired id lease.fence ∈ w.log :=
        h.granted id c lease hc (by simp [LeaseCall.lease?, htask, hphase])
      exact h.goTo (by simpa [LeaseCall.lease?, htask] using hgranted) htask
  | renew token =>
      dsimp only
      split
      · exact h.leave _
      · exact h.leave _

/-- The lease that a check finds to be held has the fence of the record. -/
theorem fence_of_assert {file : LeaseFile} {nowMs : ℚ}
    (h : assertFencedWriterLease file lease nowMs = true) :
    file ≠ .corrupt ∧ file.fence = lease.fence := by
  cases file with
  | absent => cases h
  | corrupt => cases h
  | stored current =>
      simp only [assertFencedWriterLease, owns, Bool.and_eq_true, decide_eq_true_eq] at h
      exact ⟨by rintro ⟨⟩, h.1.2⟩

theorem finish (h : Fenced w) {renewalError : Bool} (nowMs : ℚ) (ok : Bool) :
    Fenced (w.finish id nowMs ok c lease renewalError) := by
  unfold World.finish
  split
  · rename_i hreturns
    obtain ⟨hcorrupt, hfence⟩ := fence_of_assert (Bool.and_eq_true_iff.mp hreturns).2
    exact (h.returned hcorrupt hfence).goTo (by simp [LeaseCall.lease?]) trivial
  · exact h.goTo (by simp [LeaseCall.lease?]) trivial

theorem settle (h : Fenced w) (returns : Bool) : Fenced (w.settle id c lease returns) := by
  unfold World.settle
  split
  · split
    · rename_i hsame
      exact h.goTo (by simp [LeaseCall.lease?]) hsame.2.2
    · exact h.leave _
  · exact h.leave _
  · exact h.leave _

theorem release (h : Fenced w) (hfile : w.file = .stored seen) (hfence : seen.fence = lease.fence)
    (returns : Bool) : Fenced (w.release id c lease returns) := by
  have hwrite : Fenced (w.write { lease with expiresAtMs := 0 }) :=
    h.write (by simp [hfile]) (by simp [hfile, LeaseFile.fence, hfence])
  exact hwrite.leave _

theorem callStep (h : Fenced w) (hc : w.calls id = some c) {a : Action} (hid : a.subject = some id)
    (hok : untouched w a = true) (ht : callStep w id c c.phase a = some t) : Fenced t := by
  have hcrash : ∀ t, some (w.goTo id c (.ended .crashed)) = some t → Fenced t := by
    rintro _ ⟨⟩
    exact h.goTo (by simp [LeaseCall.lease?]) trivial
  have hsane := h.sane id c hc
  cases hphase : c.phase with
  | waiting =>
      rw [hphase] at ht
      cases a with
      | lock _ =>
          simp only [WriterLease.callStep] at ht
          split at ht
          · obtain rfl := Option.some.inj ht
            have hgo : Fenced (w.goTo id c .holding) :=
              h.goTo (by simp [LeaseCall.lease?]) trivial
            exact hgo.locks _
          · cases ht
      | crash _ => exact hcrash t ht
      | _ => cases ht
  | holding =>
      rw [hphase] at ht
      cases a with
      | read _ nowMs =>
          obtain rfl := Option.some.inj ht
          exact h.read nowMs
      | crash _ => exact hcrash t ht
      | _ => cases ht
  | acquiring current nowMs =>
      rw [hphase] at ht
      cases a with
      | write _ =>
          obtain rfl := Option.some.inj hid
          obtain rfl := Option.some.inj ht
          obtain ⟨resourceId, ownerId, ttlMs, renews, task, phase⟩ := c
          dsimp only at hphase
          subst hphase
          exact h.acquire hsane (by simpa [untouched, hc] using hok)
      | crash _ => exact hcrash t ht
      | _ => cases ht
  | starting lease =>
      rw [hphase] at ht
      cases a with
      | read _ nowMs =>
          obtain rfl := Option.some.inj ht
          exact h.start hc hphase nowMs
      | crash _ => exact hcrash t ht
      | _ => cases ht
  | running lease renewalError =>
      rw [hphase] at ht
      cases a with
      | renew _ nowMs =>
          simp only [WriterLease.callStep] at ht
          split at ht
          · obtain rfl := Option.some.inj ht
            exact h.startRenewal hc hphase nowMs
          · cases ht
      | finish _ nowMs ok =>
          obtain rfl := Option.some.inj ht
          exact h.finish nowMs ok
      | crash _ => exact hcrash t ht
      | _ => cases ht
  | renewing token renewalError seen nowMs =>
      rw [hphase] at ht
      cases a with
      | write _ =>
          obtain rfl := Option.some.inj hid
          obtain rfl := Option.some.inj ht
          refine h.extend hc hphase ?_
          obtain ⟨resourceId, ownerId, ttlMs, renews, task, phase⟩ := c
          dsimp only at hphase
          subst hphase
          simpa [untouched, hc] using hok
      | crash _ => exact hcrash t ht
      | _ => cases ht
  | confirming token renewalError extended =>
      rw [hphase] at ht
      cases a with
      | read _ nowMs =>
          obtain rfl := Option.some.inj ht
          exact h.confirm hc hphase nowMs
      | crash _ => exact hcrash t ht
      | _ => cases ht
  | checked lease returns =>
      rw [hphase] at ht
      cases a with
      | read _ nowMs =>
          obtain rfl := Option.some.inj ht
          exact h.settle returns
      | crash _ => exact hcrash t ht
      | _ => cases ht
  | finishing lease returns seen =>
      rw [hphase] at ht
      cases a with
      | write _ =>
          obtain rfl := Option.some.inj hid
          obtain rfl := Option.some.inj ht
          obtain ⟨resourceId, ownerId, ttlMs, renews, task, phase⟩ := c
          dsimp only at hphase
          subst hphase
          exact h.release (by simpa [untouched, hc] using hok) hsane returns
      | crash _ => exact hcrash t ht
      | _ => cases ht
  | ended outcome =>
      rw [hphase] at ht
      cases a <;> cases ht

theorem enter (h : Fenced w) (hphase : c.phase = .waiting) :
    Fenced { w with calls := Function.update w.calls id (some c) } := by
  have hcalls : ∀ id' c', Function.update w.calls id (some c) id' = some c' →
      c' = c ∨ w.calls id' = some c' := by
    intro id' c' hc'
    rw [Function.update_apply] at hc'
    split at hc'
    · exact .inl (Option.some.inj hc').symm
    · exact .inr hc'
  refine ⟨⟨h.increasing, h.alone⟩, h.below, fun id' c' lease hc' hlease => ?_, fun id' c' hc' => ?_⟩
  · rcases hcalls id' c' hc' with rfl | hc'
    · rw [LeaseCall.lease?, hphase] at hlease
      cases htask : c'.task <;> rw [htask] at hlease <;> cases hlease
    · exact h.granted id' c' lease hc' hlease
  · rcases hcalls id' c' hc' with rfl | hc'
    · rw [LeaseCall.sane, hphase]
      trivial
    · exact h.sane id' c' hc'

theorem newCall_phase {options : LeaseOptions} {task : Task} (h : newCall options task = some c) :
    c.phase = .waiting ∧ c.resourceId = Js.trim options.resourceId := by
  unfold newCall at h
  split at h
  · cases h
  · rename_i resourceId ownerId ttlMs hvalid
    split at h
    · cases h
    · split at h
      · obtain rfl := Option.some.inj h
        refine ⟨rfl, ?_⟩
        simp only [validateLeaseOptions] at hvalid
        split_ifs at hvalid
        exact congrArg Prod.fst (Except.ok.inj hvalid).symm
      · cases h

theorem subjectStep {a : Action} (h : Fenced w) (hok : untouched w a = true)
    (ht : (a.subject.bind fun id => (w.calls id).bind fun c =>
      WriterLease.callStep w id c c.phase a) = some t) : Fenced t := by
  obtain ⟨id, hid, ht⟩ := Option.bind_eq_some_iff.mp ht
  obtain ⟨c, hc, ht⟩ := Option.bind_eq_some_iff.mp ht
  exact h.callStep hc hid hok ht

theorem step {a : Action} (h : Fenced w) (hok : untouched w a = true)
    (ht : writerLease.step w a = some t) : Fenced t := by
  cases a with
  | enter id options task =>
      simp only [writerLease] at ht
      split at ht
      · obtain ⟨c, hnew, rfl⟩ := Option.map_eq_some_iff.mp ht
        exact h.enter (newCall_phase hnew).1
      · cases ht
  | reclaim resourceId =>
      simp only [writerLease] at ht
      split at ht
      · obtain rfl := Option.some.inj ht
        exact h.locks _
      · cases ht
  | lose resourceId =>
      obtain rfl := Option.some.inj ht
      exact h.locks _
  | damage =>
      obtain rfl := Option.some.inj ht
      exact h.damage
  | _ => exact h.subjectStep hok ht

theorem of_reach (hw : writerLease.Reach (fun w a => untouched w a) w) : Fenced w :=
  hw.invariant (by rintro _ rfl; exact initial) fun _ _ _ h hok ht => h.step hok ht

end Fenced

section Locked

/-- The lock is never lost, nobody else writes the record, and the callers name one resource. -/
def keptBy (resourceId : String) : Action → Bool
  | .lose _ | .damage => false
  | .enter _ options _ => Js.trim options.resourceId = resourceId
  | _ => true

/-- The call is inside its lock. -/
def Phase.inside : Phase → Bool
  | .waiting | .ended _ => false
  | _ => true

/-- The record that a call has read and is about to overwrite. -/
def Phase.seen? : Phase → Option (Option FencedWriterLease)
  | .acquiring current _ => some current
  | .renewing _ _ seen _ => some (some seen)
  | .finishing _ _ seen => some (some seen)
  | _ => none

structure Locked (resourceId : String) (w : World) : Prop where
  named : ∀ id c, w.calls id = some c → c.resourceId = resourceId
  held : ∀ id c, w.calls id = some c → c.phase.inside = true → w.locks resourceId = some id
  current : ∀ id c seen, w.calls id = some c → c.phase.seen? = some seen → w.file.read = some seen

variable {resourceId : String}

theorem read_stored {file : LeaseFile} (h : file.read = some (some lease)) : file = .stored lease := by
  cases file with
  | absent => cases h
  | corrupt => cases h
  | stored found =>
      obtain rfl := Option.some.inj (Option.some.inj h)
      rfl

namespace Locked

theorem untouched (h : Locked resourceId w) (a : Action) : untouched w a = true := by
  cases a with
  | write id =>
      simp only [WriterLease.untouched]
      split
      · rename_i hc
        exact decide_eq_true (h.current _ _ _ hc rfl)
      · rename_i hc
        exact decide_eq_true (read_stored (h.current _ _ _ hc rfl))
      · rename_i hc
        exact decide_eq_true (read_stored (h.current _ _ _ hc rfl))
      · rfl
  | _ => rfl

/-- A call that is inside goes on, and has read what is there. -/
theorem goTo (h : Locked resourceId w) (hc : w.calls id = some c)
    (hinside : phase.inside = true → c.phase.inside = true)
    (hseen : ∀ seen, phase.seen? = some seen → w.file.read = some seen) :
    Locked resourceId (w.goTo id c phase) where
  named id' c' hc' := by
    rcases Fenced.calls_goTo_cases hc' with ⟨rfl, rfl⟩ | hc'
    · exact h.named id' c hc
    · exact h.named id' c' hc'
  held id' c' hc' hin := by
    rcases Fenced.calls_goTo_cases hc' with ⟨rfl, rfl⟩ | hc'
    · exact h.held id' c hc (hinside hin)
    · exact h.held id' c' hc' hin
  current id' c' seen hc' hsees := by
    rcases Fenced.calls_goTo_cases hc' with ⟨rfl, rfl⟩ | hc'
    · exact hseen seen hsees
    · exact h.current id' c' seen hc' hsees

/-- Nobody else is inside the lock of a call. -/
theorem alone (h : Locked resourceId w) (hc : w.calls id = some c) (hin : c.phase.inside = true)
    {id' : ℕ} {c' : LeaseCall} (hc' : w.calls id' = some c') (hin' : c'.phase.inside = true) :
    id' = id :=
  Option.some.inj ((h.held id' c' hc' hin').symm.trans (h.held id c hc hin))

theorem inside_of_seen {current : Option FencedWriterLease} (h : phase.seen? = some current) :
    phase.inside = true := by
  cases phase with
  | acquiring _ _ => rfl
  | renewing _ _ _ _ => rfl
  | finishing _ _ _ => rfl
  | _ => cases h

/-- What the call that is inside does to the record and the lock concerns nobody else. -/
theorem edit (h : Locked resourceId w) (hc : w.calls id = some c) (hin : c.phase.inside = true)
    (hcalls : t.calls = (w.goTo id c phase).calls)
    (hlock : phase.inside = true → t.locks resourceId = some id)
    (hseen : ∀ seen, phase.seen? = some seen → t.file.read = some seen) :
    Locked resourceId t := by
  have hcases : ∀ id' c', t.calls id' = some c' →
      id' = id ∧ c' = { c with phase } ∨ id' ≠ id ∧ w.calls id' = some c' := by
    intro id' c' hc'
    rw [hcalls] at hc'
    simp only [World.goTo, Function.update_apply] at hc'
    split at hc'
    · rename_i heq
      exact .inl ⟨heq, (Option.some.inj hc').symm⟩
    · rename_i hne
      exact .inr ⟨hne, hc'⟩
  refine ⟨fun id' c' hc' => ?_, fun id' c' hc' hin' => ?_, fun id' c' seen hc' hsees => ?_⟩
  · rcases hcases id' c' hc' with ⟨rfl, rfl⟩ | ⟨-, hc'⟩
    · exact h.named id' c hc
    · exact h.named id' c' hc'
  · rcases hcases id' c' hc' with ⟨rfl, rfl⟩ | ⟨hne, hc'⟩
    · exact hlock hin'
    · exact absurd (h.alone hc hin hc' hin') hne
  · rcases hcases id' c' hc' with ⟨rfl, rfl⟩ | ⟨hne, hc'⟩
    · exact hseen seen hsees
    · exact absurd (h.alone hc hin hc' (inside_of_seen hsees)) hne

/-- The call that is inside ends. -/
theorem leave (h : Locked resourceId w) (hc : w.calls id = some c) (hin : c.phase.inside = true)
    (file : LeaseFile) (log : List Event) (outcome : Outcome) :
    Locked resourceId (({ w with file, log } : World).leave id c outcome) :=
  h.edit hc hin rfl (by rintro ⟨⟩) (by rintro _ ⟨⟩)

/-- The call that is inside stays there. -/
theorem stay (h : Locked resourceId w) (hc : w.calls id = some c) (hin : c.phase.inside = true)
    (file : LeaseFile) (log : List Event)
    (hseen : ∀ seen, phase.seen? = some seen → file.read = some seen) :
    Locked resourceId (({ w with file, log } : World).goTo id c phase) :=
  h.edit hc hin rfl (fun _ => h.held id c hc hin) hseen

theorem callStep (h : Locked resourceId w) (hc : w.calls id = some c) {a : Action}
    (ht : callStep w id c c.phase a = some t) : Locked resourceId t := by
  have hcrash : ∀ t, some (w.goTo id c (.ended .crashed)) = some t → Locked resourceId t := by
    rintro _ ⟨⟩
    exact h.goTo hc (by rintro ⟨⟩) (by rintro _ ⟨⟩)
  cases hphase : c.phase with
  | waiting =>
      rw [hphase] at ht
      cases a with
      | lock _ =>
          simp only [WriterLease.callStep, h.named id c hc] at ht
          split at ht
          · rename_i hfree
            obtain rfl := Option.some.inj ht
            have hnobody : ∀ id' c', w.calls id' = some c' → c'.phase.inside = false := by
              intro id' c' hc'
              cases hin : c'.phase.inside with
              | false => rfl
              | true =>
                  have hheld := h.held id' c' hc' hin
                  rw [hfree] at hheld
                  cases hheld
            refine ⟨fun id' c' hc' => ?_, fun id' c' hc' hin => ?_, fun id' c' seen hc' hsees => ?_⟩
            · rcases Fenced.calls_goTo_cases hc' with ⟨rfl, rfl⟩ | hc'
              · exact h.named id' c hc
              · exact h.named id' c' hc'
            · rcases Fenced.calls_goTo_cases hc' with ⟨rfl, rfl⟩ | hc'
              · exact Function.update_self resourceId (some id') w.locks
              · rw [hnobody id' c' hc'] at hin
                cases hin
            · rcases Fenced.calls_goTo_cases hc' with ⟨rfl, rfl⟩ | hc'
              · cases hsees
              · exact h.current id' c' seen hc' hsees
          · cases ht
      | crash _ => exact hcrash t ht
      | _ => cases ht
  | holding =>
      have hin : c.phase.inside = true := by rw [hphase]; rfl
      rw [hphase] at ht
      cases a with
      | read _ nowMs =>
          obtain rfl := Option.some.inj ht
          unfold World.read
          split
          · exact h.leave hc hin w.file w.log _
          · rename_i current hread
            cases c.task with
            | guard =>
                dsimp only
                split
                · exact h.leave hc hin w.file w.log _
                · refine h.stay hc hin w.file w.log ?_
                  rintro _ ⟨⟩
                  exact hread
            | renew token =>
                dsimp only
                split
                · exact h.leave hc hin w.file w.log _
                · rename_i seen hfilter
                  refine h.stay hc hin w.file w.log ?_
                  rintro _ ⟨⟩
                  rw [hread, Option.eq_some_of_filter_eq_some hfilter]
      | crash _ => exact hcrash t ht
      | _ => cases ht
  | acquiring current nowMs =>
      have hin : c.phase.inside = true := by rw [hphase]; rfl
      rw [hphase] at ht
      cases a with
      | write _ =>
          obtain rfl := Option.some.inj ht
          exact h.stay hc hin _ _ (by rintro _ ⟨⟩)
      | crash _ => exact hcrash t ht
      | _ => cases ht
  | starting lease =>
      have hin : c.phase.inside = true := by rw [hphase]; rfl
      rw [hphase] at ht
      cases a with
      | read _ nowMs =>
          obtain rfl := Option.some.inj ht
          unfold World.start
          split
          · exact h.stay hc hin w.file w.log (by rintro _ ⟨⟩)
          · exact h.leave hc hin w.file w.log _
      | crash _ => exact hcrash t ht
      | _ => cases ht
  | running lease renewalError =>
      have hin : c.phase.inside = true := by rw [hphase]; rfl
      rw [hphase] at ht
      cases a with
      | renew _ nowMs =>
          simp only [WriterLease.callStep] at ht
          split at ht
          · obtain rfl := Option.some.inj ht
            unfold World.startRenewal
            split
            · rename_i current hfile
              split
              · refine h.stay hc hin w.file w.log ?_
                rintro _ ⟨⟩
                rw [hfile]
                rfl
              · exact h.stay hc hin w.file w.log (by rintro _ ⟨⟩)
            · exact h.stay hc hin w.file w.log (by rintro _ ⟨⟩)
          · cases ht
      | finish _ nowMs ok =>
          obtain rfl := Option.some.inj ht
          unfold World.finish
          split
          · exact h.stay hc hin w.file _ (by rintro _ ⟨⟩)
          · exact h.stay hc hin w.file w.log (by rintro _ ⟨⟩)
      | crash _ => exact hcrash t ht
      | _ => cases ht
  | renewing token renewalError seen nowMs =>
      have hin : c.phase.inside = true := by rw [hphase]; rfl
      rw [hphase] at ht
      cases a with
      | write _ =>
          obtain rfl := Option.some.inj ht
          exact h.stay hc hin _ w.log (by rintro _ ⟨⟩)
      | crash _ => exact hcrash t ht
      | _ => cases ht
  | confirming token renewalError extended =>
      have hin : c.phase.inside = true := by rw [hphase]; rfl
      rw [hphase] at ht
      cases a with
      | read _ nowMs =>
          obtain rfl := Option.some.inj ht
          unfold World.confirm
          cases c.task with
          | guard => exact h.stay hc hin w.file w.log (by rintro _ ⟨⟩)
          | renew _ =>
              dsimp only
              split
              · exact h.leave hc hin w.file w.log _
              · exact h.leave hc hin w.file w.log _
      | crash _ => exact hcrash t ht
      | _ => cases ht
  | checked lease returns =>
      have hin : c.phase.inside = true := by rw [hphase]; rfl
      rw [hphase] at ht
      cases a with
      | read _ nowMs =>
          obtain rfl := Option.some.inj ht
          unfold World.settle
          split
          · rename_i latest hfile
            split
            · refine h.stay hc hin w.file w.log ?_
              rintro _ ⟨⟩
              rw [hfile]
              rfl
            · exact h.leave hc hin w.file w.log _
          · exact h.leave hc hin w.file w.log _
          · exact h.leave hc hin w.file w.log _
      | crash _ => exact hcrash t ht
      | _ => cases ht
  | finishing lease returns seen =>
      have hin : c.phase.inside = true := by rw [hphase]; rfl
      rw [hphase] at ht
      cases a with
      | write _ =>
          obtain rfl := Option.some.inj ht
          exact h.leave hc hin _ w.log _
      | crash _ => exact hcrash t ht
      | _ => cases ht
  | ended outcome =>
      rw [hphase] at ht
      cases a <;> cases ht

theorem subjectStep (a : Action) (h : Locked resourceId w)
    (ht : (a.subject.bind fun id =>
      (w.calls id).bind fun c => WriterLease.callStep w id c c.phase a) = some t) :
    Locked resourceId t := by
  obtain ⟨id, -, ht⟩ := Option.bind_eq_some_iff.mp ht
  obtain ⟨c, hc, ht⟩ := Option.bind_eq_some_iff.mp ht
  exact h.callStep hc ht

theorem step {a : Action} (h : Locked resourceId w) (hok : keptBy resourceId a = true)
    (ht : writerLease.step w a = some t) : Locked resourceId t := by
  cases a with
  | enter id options task =>
      simp only [writerLease] at ht
      split at ht
      · obtain ⟨c, hnew, rfl⟩ := Option.map_eq_some_iff.mp ht
        obtain ⟨hphase, hname⟩ := Fenced.newCall_phase hnew
        have hcalls : ∀ id' c', Function.update w.calls id (some c) id' = some c' →
            c' = c ∨ w.calls id' = some c' := by
          intro id' c' hc'
          rw [Function.update_apply] at hc'
          split at hc'
          · exact .inl (Option.some.inj hc').symm
          · exact .inr hc'
        refine ⟨fun id' c' hc' => ?_, fun id' c' hc' hin => ?_, fun id' c' seen hc' hsees => ?_⟩
        · rcases hcalls id' c' hc' with rfl | hc'
          · exact hname.trans (of_decide_eq_true hok)
          · exact h.named id' c' hc'
        · rcases hcalls id' c' hc' with rfl | hc'
          · rw [hphase] at hin
            cases hin
          · exact h.held id' c' hc' hin
        · rcases hcalls id' c' hc' with rfl | hc'
          · rw [hphase] at hsees
            cases hsees
          · exact h.current id' c' seen hc' hsees
      · cases ht
  | reclaim name =>
      simp only [writerLease] at ht
      split at ht
      · rename_i hholder
        obtain rfl := Option.some.inj ht
        refine ⟨h.named, fun id' c' hc' hin => ?_, h.current⟩
        have hheld := h.held id' c' hc' hin
        by_cases hname : resourceId = name
        · -- the holder of the lock has ended
          subst hname
          rw [hheld, Option.bind_some, hc'] at hholder
          obtain rfl := Option.some.inj hholder
          cases hin
        · simpa only [Function.update_of_ne hname] using hheld
      · cases ht
  | lose _ => cases hok
  | damage => cases hok
  | lock id => exact h.subjectStep (.lock id) ht
  | read id nowMs => exact h.subjectStep (.read id nowMs) ht
  | write id => exact h.subjectStep (.write id) ht
  | renew id nowMs => exact h.subjectStep (.renew id nowMs) ht
  | finish id nowMs ok => exact h.subjectStep (.finish id nowMs ok) ht
  | crash id => exact h.subjectStep (.crash id) ht

end Locked

/-- A lock that is never lost keeps the record untouched between each read and write. -/
theorem untouched_of_locked (hw : writerLease.Reach (fun _ a => keptBy resourceId a) w) :
    writerLease.Reach (fun w a => untouched w a) w := by
  have hboth : writerLease.Reach (fun w a => untouched w a) w ∧ Locked resourceId w := by
    induction hw with
    | start h0 =>
        obtain rfl := h0
        exact ⟨.start rfl, by rintro _ _ ⟨⟩, by rintro _ _ ⟨⟩, by rintro _ _ _ ⟨⟩⟩
    | next _ hok hstep ih =>
        exact ⟨.next ih.1 (ih.2.untouched _) hstep, ih.2.step hok hstep⟩
  exact hboth.1

end Locked

/-- Also when the lock is lost while callbacks run, and their owners have not noticed. -/
theorem fenced_writers_serial (hw : writerLease.Reach (fun w a => untouched w a) w) : Serial w :=
  (Fenced.of_reach hw).toSerial

section Example

def exampleOptions (ownerId : String) : LeaseOptions :=
  ⟨"ledger", ownerId, "/lease.json", some 1000, none⟩

/-- The lock of a running callback is lost; its lease expires, and another owner's callback runs. -/
def takeoverRun : List Action :=
  [.enter 0 (exampleOptions "a") .guard, .lock 0, .read 0 0, .write 0, .read 0 1, .lose "ledger",
    .enter 1 (exampleOptions "b") .guard, .lock 1, .read 1 500,
    .enter 2 (exampleOptions "b") .guard, .lock 2, .read 2 2000, .write 2, .read 2 2001,
    .finish 0 2002 true, .read 0 2002, .finish 2 2003 true, .read 2 2003, .write 2]

theorem fenced_writers_serial_takeover : ∃ w, (w.log =
      [.acquired 0 1, .acquired 2 2, .returned 2 2] ∧
    (w.calls 0).map (·.phase) = some (.ended .failed) ∧
    (w.calls 1).map (·.phase) = some (.ended (.threw "WRITER_LEASE_BUSY"))) ∧ Serial w := by
  obtain ⟨w, hw, hp⟩ := System.exists_reach_of_execOk (S := writerLease) (s := {}) untouched
    takeoverRun (fun w => w.log = [.acquired 0 1, .acquired 2 2, .returned 2 2] ∧
      (w.calls 0).map (·.phase) = some (.ended .failed) ∧
      (w.calls 1).map (·.phase) = some (.ended (.threw "WRITER_LEASE_BUSY"))) rfl
    (by decide +kernel)
  exact ⟨w, hp, fenced_writers_serial hw⟩

end Example

end Kyberion.WriterLease
