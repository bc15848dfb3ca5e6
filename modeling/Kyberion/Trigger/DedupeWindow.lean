import Kyberion.Trigger.Deliveries

/-!
Receipts within the dedupe window. A stable trigger that was delivered or rejected stays in the
journal for the window, and nothing is written for its key before the window has passed.
-/

namespace Kyberion.Trigger

open Retention Transition

variable {printing : Printing} {w t : World} {lag id pid maxStoreBytes : ℕ} {call : TriggerCall}
variable {phase : Phase} {claimed record : TriggerRecord} {faults : AppendFaults}

/-- A receipt that rules out another delivery within the dedupe window. -/
structure Settles (record : TriggerRecord) : Prop where
  terminal : isTerminal record = true
  stable : isMinuteScoped record = false

/-- After the receipt of a stable trigger nothing is written for its key within the window. -/
def Deduped (w : World) : Prop :=
  w.written.Pairwise fun e later => Settles e.2 →
    later.2.idempotencyKey = e.2.idempotencyKey → e.2.recordedAt + DEDUPE_RETENTION_MS < later.1

structure SettledInv (w : World) : Prop where
  form : ∀ e ∈ w.written, isTerminal e.2 = true → e.2.reason = none ∨ e.2.claimExpiresAt = none
  latest : ∀ e ∈ w.written, Settles e.2 → w.now ≤ e.2.recordedAt + DEDUPE_RETENTION_MS →
    IsLatest e.2 w.lines
  spaced : Deduped w

theorem mem_written {e : ℕ × TriggerRecord}
    (h : e ∈ (w.append printing pid maxStoreBytes record faults).written) :
    e ∈ w.written ∨ e = (w.now, record) ∧ faults.appendFails = false := by
  simp only [World.append] at h
  split at h
  · exact .inl h
  · rename_i hok
    rcases List.mem_append.mp h with h | h
    · exact .inl h
    · exact .inr ⟨List.mem_singleton.mp h, Bool.eq_false_iff.mpr hok⟩

namespace SettledInv

theorem goTo (h : SettledInv w) : SettledInv (w.goTo id call phase) :=
  ⟨h.form, h.latest, h.spaced⟩

theorem append (h : SettledInv w)
    (hform : isTerminal record = true → record.reason = none ∨ record.claimExpiresAt = none)
    (hother : ∀ e ∈ w.written, Settles e.2 → w.now ≤ e.2.recordedAt + DEDUPE_RETENTION_MS →
      record.idempotencyKey ≠ e.2.idempotencyKey) :
    SettledInv (w.append printing pid maxStoreBytes record faults) where
  form e he hterminal := by
    rcases mem_written he with he | ⟨rfl, -⟩
    · exact h.form e he hterminal
    · exact hform hterminal
  latest e he hsettles hnow := by
    rcases mem_written he with he | ⟨rfl, hok⟩
    · exact isLatest_append (h.latest e he hsettles hnow)
        (kept_of_recent (h.form e he hsettles.terminal) hnow) (.inr hsettles.stable)
        (hother e he hsettles hnow)
    · exact isLatest_append_self hok
  spaced := by
    simp only [Deduped, World.append]
    split
    · exact h.spaced
    · refine List.pairwise_append.mpr ⟨h.spaced, List.pairwise_singleton _ _, ?_⟩
      intro e he later hlater hsettles hkey
      obtain rfl := List.mem_singleton.mp hlater
      exact Nat.lt_of_not_ge fun hnow => hother e he hsettles hnow hkey

theorem claim (h : SettledInv w) (hj : JournalInv lag w)
    (hlag : lag ≤ TRIGGER_STORE_MAX_CLAIM_LEASE_MS) (host : ClaimHost) :
    SettledInv (w.claim printing id call host) := by
  rcases claim_cases printing w id call host with
    ⟨phase, -, heq⟩ | ⟨hnew, record, phase, heq, hclaims⟩
  · rw [heq]
    exact h.goTo
  · rw [heq]
    refine (h.append ?_ ?_).goTo
    · intro hterminal
      rcases hclaims.outcome with ⟨-, hexpires, -⟩ | ⟨hclaim, -⟩
      · exact .inr hexpires
      · simp [isTerminal, hclaim.status] at hterminal
    · intro e he hsettles hnow hkey
      have hfound := found_of_recent hlag hnow hj.ordered (h.latest e he hsettles hnow)
      have hblocks : blocks e.2 w.now (w.isProcessAlive host e.2) = true := by
        simp [blocks, hsettles.terminal]
      rw [IsNew, ← hclaims.idempotencyKey, hkey, hfound,
        Option.filter_some_pos (by exact hblocks)] at hnew
      cases hnew

theorem settle (h : SettledInv w) (hj : JournalInv lag w) (hbusy : Busy w id call claimed)
    (hreceipt : IsReceipt w.now claimed record) (hnow : w.now < overdueAt lag claimed) :
    SettledInv ((w.append printing pid maxStoreBytes record faults).goTo id call phase) := by
  refine (h.append (fun hterminal => .inl (hreceipt.delivered hterminal)) ?_).goTo
  intro e he hsettles hrecent hkey
  have hclaim := (hj.claims id call claimed hbusy.called hbusy.phase).1
  have heq := (hj.latest id call claimed hbusy hnow).eq (h.latest e he hsettles hrecent)
    (hreceipt.idempotencyKey.symm.trans hkey)
  have hterminal := hsettles.terminal
  rw [← heq] at hterminal
  simp [isTerminal, hclaim.status] at hterminal

theorem callStep {a : Action} (h : SettledInv w) (hj : JournalInv lag w)
    (hlag : lag ≤ TRIGGER_STORE_MAX_CLAIM_LEASE_MS) (hcall : w.calls id = some call)
    (hrunning : w.ended call.pid = false) (hsubject : a.subject = some id)
    (htimely : timely lag w a = true)
    (ht : Trigger.callStep printing w id call call.phase a = some t) : SettledInv t := by
  cases hphase : call.phase with
  | begun =>
      rw [hphase] at ht
      cases a with
      | claim _ host =>
          obtain rfl := Option.some.inj ht
          exact h.claim hj hlag host
      | lockTimeout _ =>
          obtain rfl := Option.some.inj ht
          exact h.goTo
      | _ => cases ht
  | delivering claimed =>
      rw [hphase] at ht
      cases a with
      | deliver _ result =>
          obtain rfl := Option.some.inj ht
          exact h.goTo
      | _ => cases ht
  | settling claimed receipt caught =>
      rw [hphase] at ht
      cases a with
      | settle _ faults =>
          obtain rfl := Option.some.inj hsubject
          obtain rfl := Option.some.inj ht
          simp only [timely, hcall, Option.map_some, hphase, Bool.and_eq_true,
            decide_eq_true_eq] at htimely
          exact h.settle hj ⟨hcall, by rw [hphase]; rfl, hrunning⟩
            (hj.receipts _ call claimed receipt caught hcall hphase) htimely.2
      | lockTimeout _ =>
          cases caught with
          | true =>
              obtain rfl := Option.some.inj ht
              exact h.goTo
          | false =>
              obtain rfl := Option.some.inj ht
              exact h.goTo
      | _ => cases ht
  | _ =>
      rw [hphase] at ht
      cases a <;> cases ht

end SettledInv

/-- The operator does not rotate the journal, which drops stable keys early. -/
def withoutRotation : Action → Bool
  | .rotate _ _ => false
  | _ => true

namespace SettledInv

theorem step {a : Action} (h : SettledInv w) (hj : JournalInv lag w)
    (hlag : lag ≤ TRIGGER_STORE_MAX_CLAIM_LEASE_MS) (htimely : timely lag w a = true)
    (hrotation : withoutRotation a = true) (ht : (triggers printing).step w a = some t) :
    SettledInv t := by
  have subjectStep : (a.subject.bind fun id => (w.calls id).bind fun call =>
      if w.ended call.pid then none else Trigger.callStep printing w id call call.phase a) =
        some t → SettledInv t := fun ht => by
    obtain ⟨id, hsubject, ht⟩ := Option.bind_eq_some_iff.mp ht
    obtain ⟨call, hcall, ht⟩ := Option.bind_eq_some_iff.mp ht
    obtain ⟨hrunning, ht⟩ := Option.ite_none_left_eq_some.mp ht
    exact h.callStep hj hlag hcall (Bool.not_eq_true _ ▸ hrunning) hsubject htimely ht
  cases a with
  | tick ms =>
      obtain rfl := Option.some.inj ht
      exact ⟨h.form, fun e he hsettles hnow =>
        h.latest e he hsettles (Nat.le_trans (Nat.le_add_right _ _) hnow), h.spaced⟩
  | start id pid options request =>
      obtain ⟨-, ht⟩ := Option.ite_none_right_eq_some.mp ht
      obtain rfl := Option.some.inj ht
      exact ⟨h.form, h.latest, h.spaced⟩
  | end_ pid =>
      obtain rfl := Option.some.inj ht
      exact ⟨h.form, h.latest, h.spaced⟩
  | rotate pid keepStable => cases hrotation
  | _ => exact subjectStep ht

theorem initial (hw : (triggers printing).init w) : SettledInv w := by
  obtain ⟨lines, -, rfl⟩ := hw
  exact ⟨fun _ he => (by cases he), fun _ he => (by cases he), List.Pairwise.nil⟩

theorem of_reach (hlag : lag ≤ TRIGGER_STORE_MAX_CLAIM_LEASE_MS)
    (h : (triggers printing).Reach (fun w a => timely lag w a && withoutRotation a) w) :
    SettledInv w := by
  induction h with
  | start hinit => exact initial hinit
  | next hr hok ht ih =>
      have hsplit := Bool.and_eq_true _ _ ▸ hok
      exact ih.step (JournalInv.of_reach hlag (fun _ _ hstep => (Bool.and_eq_true _ _ ▸ hstep).1) hr)
        hlag hsplit.1 hsplit.2 ht

end SettledInv

/-- A trigger is delivered under a claim that the journal has, for no more than its creator may do,
and by one call at a time, unless the claim of the other is overdue. -/
structure DeliveredOnce (lag : ℕ) (w : World) : Prop where
  recorded : ∀ id call claimed, Busy w id call claimed →
    (claimed.recordedAt, claimed) ∈ w.written ∧
      NotEscalated claimed.createdBy claimed.requestedAuthority
  exclusive : ∀ id id' call call' claimed claimed', Busy w id call claimed →
    Busy w id' call' claimed' → claimed.idempotencyKey = claimed'.idempotencyKey → id ≠ id' →
      overdueAt lag claimed ≤ claimed'.recordedAt ∨ overdueAt lag claimed' ≤ claimed.recordedAt

section Minutes

/-- Long lines, of which the journal of a runner has room for one. -/
def longLines : Printing where
  lineBytes _ := 40000
  numberText _ := ""

def scheduler : ClaimHost where
  context :=
    { roles := [("generation_scheduler", ["operations_runtime"])]
      activeRole := some "generation_scheduler" }

def wakeRequest : TriggerRequest where
  idempotencyKey := "wake:daemon"
  source := .wake
  createdBy := { authorityRole := "generation_scheduler", level := 40 }

def smallStore : TriggerRunnerOptions where
  maxStoreBytes := some 65536

/-- Two processes wake the same daemon, a third one a day later, and a fourth after the window. -/
def wakes : List Action :=
  [.start 0 1 smallStore wakeRequest, .start 1 2 smallStore wakeRequest, .claim 0 scheduler,
    .claim 1 scheduler, .deliver 0 (.ok none), .settle 0 {}, .tick 86400000,
    .start 2 3 smallStore wakeRequest, .claim 2 scheduler, .tick 691200000,
    .start 3 4 smallStore wakeRequest, .claim 3 scheduler]

end Minutes

end Kyberion.Trigger
