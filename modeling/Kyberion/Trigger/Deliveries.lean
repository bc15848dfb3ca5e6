import Kyberion.Trigger.Runner

/-!
What the journal is good for: a trigger is under way at most once, and not again within the dedupe
window of its receipt. Both rest on one fact: the claim of a call that is under way, and the receipt
of a finished stable trigger, stay the last record of their key in the journal, and the backward scan
comes to them.
-/

namespace Kyberion.Trigger

open Retention Transition

/-- The claim that a call delivers under. -/
def Phase.claimed : Phase → Option TriggerRecord
  | .delivering claimed => some claimed
  | .settling claimed _ _ => some claimed
  | _ => none

/-- When the journal may have lost a claim, with receipts that wait no longer than `lag` for the
lock. -/
def overdueAt (lag : ℕ) (claimed : TriggerRecord) : ℕ :=
  claimed.claimExpiresAt.getD 0 + (DEDUPE_RETENTION_MS - lag)

/-- A receipt is appended soon after its delivery has ended, and before its claim is overdue. -/
def timely (lag : ℕ) (w : World) : Action → Bool
  | .settle id _ =>
      match (w.calls id).map TriggerCall.phase with
      | some (.settling claimed receipt _) =>
          w.now ≤ receipt.recordedAt + lag && w.now < overdueAt lag claimed
      | _ => true
  | _ => true

/-- A call of a process that runs is under way with its claim. -/
structure Busy (w : World) (id : ℕ) (call : TriggerCall) (claimed : TriggerRecord) : Prop where
  called : w.calls id = some call
  phase : call.phase.claimed = some claimed
  running : w.ended call.pid = false

/-- The record by which a call has claimed its trigger. -/
structure IsClaim (now id : ℕ) (call : TriggerCall) (claimed : TriggerRecord) : Prop where
  idempotencyKey : claimed.idempotencyKey = call.request.idempotencyKey
  status : claimed.status = .failed
  inFlight : isInFlight claimed = true
  claimId : claimed.claimId = some id
  owner : claimed.claimOwnerPid = some call.pid
  lease : ∃ ms ≤ TRIGGER_STORE_MAX_CLAIM_LEASE_MS,
    claimed.claimExpiresAt = some (claimed.recordedAt + ms)
  recorded : claimed.recordedAt ≤ now
  authority : NotEscalated claimed.createdBy claimed.requestedAuthority

/-- The receipt of a delivery under a claim. -/
structure IsReceipt (now : ℕ) (claimed receipt : TriggerRecord) : Prop where
  idempotencyKey : receipt.idempotencyKey = claimed.idempotencyKey
  recorded : receipt.recordedAt ≤ now
  delivered : isTerminal receipt = true → receipt.reason = none

section Window

variable {lag now id : ℕ} {call : TriggerCall} {claimed record : TriggerRecord}
variable {lines : List JournalLine}

/-- Records stand in the order of their times, but for what a receipt has waited. -/
def Ordered (lag : ℕ) (records : List TriggerRecord) : Prop :=
  records.Pairwise fun earlier later => earlier.recordedAt ≤ later.recordedAt + lag

theorem IsClaim.kept (h : IsClaim now id call claimed) (hnow : now < overdueAt lag claimed) :
    keptRecord now claimed = true := by
  obtain ⟨ms, -, hexpires⟩ := h.lease
  rw [overdueAt, hexpires, Option.getD_some] at hnow
  simp only [keptRecord, h.inFlight, isAbandonedClaim, hexpires, Option.getD_some, if_true,
    Bool.not_eq_true', decide_eq_false_iff_not]
  omega

theorem IsClaim.found (h : IsClaim now id call claimed) (hlag : lag ≤ TRIGGER_STORE_MAX_CLAIM_LEASE_MS)
    (hnow : now < overdueAt lag claimed) (hordered : Ordered lag (journalRecords lines))
    (hlatest : IsLatest claimed lines) :
    findLatestRecord lines now claimed.idempotencyKey = some claimed := by
  obtain ⟨ms, hms, hexpires⟩ := h.lease
  rw [overdueAt, hexpires, Option.getD_some] at hnow
  refine hlatest.find_scan hordered (by simp [stopsScan, h.inFlight]) fun later hlater => ?_
  have hrecent : readCutoffMs now ≤ later.recordedAt := by
    simp only [readCutoffMs, DEDUPE_RETENTION_MS, TRIGGER_STORE_MAX_CLAIM_LEASE_MS] at *
    omega
  simp [stopsScan, hrecent]

theorem kept_of_recent (hform : record.reason = none ∨ record.claimExpiresAt = none)
    (hnow : now ≤ record.recordedAt + DEDUPE_RETENTION_MS) : keptRecord now record = true := by
  unfold keptRecord
  dsimp only
  split
  · rename_i hflight
    rcases hform with hreason | hexpires
    · simp [isInFlight, hreason] at hflight
    · simp [isAbandonedClaim, hexpires, hnow]
  · simp [hnow]

theorem found_of_recent (hlag : lag ≤ TRIGGER_STORE_MAX_CLAIM_LEASE_MS)
    (hnow : now ≤ record.recordedAt + DEDUPE_RETENTION_MS)
    (hordered : Ordered lag (journalRecords lines)) (hlatest : IsLatest record lines) :
    findLatestRecord lines now record.idempotencyKey = some record := by
  refine hlatest.find_scan hordered ?_ fun later hlater => ?_
  · have hrecent : readCutoffMs now ≤ record.recordedAt := by
      simp only [readCutoffMs]
      omega
    simp [stopsScan, hrecent]
  · have hrecent : readCutoffMs now ≤ later.recordedAt := by
      simp only [readCutoffMs]
      omega
    simp [stopsScan, hrecent]

end Window

section Append

variable {printing : Printing} {w : World} {pid maxStoreBytes lag : ℕ} {record r : TriggerRecord}
variable {faults : AppendFaults}

theorem append_lines (hok : faults.appendFails = false) :
    journalRecords (w.append printing pid maxStoreBytes record faults).lines =
      journalRecords (beforeAppend (w.view pid) (printing.lineBytes record) maxStoreBytes w.now
        faults.rotationFails).lines ++ [record] := by
  simp only [World.append, appendRecord, hok, Bool.false_eq_true, if_false]
  exact journalRecords_append_one

theorem append_lines_failed (hfails : faults.appendFails = true) :
    (w.append printing pid maxStoreBytes record faults).lines =
      (beforeAppend (w.view pid) (printing.lineBytes record) maxStoreBytes w.now
        faults.rotationFails).lines := by
  simp [World.append, appendRecord, hfails]

theorem beforeAppend_records {bytes : ℕ} {rotationFails : Bool} :
    (journalRecords (beforeAppend (w.view pid) bytes maxStoreBytes w.now rotationFails).lines).Sublist
      (journalRecords w.lines) :=
  beforeAppend_sublist.filterMap _

/-- An append keeps the last record of another key, if retention does. -/
theorem isLatest_append (h : IsLatest r w.lines) (hkept : keptRecord w.now r = true)
    (hstays : isInFlight r = true ∨ isMinuteScoped r = false)
    (hne : record.idempotencyKey ≠ r.idempotencyKey) :
    IsLatest r (w.append printing pid maxStoreBytes record faults).lines := by
  have hbefore : IsLatest r (beforeAppend (w.view pid) (printing.lineBytes record) maxStoreBytes
      w.now faults.rotationFails).lines := isLatest_beforeAppend h hkept hstays
  cases hfails : faults.appendFails with
  | true => rwa [append_lines_failed hfails]
  | false =>
      rw [IsLatest, append_lines hfails]
      exact hbefore.append_one hne

theorem isLatest_append_self (hok : faults.appendFails = false) :
    IsLatest record (w.append printing pid maxStoreBytes record faults).lines := by
  rw [IsLatest, append_lines hok]
  exact IsLast.append_self

theorem mem_append {e : TriggerRecord}
    (h : e ∈ journalRecords (w.append printing pid maxStoreBytes record faults).lines) :
    e ∈ journalRecords w.lines ∨ e = record := by
  cases hfails : faults.appendFails with
  | true =>
      rw [append_lines_failed hfails] at h
      exact .inl (beforeAppend_records.subset h)
  | false =>
      rw [append_lines hfails] at h
      rcases List.mem_append.mp h with h | h
      · exact .inl (beforeAppend_records.subset h)
      · exact .inr (List.mem_singleton.mp h)

theorem ordered_append (h : Ordered lag (journalRecords w.lines))
    (hpast : ∀ e ∈ journalRecords w.lines, e.recordedAt ≤ w.now)
    (hlag : w.now ≤ record.recordedAt + lag) :
    Ordered lag (journalRecords (w.append printing pid maxStoreBytes record faults).lines) := by
  cases hfails : faults.appendFails with
  | true =>
      rw [append_lines_failed hfails]
      exact h.sublist beforeAppend_records
  | false =>
      rw [append_lines hfails]
      refine List.pairwise_append.mpr ⟨h.sublist beforeAppend_records, List.pairwise_singleton _ _, ?_⟩
      intro e he later hlater
      obtain rfl := List.mem_singleton.mp hlater
      exact Nat.le_trans (hpast e (beforeAppend_records.subset he)) hlag

end Append

section Runs

variable {printing : Printing} {w t : World} {lag id : ℕ} {call : TriggerCall} {phase : Phase}
variable {claimed record : TriggerRecord} {faults : AppendFaults}

structure JournalInv (lag : ℕ) (w : World) : Prop where
  ordered : Ordered lag (journalRecords w.lines)
  past : ∀ e ∈ journalRecords w.lines, e.recordedAt ≤ w.now
  claims : ∀ id call claimed, w.calls id = some call → call.phase.claimed = some claimed →
    IsClaim w.now id call claimed ∧ (claimed.recordedAt, claimed) ∈ w.written
  receipts : ∀ id call claimed receipt caught, w.calls id = some call →
    call.phase = .settling claimed receipt caught → IsReceipt w.now claimed receipt
  latest : ∀ id call claimed, Busy w id call claimed → w.now < overdueAt lag claimed →
    IsLatest claimed w.lines
  exclusive : ∀ id id' call call' claimed claimed', Busy w id call claimed →
    Busy w id' call' claimed' → claimed.idempotencyKey = claimed'.idempotencyKey → id ≠ id' →
      overdueAt lag claimed ≤ claimed'.recordedAt ∨ overdueAt lag claimed' ≤ claimed.recordedAt

theorem calls_goTo_cases {id' : ℕ} {call' : TriggerCall}
    (h : (w.goTo id call phase).calls id' = some call') :
    id' = id ∧ call' = { call with phase } ∨ id' ≠ id ∧ w.calls id' = some call' := by
  simp only [World.goTo, Function.update_apply] at h
  split at h
  · rename_i hid
    exact .inl ⟨hid, (Option.some.inj h).symm⟩
  · rename_i hid
    exact .inr ⟨hid, h⟩

theorem busy_goTo_cases {id' : ℕ} {call' : TriggerCall}
    (h : Busy (w.goTo id call phase) id' call' claimed) :
    id' = id ∧ call' = { call with phase } ∧ phase.claimed = some claimed ∧
        w.ended call.pid = false ∨
      id' ≠ id ∧ Busy w id' call' claimed := by
  rcases calls_goTo_cases h.called with ⟨rfl, rfl⟩ | ⟨hid, hcall⟩
  · exact .inl ⟨rfl, rfl, h.phase, h.running⟩
  · exact .inr ⟨hid, hcall, h.phase, h.running⟩

theorem resolveAuthorities_notEscalated {numberText : ℚ → String} {context : RoleContext}
    {raw authorities : TriggerAuthoritySnapshot × TriggerAuthoritySnapshot}
    (h : resolveAuthorities numberText context raw = .ok authorities) :
    NotEscalated authorities.1 authorities.2 := by
  obtain ⟨createdBy, hcreated, h⟩ := Js.except_bind_ok h
  obtain ⟨requested, hrequested, h⟩ := Js.except_bind_ok h
  obtain ⟨_, hescalation, h⟩ := Js.except_bind_ok h
  obtain rfl := Except.ok.inj h
  exact notEscalated (resolveGovernedAuthority_governed hcreated)
    (resolveGovernedAuthority_governed hrequested) hescalation

theorem isClaim_claimRecord {existing : Option TriggerRecord}
    {authorities : TriggerAuthoritySnapshot × TriggerAuthoritySnapshot}
    (h : NotEscalated authorities.1 authorities.2) :
    IsClaim w.now id call (w.claimRecord id call existing authorities) where
  idempotencyKey := rfl
  status := rfl
  inFlight := decide_eq_true rfl
  claimId := rfl
  owner := rfl
  lease := ⟨_, call.runner.lease_le, rfl⟩
  recorded := Nat.le_refl _
  authority := h

/-- No earlier record makes the trigger a duplicate. -/
def IsNew (w : World) (host : ClaimHost) (idempotencyKey : String) : Prop :=
  (findLatestRecord w.lines w.now idempotencyKey).filter
    (fun record => blocks record w.now (w.isProcessAlive host record)) = none

/-- What a claim appends: a rejection, or a claim that is delivered unless the append fails. -/
structure Claims (w : World) (id : ℕ) (call : TriggerCall) (appendFails : Bool)
    (record : TriggerRecord) (phase : Phase) : Prop where
  idempotencyKey : record.idempotencyKey = call.request.idempotencyKey
  recorded : record.recordedAt = w.now
  outcome : record.status = .rejected ∧ record.claimExpiresAt = none ∧ phase.claimed = none ∨
    IsClaim w.now id call record ∧
      (phase.claimed = none ∨ phase = .delivering record ∧ appendFails = false)

theorem claim_cases (printing : Printing) (w : World) (id : ℕ) (call : TriggerCall)
    (host : ClaimHost) :
    (∃ phase : Phase, phase.claimed = none ∧ w.claim printing id call host = w.goTo id call phase) ∨
      IsNew w host call.request.idempotencyKey ∧ ∃ record phase,
        w.claim printing id call host =
          (w.append printing call.pid call.runner.maxStoreBytes record host.faults).goTo id call
            phase ∧
        Claims w id call host.faults.appendFails record phase := by
  unfold World.claim
  split
  · exact .inl ⟨_, rfl, rfl⟩
  · dsimp only
    split
    · exact .inl ⟨_, rfl, rfl⟩
    · rename_i hnew
      split
      · exact .inl ⟨_, rfl, rfl⟩
      · split
        · exact .inr ⟨hnew, _, _, rfl, rfl, rfl, .inl ⟨rfl, rfl, rfl⟩⟩
        · rename_i hresolved
          have hauthority := resolveAuthorities_notEscalated hresolved
          split
          · exact .inr ⟨hnew, _, _, rfl, rfl, rfl, .inr ⟨isClaim_claimRecord hauthority, .inl rfl⟩⟩
          · rename_i hok
            exact .inr ⟨hnew, _, _, rfl, rfl, rfl, .inr ⟨isClaim_claimRecord hauthority,
              .inr ⟨rfl, Bool.eq_false_iff.mpr hok⟩⟩⟩

namespace JournalInv

theorem goTo (h : JournalInv lag w)
    (hclaims : ∀ claimed, phase.claimed = some claimed →
      IsClaim w.now id call claimed ∧ (claimed.recordedAt, claimed) ∈ w.written)
    (hreceipt : ∀ claimed receipt caught, phase = .settling claimed receipt caught →
      IsReceipt w.now claimed receipt)
    (hlatest : ∀ claimed, phase.claimed = some claimed → w.ended call.pid = false →
      w.now < overdueAt lag claimed → IsLatest claimed w.lines)
    (hexclusive : ∀ claimed id' call' claimed', phase.claimed = some claimed →
      w.ended call.pid = false → id' ≠ id → Busy w id' call' claimed' →
      claimed.idempotencyKey = claimed'.idempotencyKey →
        overdueAt lag claimed ≤ claimed'.recordedAt ∨
          overdueAt lag claimed' ≤ claimed.recordedAt) :
    JournalInv lag (w.goTo id call phase) where
  ordered := h.ordered
  past := h.past
  claims id' call' claimed' hcall hclaimed := by
    rcases calls_goTo_cases hcall with ⟨rfl, rfl⟩ | ⟨-, hcall⟩
    · obtain ⟨hclaim, hwritten⟩ := hclaims claimed' hclaimed
      exact ⟨{ hclaim with }, hwritten⟩
    · exact h.claims id' call' claimed' hcall hclaimed
  receipts id' call' claimed' receipt caught hcall hphase := by
    rcases calls_goTo_cases hcall with ⟨rfl, rfl⟩ | ⟨-, hcall⟩
    · exact hreceipt claimed' receipt caught hphase
    · exact h.receipts id' call' claimed' receipt caught hcall hphase
  latest id' call' claimed' hbusy hnow := by
    rcases busy_goTo_cases hbusy with ⟨rfl, rfl, hclaimed, hrunning⟩ | ⟨-, hbusy⟩
    · exact hlatest claimed' hclaimed hrunning hnow
    · exact h.latest id' call' claimed' hbusy hnow
  exclusive id₁ id₂ call₁ call₂ claimed₁ claimed₂ hbusy₁ hbusy₂ hkey hne := by
    rcases busy_goTo_cases hbusy₁ with ⟨rfl, rfl, hclaimed, hrunning⟩ | ⟨hid₁, hold₁⟩
    · rcases busy_goTo_cases hbusy₂ with ⟨rfl, -, -, -⟩ | ⟨hid₂, hbusy₂⟩
      · exact absurd rfl hne
      · exact hexclusive claimed₁ id₂ call₂ claimed₂ hclaimed hrunning hid₂ hbusy₂ hkey
    · rcases busy_goTo_cases hbusy₂ with ⟨rfl, rfl, hclaimed, hrunning⟩ | ⟨hid₂, hbusy₂⟩
      · exact (hexclusive claimed₂ id₁ call₁ claimed₁ hclaimed hrunning hid₁ hold₁ hkey.symm).symm
      · exact h.exclusive id₁ id₂ call₁ call₂ claimed₁ claimed₂ hold₁ hbusy₂ hkey hne

/-- A call that is not under way afterwards. -/
theorem leave (h : JournalInv lag w) (hphase : phase.claimed = none) :
    JournalInv lag (w.goTo id call phase) := by
  have none_claimed : ∀ claimed, phase.claimed ≠ some claimed := fun claimed hclaimed => by
    rw [hphase] at hclaimed
    cases hclaimed
  refine h.goTo (fun claimed hclaimed => absurd hclaimed (none_claimed claimed)) ?_
    (fun claimed hclaimed => absurd hclaimed (none_claimed claimed))
    fun claimed _ _ _ hclaimed => absurd hclaimed (none_claimed claimed)
  rintro claimed receipt caught rfl
  cases hphase

/-- A call that goes on with its claim. -/
theorem goOn (h : JournalInv lag w) (hcall : w.calls id = some call)
    (hphase : phase.claimed = call.phase.claimed)
    (hreceipt : ∀ claimed receipt caught, phase = .settling claimed receipt caught →
      IsReceipt w.now claimed receipt) :
    JournalInv lag (w.goTo id call phase) := by
  have busy : ∀ claimed, phase.claimed = some claimed → w.ended call.pid = false →
      Busy w id call claimed := fun claimed hclaimed hrunning =>
    ⟨hcall, hphase ▸ hclaimed, hrunning⟩
  exact h.goTo (fun claimed hclaimed => h.claims id call claimed hcall (hphase ▸ hclaimed)) hreceipt
    (fun claimed hclaimed hrunning => h.latest id call claimed (busy claimed hclaimed hrunning))
    fun claimed id' call' claimed' hclaimed hrunning hne hbusy hkey =>
      h.exclusive id id' call call' claimed claimed' (busy claimed hclaimed hrunning) hbusy hkey
        hne.symm

/-- An append whose key is not that of a call under way. -/
theorem append (h : JournalInv lag w) {pid maxStoreBytes : ℕ} (hpast : record.recordedAt ≤ w.now)
    (hlag : w.now ≤ record.recordedAt + lag)
    (hother : ∀ id call claimed, Busy w id call claimed → w.now < overdueAt lag claimed →
      record.idempotencyKey ≠ claimed.idempotencyKey) :
    JournalInv lag (w.append printing pid maxStoreBytes record faults) where
  ordered := ordered_append h.ordered h.past hlag
  past e he := by
    rcases mem_append he with he | rfl
    · exact h.past e he
    · exact hpast
  claims id call claimed hcall hclaimed := by
    obtain ⟨hclaim, hwritten⟩ := h.claims id call claimed hcall hclaimed
    refine ⟨hclaim, ?_⟩
    simp only [World.append]
    split
    · exact hwritten
    · exact List.mem_append_left _ hwritten
  receipts := h.receipts
  latest id call claimed hbusy hnow := by
    have hbusy : Busy w id call claimed := ⟨hbusy.called, hbusy.phase, hbusy.running⟩
    have hclaim := (h.claims id call claimed hbusy.called hbusy.phase).1
    exact isLatest_append (h.latest id call claimed hbusy hnow) (hclaim.kept hnow)
      (.inl hclaim.inFlight) (hother id call claimed hbusy hnow)
  exclusive id id' call call' claimed claimed' hbusy hbusy' :=
    h.exclusive id id' call call' claimed claimed' ⟨hbusy.called, hbusy.phase, hbusy.running⟩
      ⟨hbusy'.called, hbusy'.phase, hbusy'.running⟩

/-- A trigger that is not a duplicate has no call under way that is not overdue. -/
theorem differs (h : JournalInv lag w) (hlag : lag ≤ TRIGGER_STORE_MAX_CLAIM_LEASE_MS)
    {idempotencyKey : String} {host : ClaimHost} (hnew : IsNew w host idempotencyKey)
    (hbusy : Busy w id call claimed) (hnow : w.now < overdueAt lag claimed) :
    idempotencyKey ≠ claimed.idempotencyKey := by
  rintro rfl
  have hclaim := (h.claims id call claimed hbusy.called hbusy.phase).1
  have hfound := hclaim.found hlag hnow h.ordered (h.latest id call claimed hbusy hnow)
  have hblocks : blocks claimed w.now (w.isProcessAlive host claimed) = true := by
    simp [blocks, World.isProcessAlive, hclaim.inFlight, hclaim.owner, hbusy.running]
  rw [IsNew, hfound, Option.filter_some_pos (by exact hblocks)] at hnew
  cases hnew

/-- A call that begins to deliver with its claim in the journal. -/
theorem begins {pid maxStoreBytes : ℕ}
    (happended : JournalInv lag (w.append printing pid maxStoreBytes record faults))
    (hclaim : IsClaim w.now id call record) (hrecorded : record.recordedAt = w.now)
    (hok : faults.appendFails = false)
    (hother : ∀ id call claimed, Busy w id call claimed → w.now < overdueAt lag claimed →
      record.idempotencyKey ≠ claimed.idempotencyKey) :
    JournalInv lag ((w.append printing pid maxStoreBytes record faults).goTo id call
      (.delivering record)) := by
  refine happended.goTo ?_ (by rintro _ _ _ ⟨⟩) ?_ ?_
  · rintro claimed hclaimed
    obtain rfl := Option.some.inj hclaimed
    exact ⟨hclaim, by simp [World.append, hok, hrecorded]⟩
  · rintro claimed hclaimed - -
    obtain rfl := Option.some.inj hclaimed
    exact isLatest_append_self hok
  · rintro claimed id' call' claimed' hclaimed - hne hbusy hkey
    obtain rfl := Option.some.inj hclaimed
    have hbusy : Busy w id' call' claimed' := ⟨hbusy.called, hbusy.phase, hbusy.running⟩
    rcases Nat.lt_or_ge w.now (overdueAt lag claimed') with hnow | hnow
    · exact absurd hkey (hother id' call' claimed' hbusy hnow)
    · exact .inr (hrecorded ▸ hnow)

theorem claim (h : JournalInv lag w) (hlag : lag ≤ TRIGGER_STORE_MAX_CLAIM_LEASE_MS)
    (host : ClaimHost) : JournalInv lag (w.claim printing id call host) := by
  rcases claim_cases printing w id call host with
    ⟨phase, hphase, heq⟩ | ⟨hnew, record, phase, heq, hclaims⟩
  · rw [heq]
    exact h.leave hphase
  · have hother : ∀ id' call' claimed', Busy w id' call' claimed' →
        w.now < overdueAt lag claimed' → record.idempotencyKey ≠ claimed'.idempotencyKey :=
      fun id' call' claimed' hbusy hnow =>
        hclaims.idempotencyKey ▸ h.differs hlag hnew hbusy hnow
    have happended : JournalInv lag
        (w.append printing call.pid call.runner.maxStoreBytes record host.faults) :=
      h.append (Nat.le_of_eq hclaims.recorded) (hclaims.recorded ▸ Nat.le_add_right _ _) hother
    rw [heq]
    rcases hclaims.outcome with ⟨-, -, hphase⟩ | ⟨hclaim, hphase | ⟨rfl, hok⟩⟩
    · exact happended.leave hphase
    · exact happended.leave hphase
    · exact happended.begins hclaim hclaims.recorded hok hother

/-- The claims of two calls under way that are not overdue have different keys. -/
theorem others_differ (h : JournalInv lag w) (hbusy : Busy w id call claimed)
    (hnow : w.now < overdueAt lag claimed) {id' : ℕ} {call' : TriggerCall}
    {claimed' : TriggerRecord} (hbusy' : Busy w id' call' claimed')
    (hnow' : w.now < overdueAt lag claimed') (hne : id' ≠ id) :
    claimed.idempotencyKey ≠ claimed'.idempotencyKey := by
  intro hkey
  obtain rfl := (h.latest id call claimed hbusy hnow).eq
    (h.latest id' call' claimed' hbusy' hnow') hkey
  have hid := (h.claims id call claimed hbusy.called hbusy.phase).1.claimId
  rw [(h.claims id' call' claimed hbusy'.called hbusy'.phase).1.claimId] at hid
  exact hne (Option.some.inj hid)

theorem settle (h : JournalInv lag w) (hcall : w.calls id = some call)
    (hrunning : w.ended call.pid = false) {receipt : TriggerRecord} {caught : Bool}
    (hphase : call.phase = .settling claimed receipt caught)
    (hwaited : w.now ≤ receipt.recordedAt + lag) (hnow : w.now < overdueAt lag claimed)
    {maxStoreBytes : ℕ} {result : TriggerReceipt} :
    JournalInv lag
      ((w.append printing call.pid maxStoreBytes receipt faults).goTo id call (.returned result)) := by
  have hbusy : Busy w id call claimed := ⟨hcall, by rw [hphase]; rfl, hrunning⟩
  have hreceipt := h.receipts id call claimed receipt caught hcall hphase
  have hleft : JournalInv lag (w.goTo id call (.returned result)) := h.leave rfl
  refine hleft.append hreceipt.recorded hwaited ?_
  intro id' call' claimed' hbusy' hnow'
  rcases busy_goTo_cases hbusy' with ⟨-, -, hnone, -⟩ | ⟨hne, hbusy'⟩
  · cases hnone
  · rw [hreceipt.idempotencyKey]
    exact h.others_differ hbusy hnow hbusy' hnow' hne

theorem receipt (h : JournalInv lag w) (hcall : w.calls id = some call)
    (hclaimed : call.phase.claimed = some claimed) (result : Except String (Option String)) :
    IsReceipt w.now claimed (w.receipt claimed result) := by
  have hclaim := (h.claims id call claimed hcall hclaimed).1
  cases result with
  | ok deliveryId => exact ⟨rfl, Nat.le_refl _, fun _ => rfl⟩
  | error message => exact ⟨rfl, Nat.le_refl _, by rintro ⟨⟩⟩

/-- A delivery that has ended, and its receipt. -/
theorem toSettling (h : JournalInv lag w) (hcall : w.calls id = some call)
    (hclaimed : call.phase.claimed = some claimed) (result : Except String (Option String))
    (caught : Bool) :
    JournalInv lag (w.goTo id call (.settling claimed (w.receipt claimed result) caught)) := by
  refine h.goOn hcall hclaimed.symm ?_
  rintro claimed' receipt caught' hsettling
  obtain ⟨rfl, rfl, -⟩ := Phase.settling.inj hsettling
  exact h.receipt hcall hclaimed result

theorem callStep {a : Action} (h : JournalInv lag w) (hlag : lag ≤ TRIGGER_STORE_MAX_CLAIM_LEASE_MS)
    (hcall : w.calls id = some call) (hrunning : w.ended call.pid = false)
    (hsubject : a.subject = some id) (htimely : timely lag w a = true)
    (ht : Trigger.callStep printing w id call call.phase a = some t) : JournalInv lag t := by
  cases hphase : call.phase with
  | begun =>
      rw [hphase] at ht
      cases a with
      | claim _ host =>
          obtain rfl := Option.some.inj ht
          exact h.claim hlag host
      | lockTimeout _ =>
          obtain rfl := Option.some.inj ht
          exact h.leave rfl
      | _ => cases ht
  | delivering claimed =>
      rw [hphase] at ht
      cases a with
      | deliver _ result =>
          obtain rfl := Option.some.inj ht
          exact h.toSettling hcall (by rw [hphase]; rfl) result _
      | _ => cases ht
  | settling claimed receipt caught =>
      rw [hphase] at ht
      cases a with
      | settle _ faults =>
          obtain rfl := Option.some.inj hsubject
          obtain rfl := Option.some.inj ht
          simp only [timely, hcall, Option.map_some, hphase, Bool.and_eq_true,
            decide_eq_true_eq] at htimely
          exact h.settle hcall hrunning hphase htimely.1 htimely.2
      | lockTimeout _ =>
          cases caught with
          | true =>
              obtain rfl := Option.some.inj ht
              exact h.leave rfl
          | false =>
              obtain rfl := Option.some.inj ht
              exact h.toSettling hcall (by rw [hphase]; rfl) _ true
      | _ => cases ht
  | _ =>
      rw [hphase] at ht
      cases a <;> cases ht

theorem tick (h : JournalInv lag w) (ms : ℕ) : JournalInv lag { w with now := w.now + ms } where
  ordered := h.ordered
  past e he := Nat.le_trans (h.past e he) (Nat.le_add_right _ _)
  claims id call claimed hcall hclaimed := by
    obtain ⟨hclaim, hwritten⟩ := h.claims id call claimed hcall hclaimed
    exact ⟨{ hclaim with recorded := Nat.le_trans hclaim.recorded (Nat.le_add_right _ _) },
      hwritten⟩
  receipts id call claimed receipt caught hcall hphase := by
    have hreceipt := h.receipts id call claimed receipt caught hcall hphase
    exact { hreceipt with recorded := Nat.le_trans hreceipt.recorded (Nat.le_add_right _ _) }
  latest id call claimed hbusy hnow :=
    h.latest id call claimed ⟨hbusy.called, hbusy.phase, hbusy.running⟩
      (Nat.lt_of_le_of_lt (Nat.le_add_right _ _) hnow)
  exclusive id id' call call' claimed claimed' hbusy hbusy' :=
    h.exclusive id id' call call' claimed claimed' ⟨hbusy.called, hbusy.phase, hbusy.running⟩
      ⟨hbusy'.called, hbusy'.phase, hbusy'.running⟩

theorem end_ (h : JournalInv lag w) (pid : ℕ) :
    JournalInv lag { w with ended := Function.update w.ended pid true } := by
  have still : ∀ {id call claimed},
      Busy { w with ended := Function.update w.ended pid true } id call claimed →
        Busy w id call claimed := fun {id call claimed} hbusy => by
    refine ⟨hbusy.called, hbusy.phase, ?_⟩
    have hrunning := hbusy.running
    simp only [Function.update_apply] at hrunning
    split at hrunning
    · cases hrunning
    · exact hrunning
  exact ⟨h.ordered, h.past, h.claims, h.receipts,
    fun id call claimed hbusy => h.latest id call claimed (still hbusy),
    fun id id' call call' claimed claimed' hbusy hbusy' =>
      h.exclusive id id' call call' claimed claimed' (still hbusy) (still hbusy')⟩

theorem rotate (h : JournalInv lag w) (pid keepStable : ℕ) :
    JournalInv lag { w with
      lines := rotateTriggerStore w.lines keepStable w.now
      attempts := Function.update w.attempts pid none } where
  ordered := h.ordered.sublist (splitJournal_sublist.filterMap _)
  past e he := h.past e ((splitJournal_sublist.filterMap _).subset he)
  claims := h.claims
  receipts := h.receipts
  latest id call claimed hbusy hnow := by
    have hclaim := (h.claims id call claimed hbusy.called hbusy.phase).1
    exact isLatest_rotateTriggerStore
      (h.latest id call claimed ⟨hbusy.called, hbusy.phase, hbusy.running⟩ hnow) hclaim.inFlight
      (hclaim.kept hnow)
  exclusive id id' call call' claimed claimed' hbusy hbusy' :=
    h.exclusive id id' call call' claimed claimed' ⟨hbusy.called, hbusy.phase, hbusy.running⟩
      ⟨hbusy'.called, hbusy'.phase, hbusy'.running⟩

theorem start (h : JournalInv lag w) (hbegun : call.phase = .begun) :
    JournalInv lag { w with calls := Function.update w.calls id (some call) } := by
  have hsame : ({ w with calls := Function.update w.calls id (some call) } : World) =
      w.goTo id call .begun := by
    rw [World.goTo, ← hbegun]
  rw [hsame]
  exact h.leave rfl

theorem step {a : Action} (h : JournalInv lag w) (hlag : lag ≤ TRIGGER_STORE_MAX_CLAIM_LEASE_MS)
    (htimely : timely lag w a = true) (ht : (triggers printing).step w a = some t) :
    JournalInv lag t := by
  have subjectStep : (a.subject.bind fun id => (w.calls id).bind fun call =>
      if w.ended call.pid then none else Trigger.callStep printing w id call call.phase a) =
        some t → JournalInv lag t := fun ht => by
    obtain ⟨id, hsubject, ht⟩ := Option.bind_eq_some_iff.mp ht
    obtain ⟨call, hcall, ht⟩ := Option.bind_eq_some_iff.mp ht
    obtain ⟨hrunning, ht⟩ := Option.ite_none_left_eq_some.mp ht
    exact h.callStep hlag hcall (Bool.not_eq_true _ ▸ hrunning) hsubject htimely ht
  cases a with
  | tick ms =>
      obtain rfl := Option.some.inj ht
      exact h.tick ms
  | start id pid options request =>
      obtain ⟨-, ht⟩ := Option.ite_none_right_eq_some.mp ht
      obtain rfl := Option.some.inj ht
      exact h.start rfl
  | end_ pid =>
      obtain rfl := Option.some.inj ht
      exact h.end_ pid
  | rotate pid keepStable =>
      obtain rfl := Option.some.inj ht
      exact h.rotate pid keepStable
  | _ => exact subjectStep ht

theorem initial_lines {lines : List JournalLine} (hlines : journalRecords lines = []) :
    JournalInv lag { lines } where
  ordered := by
    rw [Ordered, hlines]
    exact List.Pairwise.nil
  past e he := by
    rw [hlines] at he
    cases he
  claims _ _ _ hcall := by cases hcall
  receipts _ _ _ _ _ hcall := by cases hcall
  latest _ _ _ hbusy := by cases hbusy.called
  exclusive _ _ _ _ _ _ hbusy := by cases hbusy.called

theorem initial (hw : (triggers printing).init w) : JournalInv lag w := by
  obtain ⟨lines, hlines, rfl⟩ := hw
  exact initial_lines hlines

theorem of_reach (hlag : lag ≤ TRIGGER_STORE_MAX_CLAIM_LEASE_MS)
    {ok : World → Action → Prop} (hok : ∀ w a, ok w a → timely lag w a = true)
    (h : (triggers printing).Reach ok w) : JournalInv lag w :=
  h.invariant (fun _ hinit => initial hinit) fun _ _ _ hinv hstep ht =>
    hinv.step hlag (hok _ _ hstep) ht

end JournalInv

end Runs

end Kyberion.Trigger
