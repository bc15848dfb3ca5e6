import Kyberion.Retention
import Kyberion.Trigger.Authority
import Mathlib.Data.List.Sort

/-!
The delivery journal of triggers: one line for each claim and receipt. It is read backwards over the
dedupe window, and rewritten down to this window when an append finds it large. Times are
milliseconds.
-/

namespace Kyberion.Trigger

open Js Retention

inductive TriggerSource
  | cron | watch | wake
  deriving DecidableEq

inductive TriggerStatus
  | delivered | failed | rejected | duplicate
  deriving DecidableEq

/-- `claimId` is the call that claims. -/
structure TriggerRecord where
  idempotencyKey : String
  source : TriggerSource
  status : TriggerStatus
  createdBy : TriggerAuthoritySnapshot
  requestedAuthority : TriggerAuthoritySnapshot
  recordedAt : ℕ
  deliveryId : Option String := none
  reason : Option String := none
  claimId : Option ℕ := none
  claimOwnerPid : Option ℕ := none
  claimExpiresAt : Option ℕ := none
  attempt : Option ℕ := none
  deriving DecidableEq

/-- A line of the journal; a torn or malformed one has no record. -/
structure JournalLine where
  record : Option TriggerRecord
  bytes : ℕ
  deriving DecidableEq

def TRIGGER_STORE_DEFAULT_MAX_BYTES : ℕ := 4 * 1024 * 1024

def TRIGGER_STORE_MAX_CLAIM_LEASE_MS : ℕ := 24 * 60 * 60 * 1000

def DEDUPE_RETENTION_MS : ℕ := 7 * 24 * 60 * 60 * 1000

def TRIGGER_STORE_WINDOW_FULL_REGROWTH_BYTES : ℕ := 256 * 1024

def TRIGGER_STORE_WINDOW_FULL_RETRY_MS : ℕ := 60 * 60 * 1000

def ROTATE_RECENT_CRON_MS : ℕ := 10 * 60 * 1000

def isInFlight (record : TriggerRecord) : Bool :=
  record.reason = some "delivery_pending"

/-- The form of `MINUTE_SCOPED_KEY`, with a zero for each digit. -/
def minuteStamp : List Char := ":0000-00-00T00:00".toList

def isMinuteStamp (text : List Char) : Bool :=
  text.length = minuteStamp.length &&
    (text.zip minuteStamp).all fun c => if c.2 = '0' then isDigit c.1 else c.1 = c.2

def isMinuteScoped (record : TriggerRecord) : Bool :=
  let key := record.idempotencyKey.toList
  record.source = .cron || isMinuteStamp (key.drop (key.length - minuteStamp.length))

def isAbandonedClaim (record : TriggerRecord) (cutoffMs : ℕ) : Bool :=
  record.claimExpiresAt.getD record.recordedAt < cutoffMs

section Read

variable (lines : List JournalLine) (now : ℕ)

/-- The records of the journal, oldest first. -/
def journalRecords : List TriggerRecord :=
  lines.filterMap (·.record)

def readCutoffMs : ℕ :=
  now - DEDUPE_RETENTION_MS - TRIGGER_STORE_MAX_CLAIM_LEASE_MS

/-- A finished receipt from before the cutoff ends the scan. -/
def stopsScan (record : TriggerRecord) : Bool :=
  !isInFlight record && record.recordedAt < readCutoffMs now

def scanDedupeWindowBackward : List TriggerRecord :=
  (journalRecords lines).reverse.takeWhile fun record => !stopsScan now record

def findLatestRecord (idempotencyKey : String) : Option TriggerRecord :=
  (scanDedupeWindowBackward lines now).find? (·.idempotencyKey = idempotencyKey)

/-- What retention keeps of the last records: claims that are not abandoned, and receipts of the
dedupe window. -/
def keptRecord (record : TriggerRecord) : Bool :=
  let cutoff := now - DEDUPE_RETENTION_MS
  if isInFlight record then !isAbandonedClaim record cutoff else cutoff ≤ record.recordedAt

abbrev Window := List (WindowEntry TriggerRecord)

def collectDedupeWindow : Window :=
  collectWindow (·.idempotencyKey) (·.record) (·.bytes) (keptRecord now) lines

def storeSize : ℕ :=
  (lines.map (·.bytes)).sum

/-- The lines with the numbers stay; the others go to a segment. -/
def splitJournal (keep : Window) : List JournalLine :=
  keepLines (fun n => keep.any (·.lineNumber = n)) lines

end Read

section Retain

def Window.bytes (entries : Window) : ℕ :=
  (entries.map (·.bytes)).sum

/-- Entries are dropped, oldest first, until the bytes fit. -/
def trimOldest (targetBytes : ℕ) : ℕ → Window → Window
  | _, [] => []
  | bytes, entry :: entries =>
      if bytes ≤ targetBytes then [] else entry :: trimOldest targetBytes (bytes - entry.bytes) entries

def isTrimmable (entry : WindowEntry TriggerRecord) : Bool :=
  !isInFlight entry.record && isMinuteScoped entry.record

def retainTriggerDedupeWindow (entries : Window) (targetBytes : ℕ) : Window :=
  let trimmable := (entries.filter isTrimmable).insertionSort
    fun a b => a.record.recordedAt ≤ b.record.recordedAt
  let drop := if targetBytes < Window.bytes entries then
    trimOldest targetBytes (Window.bytes entries) trimmable else []
  entries.filter (· ∉ drop)

/-- The last attempt of a process to compact that left the journal large. -/
structure WindowFullAttempt where
  sizeBytes : ℕ
  atMs : ℕ
  deriving DecidableEq

def shouldAttemptCompaction (last : Option WindowFullAttempt) (sizeBytes now : ℕ) : Bool :=
  match last with
  | none => true
  | some last =>
      sizeBytes < last.sizeBytes ||
        last.sizeBytes + TRIGGER_STORE_WINDOW_FULL_REGROWTH_BYTES ≤ sizeBytes ||
        TRIGGER_STORE_WINDOW_FULL_RETRY_MS ≤ now - last.atMs

def minFreeableBytes (maxStoreBytes sizeBytes : ℕ) : ℕ :=
  max (maxStoreBytes / 4) (sizeBytes / 2)

/-- The journal that a process sees, and what it remembers of its compactions. -/
structure StoreView where
  lines : List JournalLine
  lastAttempt : Option WindowFullAttempt
  deriving DecidableEq

def compactRecords (view : StoreView) (maxStoreBytes now : ℕ) : StoreView :=
  let retained :=
    retainTriggerDedupeWindow (collectDedupeWindow view.lines now) (maxStoreBytes / 2)
  let sizeBytes := storeSize view.lines
  if sizeBytes - Window.bytes retained < minFreeableBytes maxStoreBytes sizeBytes then
    { view with lastAttempt := some ⟨sizeBytes, now⟩ }
  else
    let lines := splitJournal view.lines retained
    let windowFull : Bool := maxStoreBytes * 3 / 4 < Window.bytes retained
    ⟨lines, if windowFull then some ⟨storeSize lines, now⟩ else none⟩

/-- Where an append goes wrong: in the rewrite, which leaves the journal as it is, or in the append
itself. -/
structure AppendFaults where
  rotationFails : Bool := false
  appendFails : Bool := false
  deriving DecidableEq

/-- The journal that a record of this many bytes is appended to. -/
def beforeAppend (view : StoreView) (bytes maxStoreBytes now : ℕ) (rotationFails : Bool) :
    StoreView :=
  let size := storeSize view.lines
  if maxStoreBytes < size + bytes && shouldAttemptCompaction view.lastAttempt size now then
    if rotationFails then { view with lastAttempt := some ⟨size, now⟩ }
    else compactRecords view maxStoreBytes now
  else view

def appendRecord (view : StoreView) (record : TriggerRecord) (bytes maxStoreBytes now : ℕ)
    (faults : AppendFaults) : StoreView :=
  let compacted := beforeAppend view bytes maxStoreBytes now faults.rotationFails
  if faults.appendFails then compacted
  else { compacted with lines := compacted.lines ++ [⟨some record, bytes⟩] }

end Retain

section Rotate

variable (lines : List JournalLine) (keepStable now : ℕ)

/-- What an operator's rotation keeps: claims, recent receipts of a minute, and the newest stable
keys. -/
def selectRotationKeep : Window :=
  let all := collectDedupeWindow lines now
  let cutoff := now - DEDUPE_RETENTION_MS
  let inFlight := all.filter fun e => isInFlight e.record && !isAbandonedClaim e.record cutoff
  let finished := all.filter fun e => !isInFlight e.record
  let recentCron := finished.filter fun e =>
    isMinuteScoped e.record && now - ROTATE_RECENT_CRON_MS ≤ e.record.recordedAt
  let stable := ((finished.filter fun e => !isMinuteScoped e.record).insertionSort
    fun a b => b.record.recordedAt ≤ a.record.recordedAt).take keepStable
  inFlight ++ recentCron ++ stable

def rotateTriggerStore : List JournalLine :=
  splitJournal lines (selectRotationKeep lines keepStable now)

end Rotate

section Kept

variable {lines : List JournalLine} {record : TriggerRecord} {now bytes maxStoreBytes keepStable : ℕ}
variable {view : StoreView} {faults : AppendFaults}

theorem trimOldest_subset {targetBytes bytes : ℕ} {entries : Window} :
    trimOldest targetBytes bytes entries ⊆ entries := by
  induction entries generalizing bytes with
  | nil => exact List.Subset.refl _
  | cons entry entries ih =>
      rw [trimOldest]
      split
      · exact List.nil_subset _
      · exact List.cons_subset_cons _ ih

/-- Claims and stable keys are never trimmed. -/
theorem mem_retain {entries : Window} {targetBytes : ℕ} {entry : WindowEntry TriggerRecord}
    (hmem : entry ∈ entries) (hstays : isTrimmable entry = false) :
    entry ∈ retainTriggerDedupeWindow entries targetBytes := by
  refine List.mem_filter.mpr ⟨hmem, ?_⟩
  rw [decide_eq_true_eq]
  split
  · intro hdrop
    have htrimmable := (List.mem_insertionSort _).mp (trimOldest_subset hdrop)
    rw [(List.mem_filter.mp htrimmable).2] at hstays
    cases hstays
  · exact List.not_mem_nil

/-- The record is the last of its key in the journal. -/
abbrev IsLatest (record : TriggerRecord) (lines : List JournalLine) : Prop :=
  IsLast (·.idempotencyKey) record (journalRecords lines)

/-- A rewrite of the journal that keeps the line of a record. -/
theorem isLatest_splitJournal {keep : Window} (h : IsLatest record lines)
    (hkept : keptRecord now record = true)
    (hkeep : ∀ entry ∈ collectDedupeWindow lines now, entry.record = record → entry ∈ keep) :
    IsLatest record (splitJournal lines keep) :=
  h.keepLines hkept fun entry hentry hrecord =>
    List.any_eq_true.mpr ⟨entry, hkeep entry hentry hrecord, decide_eq_true rfl⟩

theorem isLatest_compactRecords (h : IsLatest record view.lines)
    (hkept : keptRecord now record = true)
    (hstays : isInFlight record = true ∨ isMinuteScoped record = false) :
    IsLatest record (compactRecords view maxStoreBytes now).lines := by
  unfold compactRecords
  dsimp only
  split
  · exact h
  · refine isLatest_splitJournal h hkept fun entry hentry hrecord => mem_retain hentry ?_
    rcases hstays with hstays | hstays <;> simp [isTrimmable, hrecord, hstays]

/-- What retention does in front of an append keeps the claims and the stable keys it must. -/
theorem isLatest_beforeAppend {rotationFails : Bool} (h : IsLatest record view.lines)
    (hkept : keptRecord now record = true)
    (hstays : isInFlight record = true ∨ isMinuteScoped record = false) :
    IsLatest record (beforeAppend view bytes maxStoreBytes now rotationFails).lines := by
  unfold beforeAppend
  dsimp only
  split
  · split
    · exact h
    · exact isLatest_compactRecords h hkept hstays
  · exact h

theorem isLatest_rotateTriggerStore (h : IsLatest record lines) (hflight : isInFlight record = true)
    (hkept : keptRecord now record = true) :
    IsLatest record (rotateTriggerStore lines keepStable now) := by
  refine isLatest_splitJournal h hkept fun entry hentry hrecord => ?_
  refine List.mem_append_left _ (List.mem_append_left _ (List.mem_filter.mpr ⟨hentry, ?_⟩))
  simpa [keptRecord, hrecord, hflight] using hkept

theorem splitJournal_sublist {keep : Window} : (splitJournal lines keep).Sublist lines :=
  keepLines_sublist

theorem beforeAppend_sublist {rotationFails : Bool} :
    (beforeAppend view bytes maxStoreBytes now rotationFails).lines.Sublist view.lines := by
  unfold beforeAppend
  dsimp only
  split
  · split
    · exact List.Sublist.refl _
    · unfold compactRecords
      dsimp only
      split
      · exact List.Sublist.refl _
      · exact splitJournal_sublist
  · exact List.Sublist.refl _

theorem journalRecords_append_one {bytes : ℕ} :
    journalRecords (lines ++ [⟨some record, bytes⟩]) = journalRecords lines ++ [record] := by
  simp [journalRecords]

end Kept

end Kyberion.Trigger
