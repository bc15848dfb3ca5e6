import Kyberion.Workforce.Lineage

/-!
The journal keeps projecting. A compaction call that has passed its check keeps
the compaction lock, so the only receipts it can miss are its own and one whose
line a crash has left without a newline.
-/

namespace Kyberion.Workforce

open Transition

/-- The receipt of a compaction call that is past its check and has not written yet. -/
def Phase.checkedReceipt : Phase → Option CompactionSnapshotReceipt
  | .checked receipt => some receipt
  | .appending (.compactionCommit receipt) true => some receipt
  | _ => none

/-- The receipt on the unended line. -/
def tornReceipt (file : JournalFile) : Option CompactionSnapshotReceipt :=
  file.tail.join.bind fun event => event.op.receipt

/-- No other call has been checked against the receipt on the unended line. -/
def sparesChecked (w : JournalWorld) (i : ℕ) : Bool :=
  match tornReceipt w.file with
  | none => true
  | some torn => w.lock.all fun j =>
      j = i || (w.journals j).phase.checkedReceipt.all fun receipt =>
        receipt.scopeKey ≠ torn.scopeKey

/-- The append of a receipt has a line of its own. -/
def landsReceipt (w : JournalWorld) (i : ℕ) : Bool :=
  w.file.tail.isNone || (w.journals i).phase.checkedReceipt.isNone

/-- Receipts are appended by `recordCompaction` alone, never onto an unended line, and no append
runs into a receipt that another call has been checked against. -/
def keepsLineage (w : JournalWorld) : JournalAction → Bool
  | .append _ op => op.receipt.isNone
  | .write i _ => sparesChecked w i && landsReceipt w i
  | .crash i cut _ => cut = .nothing || sparesChecked w i
  | _ => true

section Run

variable (isUuid : String → Bool)

/-- The compaction call of a receipt that is not in the journal yet. -/
structure Pending (w : JournalWorld) (i : ℕ) (receipt : CompactionSnapshotReceipt) : Prop where
  lock : w.lock = some i
  used : receipt.id ∈ w.usedIds
  new : receipt.id ∉ (receipts w.file.events).map (·.id)

/-- What holds of a call at each of its phases. -/
def CallInv (w : JournalWorld) (i : ℕ) : Phase → Prop
  | .idle => True
  | .compacting receipt => Pending w i receipt
  | .checked receipt =>
      Pending w i receipt ∧ checkCompaction isUuid w.file.events receipt = .ok ()
  | .appending op false | .written op false _ => op.receipt = none
  | .appending op true => ∃ receipt, op = .compactionCommit receipt ∧ Pending w i receipt ∧
      checkCompaction isUuid w.file.events receipt = .ok ()
  | .written op true _ => ∃ receipt, op = .compactionCommit receipt ∧ w.lock = some i ∧
      ∀ scope, ((w.succeeded ++ [receipt]).filter fun r => r.scopeKey = scope).Sublist
        (receiptsFor scope w.file.ended)

/-- The journal projects, and the receipts of the calls that returned are among its records. -/
structure Replays (w : JournalWorld) : Prop where
  projects : ∃ state, project isUuid w.file.events = .ok state
  ids : ((receipts w.file.events).map (·.id)).Nodup
  used : ∀ id ∈ (receipts w.file.events).map (·.id), id ∈ w.usedIds
  succeeded : ∀ scope, (w.succeeded.filter fun r => r.scopeKey = scope).Sublist
    (receiptsFor scope w.file.ended)

structure LineageInv (w : JournalWorld) : Prop where
  replays : Replays isUuid w
  calls : ∀ i, CallInv isUuid w i (w.journals i).phase

end Run

/-- How an append changes the records: its own comes last, or the one on the unended line goes. -/
inductive FileEffect (file file' : JournalFile) (event : JournalEventEnvelope) : Prop
  | grown (hevents : file'.events = file.events ++ [event])
      (hended : file.ended.Sublist file'.ended)
  | cut (hevents : file'.events = file.ended) (hended : file.ended.Sublist file'.ended)

variable {isUuid : String → Bool} {w w' : JournalWorld} {i : ℕ} {event : JournalEventEnvelope}

@[simp] theorem ended_append (file : JournalFile) (event : JournalEventEnvelope) :
    (file.append event).ended = if file.tail.isNone then file.ended ++ [event] else file.ended := by
  obtain ⟨lines, tail⟩ := file
  cases tail <;> simp [JournalFile.append, JournalFile.ended]

@[simp] theorem ended_appendCut (file : JournalFile) (line : Option JournalEventEnvelope) :
    (file.appendCut line).ended = file.ended := by
  obtain ⟨lines, tail⟩ := file
  cases tail <;> simp [JournalFile.appendCut, JournalFile.ended]

theorem events_of_tail_none {file : JournalFile} (h : file.tail = none) :
    file.events = file.ended := by
  simp [JournalFile.events, h]

theorem fileEffect_append (file : JournalFile) (event : JournalEventEnvelope) :
    FileEffect file (file.append event) event := by
  cases htail : file.tail with
  | none =>
      apply FileEffect.grown
      · simp [JournalFile.events_append, htail]
      · simp [htail]
  | some line =>
      apply FileEffect.cut
      · simp [JournalFile.events_append, htail]
      · simp [htail]

theorem fileEffect_appendCut (file : JournalFile) (line : Option JournalEventEnvelope)
    (event : JournalEventEnvelope) (hline : line = none ∨ line = some event) :
    FileEffect file (file.appendCut line) event := by
  cases htail : file.tail with
  | none =>
      rcases hline with rfl | rfl
      · apply FileEffect.cut
        · simp [JournalFile.events_appendCut, htail, events_of_tail_none]
        · simp
      · apply FileEffect.grown
        · simp [JournalFile.events_appendCut, htail]
        · simp
  | some torn =>
      apply FileEffect.cut
      · simp [JournalFile.events_appendCut, htail]
      · simp

theorem fileEffect_cut (w : JournalWorld) (event : JournalEventEnvelope) {cut : Cut}
    (h : cut ≠ .nothing) : FileEffect w.file (w.appendCut event cut).file event := by
  cases cut with
  | nothing => exact absurd rfl h
  | part => exact fileEffect_appendCut w.file none event (.inl rfl)
  | allButNewline => exact fileEffect_appendCut w.file (some event) event (.inr rfl)
  | all => exact fileEffect_append w.file event

theorem CallInv.lock {phase : Phase} (h : CallInv isUuid w i phase) (hlocks : phase.locks = true) :
    w.lock = some i := by
  cases phase with
  | idle => cases hlocks
  | compacting receipt => exact Pending.lock h
  | checked receipt => exact Pending.lock h.1
  | appending op compaction =>
      cases compaction with
      | false => cases hlocks
      | true =>
          obtain ⟨receipt, -, hpending, -⟩ := h
          exact hpending.lock
  | written op compaction counted =>
      cases compaction with
      | false => cases hlocks
      | true =>
          obtain ⟨receipt, -, hlock, -⟩ := h
          exact hlock

/-- A call without the lock does not depend on what others do. -/
theorem CallInv.unlocked {phase : Phase} (h : CallInv isUuid w i phase)
    (hlocks : phase.locks = false) : CallInv isUuid w' i phase := by
  cases phase with
  | idle => trivial
  | compacting receipt => cases hlocks
  | checked receipt => cases hlocks
  | appending op compaction =>
      cases compaction with
      | false => exact h
      | true => cases hlocks
  | written op compaction counted =>
      cases compaction with
      | false => exact h
      | true => cases hlocks

/-- A call that is past its check has its receipt pending and would pass the check again. -/
theorem CallInv.checked {phase : Phase} {receipt : CompactionSnapshotReceipt}
    (h : CallInv isUuid w i phase) (hphase : phase.checkedReceipt = some receipt) :
    Pending w i receipt ∧ checkCompaction isUuid w.file.events receipt = .ok () := by
  unfold Phase.checkedReceipt at hphase
  split at hphase
  · obtain rfl := Option.some.inj hphase
    exact h
  · obtain rfl := Option.some.inj hphase
    obtain ⟨receipt, heq, hpending⟩ := h
    cases heq
    exact hpending
  · cases hphase

theorem compactionCommit_of_receipt {op : WorkerOp} {receipt : CompactionSnapshotReceipt}
    (h : op.receipt = some receipt) : op = .compactionCommit receipt := by
  cases op <;> cases h
  rfl

/-- The world after an append: nothing but the file and the count of its records has changed. -/
structure FileOnly (w w' : JournalWorld) : Prop where
  lock : w'.lock = w.lock
  usedIds : w'.usedIds = w.usedIds
  succeeded : w'.succeeded = w.succeeded

theorem Replays.rewrite (h : Replays isUuid w) (hsame : FileOnly w w')
    (heffect : FileEffect w.file w'.file event)
    (hreceipt : ∀ receipt, event.op.receipt = some receipt → Pending w i receipt ∧
      checkCompaction isUuid w.file.events receipt = .ok ()) : Replays isUuid w' := by
  have hsucceeded (hended : w.file.ended.Sublist w'.file.ended) (scope : String) :
      (w'.succeeded.filter fun r => r.scopeKey = scope).Sublist
        (receiptsFor scope w'.file.ended) := by
    rw [hsame.succeeded]
    exact (h.succeeded scope).trans (receiptsFor_sublist hended scope)
  cases heffect with
  | grown hevents hended =>
      cases hop : event.op.receipt with
      | none =>
          refine ⟨hevents ▸ project_concat_other h.projects hop, ?_, ?_, hsucceeded hended⟩
          · rw [hevents, receipts_concat_other hop]
            exact h.ids
          · rw [hevents, receipts_concat_other hop, hsame.usedIds]
            exact h.used
      | some receipt =>
          obtain ⟨hpending, hcheck⟩ := hreceipt receipt hop
          refine ⟨hevents ▸ project_concat_receipt hcheck h.ids hpending.new
            (compactionCommit_of_receipt hop), ?_, ?_, hsucceeded hended⟩
          · rw [hevents, receipts_concat_receipt hop, List.map_append, List.map_singleton,
              List.nodup_append]
            refine ⟨h.ids, List.pairwise_singleton _ _, fun id hid new hnew => ?_⟩
            rw [List.mem_singleton.mp hnew]
            exact fun heq => hpending.new (heq ▸ hid)
          · rw [hevents, receipts_concat_receipt hop, List.map_append, List.map_singleton,
              hsame.usedIds]
            simp only [List.forall_mem_append, List.forall_mem_singleton]
            exact ⟨h.used, hpending.used⟩
  | cut hevents hended =>
      have hsub : (receipts w'.file.events).Sublist (receipts w.file.events) := by
        rw [hevents]
        exact (w.file.ended_sublist_events).filterMap _
      refine ⟨?_, h.ids.sublist (hsub.map _), ?_, hsucceeded hended⟩
      · rw [hevents]
        have hprojects := h.projects
        unfold JournalFile.events at hprojects
        cases htail : w.file.tail.join with
        | none => simpa [htail] using hprojects
        | some last => exact project_of_concat (by simpa [htail] using hprojects)
      · intro id hid
        rw [hsame.usedIds]
        exact h.used id ((hsub.map _).subset hid)

theorem Pending.rewrite {receipt : CompactionSnapshotReceipt} (h : Pending w i receipt)
    (hsame : FileOnly w w') (heffect : FileEffect w.file w'.file event)
    (hop : event.op.receipt = none) : Pending w' i receipt where
  lock := hsame.lock ▸ h.lock
  used := hsame.usedIds ▸ h.used
  new := by
    cases heffect with
    | grown hevents hended =>
        rw [hevents, receipts_concat_other hop]
        exact h.new
    | cut hevents hended =>
        rw [hevents]
        exact fun hid => h.new (((w.file.ended_sublist_events.filterMap _).map _).subset hid)

/-- A check stays passed unless the append runs into a receipt of the same scope. -/
theorem checkCompaction_rewrite {receipt : CompactionSnapshotReceipt}
    (h : checkCompaction isUuid w.file.events receipt = .ok ())
    (heffect : FileEffect w.file w'.file event) (hop : event.op.receipt = none)
    (hspares : ∀ torn, tornReceipt w.file = some torn → torn.scopeKey ≠ receipt.scopeKey) :
    checkCompaction isUuid w'.file.events receipt = .ok () := by
  cases heffect with
  | grown hevents hended =>
      rw [hevents]
      exact checkCompaction_concat_other hop h
  | cut hevents hended =>
      rw [hevents]
      unfold JournalFile.events at h
      cases htail : w.file.tail.join with
      | none => simpa [htail] using h
      | some last =>
          rw [htail] at h
          refine checkCompaction_of_concat (fun torn htorn => hspares torn ?_) h
          rw [tornReceipt, htail, Option.bind_some, htorn]

theorem CallInv.rewrite {phase : Phase} (h : CallInv isUuid w i phase) (hsame : FileOnly w w')
    (heffect : FileEffect w.file w'.file event)
    (hop : phase.locks = true → event.op.receipt = none)
    (hspares : ∀ torn receipt, tornReceipt w.file = some torn →
      phase.checkedReceipt = some receipt → torn.scopeKey ≠ receipt.scopeKey) :
    CallInv isUuid w' i phase := by
  have hended : w.file.ended.Sublist w'.file.ended := by
    cases heffect <;> assumption
  cases phase with
  | idle => trivial
  | compacting receipt => exact Pending.rewrite h hsame heffect (hop rfl)
  | checked receipt =>
      exact ⟨h.1.rewrite hsame heffect (hop rfl), checkCompaction_rewrite h.2 heffect (hop rfl)
        fun torn htorn => hspares torn receipt htorn rfl⟩
  | appending op compaction =>
      cases compaction with
      | false => exact h
      | true =>
          obtain ⟨receipt, rfl, hpending, hcheck⟩ := h
          exact ⟨receipt, rfl, hpending.rewrite hsame heffect (hop rfl),
            checkCompaction_rewrite hcheck heffect (hop rfl)
              fun torn htorn => hspares torn receipt htorn rfl⟩
  | written op compaction counted =>
      cases compaction with
      | false => exact h
      | true =>
          obtain ⟨receipt, rfl, hlock, hsub⟩ := h
          refine ⟨receipt, rfl, hsame.lock ▸ hlock, fun scope => ?_⟩
          rw [hsame.succeeded]
          exact (hsub scope).trans (receiptsFor_sublist hended scope)

section Steps

variable {journal : WorkerStateJournal}

theorem FileOnly.set (w : JournalWorld) (i : ℕ) (journal : WorkerStateJournal) :
    FileOnly w (w.set i journal) :=
  ⟨rfl, rfl, rfl⟩

theorem CallInv.congr {phase : Phase} (h : CallInv isUuid w i phase) (hsame : FileOnly w w')
    (hfile : w'.file = w.file) : CallInv isUuid w' i phase := by
  have hpending {receipt : CompactionSnapshotReceipt} (hp : Pending w i receipt) :
      Pending w' i receipt :=
    ⟨hsame.lock ▸ hp.lock, hsame.usedIds ▸ hp.used, hfile ▸ hp.new⟩
  cases phase with
  | idle => trivial
  | compacting receipt => exact hpending h
  | checked receipt => exact ⟨hpending h.1, hfile ▸ h.2⟩
  | appending op compaction =>
      cases compaction with
      | false => exact h
      | true =>
          obtain ⟨receipt, rfl, hp, hcheck⟩ := h
          exact ⟨receipt, rfl, hpending hp, hfile ▸ hcheck⟩
  | written op compaction counted =>
      cases compaction with
      | false => exact h
      | true =>
          obtain ⟨receipt, rfl, hlock, hsub⟩ := h
          exact ⟨receipt, rfl, hsame.lock ▸ hlock, hsame.succeeded ▸ hfile ▸ hsub⟩

theorem Replays.congr (h : Replays isUuid w) (hfile : w'.file = w.file)
    (hused : ∀ id ∈ w.usedIds, id ∈ w'.usedIds) (hsucceeded : w'.succeeded = w.succeeded) :
    Replays isUuid w' :=
  ⟨hfile ▸ h.projects, hfile ▸ h.ids, fun id hid => hused id (h.used id (hfile ▸ hid)),
    hsucceeded ▸ hfile ▸ h.succeeded⟩

/-- All calls but one keep their invariant, and that one gets a new phase. -/
theorem LineageInv.of_others (hreplays : Replays isUuid w)
    (hothers : ∀ j, j ≠ i → CallInv isUuid w j (w.journals j).phase)
    (hphase : CallInv isUuid w i journal.phase) : LineageInv isUuid (w.set i journal) where
  replays := hreplays.congr rfl (fun _ hid => hid) rfl
  calls j := by
    by_cases hj : j = i
    · subst hj
      rw [show (w.set j journal).journals j = journal from Function.update_self ..]
      exact hphase.congr (.set w j journal) rfl
    · rw [show (w.set i journal).journals j = w.journals j from Function.update_of_ne hj ..]
      exact (hothers j hj).congr (.set w i journal) rfl

theorem LineageInv.set (h : LineageInv isUuid w) (hphase : CallInv isUuid w i journal.phase) :
    LineageInv isUuid (w.set i journal) :=
  .of_others h.replays (fun j _ => h.calls j) hphase

/-- A call that ends leaves the others alone, whether or not it held the lock. -/
theorem LineageInv.leave_others (hreplays : Replays isUuid w)
    (hothers : ∀ j, j ≠ i → CallInv isUuid w j (w.journals j).phase)
    (hlock : (w.journals i).phase.locks = true → w.lock = some i) :
    LineageInv isUuid (w.leave i journal) where
  replays := hreplays.congr rfl (fun _ hid => hid) rfl
  calls j := by
    by_cases hj : j = i
    · subst hj
      rw [show (w.leave j journal).journals j = { journal with phase := .idle } from
        Function.update_self ..]
      trivial
    · rw [show (w.leave i journal).journals j = w.journals j from Function.update_of_ne hj ..]
      cases hlocks : (w.journals i).phase.locks with
      | false =>
          refine (hothers j hj).congr ⟨?_, rfl, rfl⟩ rfl
          rw [JournalWorld.leave, hlocks]
          rfl
      | true =>
          refine (hothers j hj).unlocked (Bool.eq_false_iff.mpr fun hother => hj ?_)
          exact Option.some.inj (((hothers j hj).lock hother).symm.trans (hlock hlocks))

theorem LineageInv.leave (h : LineageInv isUuid w) : LineageInv isUuid (w.leave i journal) :=
  .leave_others h.replays (fun j _ => h.calls j) fun hlocks => (h.calls i).lock hlocks

/-- An append of a call keeps the journal projecting and every other call's invariant. -/
theorem LineageInv.rewrite (h : LineageInv isUuid w) (hsame : FileOnly w w')
    (heffect : FileEffect w.file w'.file event) {compaction : Bool}
    (hphase : (w.journals i).phase = .appending event.op compaction)
    (hspares : sparesChecked w i = true) :
    Replays isUuid w' ∧ ∀ j, j ≠ i → CallInv isUuid w' j (w.journals j).phase := by
  have hcall := hphase ▸ h.calls i
  have hreceipt (receipt : CompactionSnapshotReceipt) (hop : event.op.receipt = some receipt) :
      Pending w i receipt ∧ checkCompaction isUuid w.file.events receipt = .ok () := by
    cases compaction with
    | false =>
        rw [show event.op.receipt = none from hcall] at hop
        cases hop
    | true =>
        obtain ⟨receipt', heq, hpending⟩ := hcall
        obtain rfl : receipt' = receipt := by
          rw [heq] at hop
          exact Option.some.inj hop
        exact hpending
  refine ⟨h.replays.rewrite hsame heffect hreceipt, fun j hj => ?_⟩
  refine (h.calls j).rewrite hsame heffect (fun hlocks => ?_) fun torn receipt htorn hchecked => ?_
  · cases hop : event.op.receipt with
    | none => rfl
    | some receipt =>
        have hlock := (hreceipt receipt hop).1.lock
        exact absurd (Option.some.inj (((h.calls j).lock hlocks).symm.trans hlock)) hj
  · have hlock := ((h.calls j).checked hchecked).1.lock
    simp only [sparesChecked, htorn, hlock, Option.all_some, hchecked, Bool.or_eq_true,
      decide_eq_true_eq] at hspares
    exact (hspares.resolve_left hj).symm

theorem LineageInv.write (h : LineageInv isUuid w) {op : WorkerOp} {compaction : Bool} {ts : String}
    (hphase : (w.journals i).phase = .appending op compaction)
    (hok : keepsLineage w (.write i ts) = true) (counted : ℕ) :
    LineageInv isUuid ((w.appendEvent ⟨(w.journals i).seq, ts, op⟩).set i
      { w.journals i with phase := .written op compaction counted }) := by
  simp only [keepsLineage, Bool.and_eq_true] at hok
  obtain ⟨hspares, hlands⟩ := hok
  have hsame : FileOnly w (w.appendEvent ⟨(w.journals i).seq, ts, op⟩) := ⟨rfl, rfl, rfl⟩
  obtain ⟨hreplays, hothers⟩ := h.rewrite hsame (fileEffect_append w.file _) hphase hspares
  refine .of_others hreplays hothers ?_
  have hcall := hphase ▸ h.calls i
  cases compaction with
  | false => exact hcall
  | true =>
      obtain ⟨receipt, rfl, hpending, -⟩ := hcall
      refine ⟨receipt, rfl, hpending.lock, fun scope => ?_⟩
      have htail : w.file.tail.isNone = true := by
        simpa [landsReceipt, hphase, Phase.checkedReceipt] using hlands
      change ((w.succeeded ++ [receipt]).filter fun r => r.scopeKey = scope).Sublist
        (receiptsFor scope (w.file.append _).ended)
      rw [ended_append, if_pos htail, receiptsFor, receipts_concat_receipt rfl,
        List.filter_append, List.filter_append]
      exact (h.replays.succeeded scope).append (List.Sublist.refl _)

theorem LineageInv.finish (h : LineageInv isUuid w) {op : WorkerOp} {compaction : Bool}
    {counted : ℕ} (hphase : (w.journals i).phase = .written op compaction counted) :
    LineageInv isUuid ((w.leave i journal).succeed op compaction) := by
  have hcall := hphase ▸ h.calls i
  cases compaction with
  | false =>
      rw [show (w.leave i journal).succeed op false = w.leave i journal by cases op <;> rfl]
      exact h.leave
  | true =>
      obtain ⟨receipt, rfl, hlock, hsub⟩ := hcall
      have hleave : LineageInv isUuid (w.leave i journal) := h.leave
      refine ⟨⟨h.replays.projects, h.replays.ids, h.replays.used, hsub⟩, fun j => ?_⟩
      by_cases hj : j = i
      · subst hj
        change CallInv isUuid _ j ((w.leave j journal).journals j).phase
        rw [show (w.leave j journal).journals j = { journal with phase := .idle } from
          Function.update_self ..]
        trivial
      · change CallInv isUuid _ j ((w.leave i journal).journals j).phase
        rw [show (w.leave i journal).journals j = w.journals j from Function.update_of_ne hj ..]
        refine (h.calls j).unlocked (Bool.eq_false_iff.mpr fun hother => hj ?_)
        exact Option.some.inj (((h.calls j).lock hother).symm.trans hlock)

theorem LineageInv.step (h : LineageInv isUuid w) {a : JournalAction}
    (hok : keepsLineage w a = true) (hstep : (workerJournals isUuid).step w a = some w') :
    LineageInv isUuid w' := by
  cases a with
  | append i op =>
      simp only [workerJournals] at hstep
      split at hstep
      · rename_i hidle
        obtain rfl := Option.some.inj hstep
        unfold JournalWorld.startAppend
        split
        · have hop : op.receipt = none := by simpa [keepsLineage] using hok
          exact h.set hop
        · apply h.set
          have hphase : ((w.journals i).ensureSeqLoaded w.file w.landed).phase = .idle := by
            rw [← hidle, WorkerStateJournal.ensureSeqLoaded]
            split <;> rfl
          rw [hphase]
          trivial
      · cases hstep
  | recordCompaction i receipt =>
      simp only [workerJournals] at hstep
      split at hstep
      · obtain ⟨⟨hlock, hnew⟩, hstep⟩ := Option.ite_none_right_eq_some.mp hstep
        obtain rfl := Option.some.inj hstep
        refine ⟨h.replays.congr rfl (fun id hid => List.mem_cons_of_mem _ hid) rfl, fun j => ?_⟩
        by_cases hj : j = i
        · subst hj
          rw [show (w.set j { w.journals j with phase := .compacting receipt }).journals j = _ from
            Function.update_self ..]
          exact ⟨rfl, List.mem_cons_self, fun hid => hnew (h.replays.used _ hid)⟩
        · rw [show (w.set i { w.journals i with phase := .compacting receipt }).journals j =
            w.journals j from Function.update_of_ne hj ..]
          refine (h.calls j).unlocked (Bool.eq_false_iff.mpr fun hother => ?_)
          rw [(h.calls j).lock hother] at hlock
          cases hlock
      · cases hstep
  | check i =>
      simp only [workerJournals] at hstep
      split at hstep
      · rename_i receipt hphase
        split at hstep
        · rename_i hcheck
          obtain rfl := Option.some.inj hstep
          have hcall := hphase ▸ h.calls i
          exact h.set ⟨hcall, hcheck⟩
        · obtain rfl := Option.some.inj hstep
          exact h.leave
      · cases hstep
  | reload i =>
      simp only [workerJournals] at hstep
      split at hstep
      · rename_i receipt hphase
        obtain rfl := Option.some.inj hstep
        have hcall := hphase ▸ h.calls i
        exact h.set ⟨receipt, rfl, hcall⟩
      · cases hstep
  | write i ts =>
      simp only [workerJournals] at hstep
      split at hstep
      · rename_i op compaction hphase
        obtain rfl := Option.some.inj hstep
        exact h.write hphase hok _
      · cases hstep
  | finish i =>
      simp only [workerJournals] at hstep
      split at hstep
      · rename_i op compaction counted hphase
        obtain rfl := Option.some.inj hstep
        exact h.finish hphase
      · cases hstep
  | throw i =>
      simp only [workerJournals] at hstep
      split at hstep
      · cases hstep
      · obtain rfl := Option.some.inj hstep
        exact h.leave
  | restore i =>
      simp only [workerJournals] at hstep
      split at hstep
      · rename_i hidle
        obtain rfl := Option.some.inj hstep
        apply h.set
        rw [show ((w.journals i).load w.file w.landed).phase = .idle from hidle]
        trivial
      · cases hstep
  | crash i cut ts =>
      simp only [workerJournals] at hstep
      split at hstep
      · rename_i op compaction hphase
        obtain rfl := Option.some.inj hstep
        by_cases hcut : cut = .nothing
        · subst hcut
          exact h.leave
        · have hspares : sparesChecked w i = true := by simpa [keepsLineage, hcut] using hok
          have hsame : FileOnly w (w.appendCut ⟨(w.journals i).seq, ts, op⟩ cut) := by
            cases cut <;> exact ⟨rfl, rfl, rfl⟩
          obtain ⟨hreplays, hothers⟩ := h.rewrite hsame (fileEffect_cut w _ hcut) hphase hspares
          have hjournals : (w.appendCut ⟨(w.journals i).seq, ts, op⟩ cut).journals = w.journals := by
            cases cut <;> rfl
          refine .leave_others hreplays (by rw [hjournals]; exact hothers) fun hlocks => ?_
          rw [hsame.lock]
          exact (h.calls i).lock (hjournals ▸ hlocks)
      · obtain rfl := Option.some.inj hstep
        exact h.leave

theorem lineageInv_start : LineageInv isUuid {} where
  replays := ⟨⟨{}, rfl⟩, List.Pairwise.nil, fun _ hid => (nomatch hid), fun _ => .slnil⟩
  calls _ := trivial

/-- In every run that keeps the lineage the journal projects; the receipts of a scope form one
chain, in which those of the calls that returned stand in the order of the calls. -/
theorem compaction_lineage_replays
    (h : (workerJournals isUuid).Reach (fun w a => keepsLineage w a = true) w) :
    ∃ state, project isUuid w.file.events = .ok state ∧ ∀ scope,
      OneChain (state.receipts scope) ∧
        (w.succeeded.filter fun r => r.scopeKey = scope).Sublist (state.receipts scope) := by
  have hinv : LineageInv isUuid w := by
    refine h.invariant (fun w hinit => ?_) fun w a w' h hok hstep => h.step hok hstep
    obtain rfl : w = {} := hinit
    exact lineageInv_start
  obtain ⟨state, hstate⟩ := hinv.replays.projects
  refine ⟨state, hstate, fun scope => ?_⟩
  obtain ⟨hreceipts, hchain⟩ := project_receipts hstate hinv.replays.ids scope
  rw [hreceipts]
  exact ⟨hchain, (hinv.replays.succeeded scope).trans
    (receiptsFor_sublist w.file.ended_sublist_events scope)⟩

end Steps

def uuidOne : String := "11111111-1111-4111-8111-111111111111"

def uuidTwo : String := "22222222-2222-4222-8222-222222222222"

def digest : String := String.ofList (List.replicate 64 'a')

/-- A receipt of one scope. -/
def receipt (id : String) (parentId : Option String) (generation : ℕ) :
    CompactionSnapshotReceipt where
  id
  parentId
  generation
  scopeKey := "s"
  artifactPath := "p"
  sha256 := digest
  sourceSha256 := digest
  createdAt := 0
  expiresAt := 1

/-- A whole compaction call. -/
def compaction (i : ℕ) (receipt : CompactionSnapshotReceipt) : List JournalAction :=
  [.recordCompaction i receipt, .check i, .reload i, .write i "t", .finish i]

/-- Two compactions, and an append by somebody else between the check and the write of the
second one. -/
theorem compaction_lineage_replays_two : ∃ w : JournalWorld,
    w.succeeded.map (·.id) = [uuidOne, uuidTwo] ∧
      ∃ state, project (fun _ => true) w.file.events = .ok state ∧ ∀ scope,
        OneChain (state.receipts scope) ∧
          (w.succeeded.filter fun r => r.scopeKey = scope).Sublist (state.receipts scope) := by
  obtain ⟨w, hreach, hids⟩ := (workerJournals fun _ => true).exists_reach_of_execOk keepsLineage
    (s := {}) (compaction 0 (receipt uuidOne none 1) ++
      [.recordCompaction 1 (receipt uuidTwo (some uuidOne) 2), .check 1,
        .append 2 (.approvalResolve "a"), .write 2 "t", .reload 1, .write 1 "t", .finish 1])
    (fun w => w.succeeded.map (·.id) = [uuidOne, uuidTwo]) rfl (by decide +kernel)
  exact ⟨w, hids, compaction_lineage_replays hreach⟩

/-- A receipt whose newline is missing disappears under another append after its child has been
checked. -/
theorem lost_parent_stops_replay :
    ¬ ∀ w : JournalWorld, (workerJournals fun _ => true).Reachable w →
      ∃ state, project (fun _ => true) w.file.events = .ok state := by
  intro h
  obtain ⟨w, hreach, hfails⟩ := Transition.System.exists_reachable_of_exec
    (S := workerJournals fun _ => true) (s := {})
    [.recordCompaction 0 (receipt uuidOne none 1), .check 0, .reload 0,
      .crash 0 .allButNewline "t", .recordCompaction 1 (receipt uuidTwo (some uuidOne) 2),
      .check 1, .append 2 (.approvalResolve "a"), .write 2 "t", .reload 1, .write 1 "t", .finish 1]
    (fun w => (project (fun _ => true) w.file.events).toBool = false) rfl (by decide +kernel)
  obtain ⟨state, hstate⟩ := h w hreach
  rw [hstate] at hfails
  cases hfails

end Kyberion.Workforce
