import Kyberion.Workforce.JournalRun

/-!
The sequence numbers of a worker journal. A journal object keeps its number
between calls, so it is right only as long as nobody else appends.
-/

namespace Kyberion.Workforce

open Transition

theorem lt_nextSeq {events : List JournalEventEnvelope} {event : JournalEventEnvelope}
    (h : event ∈ events) : event.seq < nextSeq events := by
  have hle (events : List JournalEventEnvelope) (start : ℕ) :
      start ≤ events.foldl (fun next event => max next (event.seq + 1)) start := by
    induction events generalizing start with
    | nil => exact Nat.le_refl _
    | cons e events ih => exact Nat.le_trans (Nat.le_max_left _ _) (ih _)
  unfold nextSeq
  generalize 0 = start
  induction events generalizing start with
  | nil => cases h
  | cons e events ih =>
      rcases List.mem_cons.mp h with rfl | hrest
      · exact Nat.lt_of_lt_of_le (Nat.le_max_right _ _) (hle _ _)
      · exact ih hrest _

namespace JournalFile

variable (file : JournalFile)

theorem ended_sublist_events : file.ended.Sublist file.events :=
  List.sublist_append_left _ _

theorem events_append (event : JournalEventEnvelope) :
    (file.append event).events =
      if file.tail.isNone then file.events ++ [event] else file.ended := by
  obtain ⟨lines, tail⟩ := file
  cases tail <;> simp [append, events, ended]

theorem events_appendCut (line : Option JournalEventEnvelope) :
    (file.appendCut line).events =
      if file.tail.isNone then file.events ++ line.toList else file.ended := by
  obtain ⟨lines, tail⟩ := file
  cases tail <;> simp [appendCut, events, ended]

end JournalFile

/-- Either the record lands behind the others, or records are lost at most. -/
def Landed (w w' : JournalWorld) (event : JournalEventEnvelope) : Prop :=
  w'.landed = w.landed + 1 ∧ w'.file.events = w.file.events ++ [event] ∨
    w'.landed = w.landed ∧ w'.file.events.Sublist w.file.events

theorem landed_appendEvent (w : JournalWorld) (event : JournalEventEnvelope) :
    Landed w (w.appendEvent event) event := by
  cases h : w.file.tail.isNone with
  | true => exact .inl (by simp [JournalWorld.appendEvent, JournalWorld.land,
      JournalFile.events_append, h])
  | false =>
      refine .inr ⟨by simp [JournalWorld.appendEvent, JournalWorld.land, h], ?_⟩
      simpa [JournalWorld.appendEvent, JournalFile.events_append, h] using
        w.file.ended_sublist_events

theorem landed_appendCut (w : JournalWorld) (event : JournalEventEnvelope) (cut : Cut) :
    Landed w (w.appendCut event cut) event := by
  cases cut with
  | nothing => exact .inr ⟨rfl, List.Sublist.refl _⟩
  | part =>
      refine .inr ⟨rfl, ?_⟩
      simp only [JournalWorld.appendCut, JournalFile.events_appendCut, Option.toList_none,
        List.append_nil]
      split
      · exact List.Sublist.refl _
      · exact w.file.ended_sublist_events
  | allButNewline =>
      cases h : w.file.tail.isNone with
      | true => exact .inl (by simp [JournalWorld.appendCut, JournalWorld.land,
          JournalFile.events_appendCut, h])
      | false =>
          refine .inr ⟨by simp [JournalWorld.appendCut, JournalWorld.land, h], ?_⟩
          simpa [JournalWorld.appendCut, JournalFile.events_appendCut, h] using
            w.file.ended_sublist_events
  | all => exact landed_appendEvent w event

/-- A number that nobody has appended past is above every record. -/
structure NumberInv (file : JournalFile) (landed : ℕ) (journal : WorkerStateJournal) : Prop where
  synced : journal.synced ≤ landed
  below : journal.seqLoaded = true → journal.synced = landed →
    ∀ event ∈ file.events, event.seq < journal.seq
  appending : ∀ op compaction, journal.phase = .appending op compaction → journal.seqLoaded = true
  written : ∀ op compaction counted, journal.phase = .written op compaction counted →
    counted ≤ landed ∧ (counted = landed → ∀ event ∈ file.events, event.seq ≤ journal.seq)

structure SeqInv (w : JournalWorld) : Prop where
  increasing : w.file.events.Pairwise fun a b => a.seq < b.seq
  journals : ∀ i, NumberInv w.file w.landed (w.journals i)

/-- Nobody has appended a record since the number of the appending journal was loaded or last
used by a call that returned. -/
def numberCurrent (w : JournalWorld) : JournalAction → Bool
  | .write i _ => (w.journals i).synced = w.landed
  | .crash i cut _ => cut = .nothing || cut = .part || (w.journals i).synced = w.landed
  | _ => true

section Steps

variable {w w' : JournalWorld} {i : ℕ} {journal : WorkerStateJournal}

/-- Loading sets the number above every record. -/
theorem NumberInv.load (file : JournalFile) (landed : ℕ) (journal : WorkerStateJournal)
    (hphase : ∀ op compaction counted, journal.phase ≠ .written op compaction counted) :
    NumberInv file landed (journal.load file landed) where
  synced := Nat.le_refl _
  below _ _ _ hevent := lt_nextSeq hevent
  appending _ _ _ := rfl
  written op compaction counted hwritten := absurd hwritten (hphase op compaction counted)

theorem NumberInv.phase {file : JournalFile} {landed : ℕ} (h : NumberInv file landed journal)
    {phase : Phase} (happending : ∀ op compaction, phase = .appending op compaction →
      journal.seqLoaded = true)
    (hwritten : ∀ op compaction counted, phase ≠ .written op compaction counted) :
    NumberInv file landed { journal with phase } where
  synced := h.synced
  below := h.below
  appending := happending
  written op compaction counted heq := absurd heq (hwritten op compaction counted)

/-- What a write of someone else leaves of the number. -/
theorem NumberInv.landed {event : JournalEventEnvelope}
    (h : NumberInv w.file w.landed journal) (hland : Landed w w' event) :
    NumberInv w'.file w'.landed journal := by
  rcases hland with ⟨hcount, -⟩ | ⟨hcount, hevents⟩
  · refine ⟨?_, fun _ hsynced => ?_, h.appending, fun op compaction counted hphase => ?_⟩
    · have hle := h.synced
      omega
    · have hle := h.synced
      omega
    · have hle := (h.written op compaction counted hphase).1
      exact ⟨by omega, by omega⟩
  · rw [hcount]
    refine ⟨h.synced, fun hloaded hsynced event hevent => ?_, h.appending,
      fun op compaction counted hphase => ?_⟩
    · exact h.below hloaded hsynced event (hevents.subset hevent)
    · obtain ⟨hle, hbelow⟩ := h.written op compaction counted hphase
      exact ⟨hle, fun hcounted event hevent => hbelow hcounted event (hevents.subset hevent)⟩

theorem SeqInv.set (h : SeqInv w) (hjournal : NumberInv w.file w.landed journal) :
    SeqInv (w.set i journal) where
  increasing := h.increasing
  journals other := by
    by_cases hi : other = i
    · subst hi
      rw [show (w.set other journal).journals other = journal from Function.update_self ..]
      exact hjournal
    · rw [show (w.set i journal).journals other = w.journals other from
        Function.update_of_ne hi ..]
      exact h.journals other

theorem SeqInv.leave (h : SeqInv w)
    (hjournal : NumberInv w.file w.landed { journal with phase := .idle }) :
    SeqInv (w.leave i journal) :=
  let hset := h.set (i := i) hjournal
  ⟨hset.increasing, hset.journals⟩

theorem SeqInv.write (h : SeqInv w) {event : JournalEventEnvelope} (hland : Landed w w' event)
    (hjournals : w'.journals = w.journals)
    (hbelow : w'.landed = w.landed + 1 → ∀ old ∈ w.file.events, old.seq < event.seq) :
    SeqInv w' where
  increasing := by
    rcases hland with ⟨hcount, hevents⟩ | ⟨-, hevents⟩
    · rw [hevents, List.pairwise_append]
      refine ⟨h.increasing, List.pairwise_singleton _ _, fun old hold new hnew => ?_⟩
      obtain rfl := List.mem_singleton.mp hnew
      exact hbelow hcount old hold
    · exact h.increasing.sublist hevents
  journals other := hjournals ▸ (h.journals other).landed hland

theorem NumberInv.fresh (file : JournalFile) (landed : ℕ) : NumberInv file landed {} where
  synced := Nat.zero_le _
  below hloaded := nomatch hloaded
  appending _ _ hphase := nomatch hphase
  written _ _ _ hphase := nomatch hphase

theorem NumberInv.ensureSeqLoaded {file : JournalFile} {landed : ℕ}
    (h : NumberInv file landed journal) (hidle : journal.phase = .idle) :
    NumberInv file landed (journal.ensureSeqLoaded file landed) ∧
      (journal.ensureSeqLoaded file landed).seqLoaded = true := by
  unfold WorkerStateJournal.ensureSeqLoaded
  split
  · rename_i hloaded
    exact ⟨h, hloaded⟩
  · exact ⟨.load file landed journal (by simp [hidle]), rfl⟩

/-- The number of a call that has written its record, and that of one that returns. -/
theorem NumberInv.wrote {event : JournalEventEnvelope} {op : WorkerOp} {compaction : Bool}
    (h : NumberInv w.file w.landed journal) (hland : Landed w w' event)
    (hseq : event.seq = journal.seq) (hloaded : journal.seqLoaded = true)
    (hsynced : journal.synced = w.landed) :
    NumberInv w'.file w'.landed { journal with phase := .written op compaction w'.landed } := by
  have hold := h.landed hland
  refine ⟨hold.synced, hold.below, fun _ _ hphase => (nomatch hphase), fun _ _ _ hphase => ?_⟩
  cases hphase
  refine ⟨Nat.le_refl _, fun _ other hother => ?_⟩
  have hbelow := h.below hloaded hsynced
  rcases hland with ⟨-, hevents⟩ | ⟨-, hevents⟩
  · rw [hevents] at hother
    rcases List.mem_append.mp hother with hearlier | hnew
    · exact Nat.le_of_lt (hbelow other hearlier)
    · rw [List.mem_singleton.mp hnew, hseq]
  · exact Nat.le_of_lt (hbelow other (hevents.subset hother))

theorem NumberInv.returned {file : JournalFile} {landed counted : ℕ} {op : WorkerOp}
    {compaction : Bool} (h : NumberInv file landed journal)
    (hphase : journal.phase = .written op compaction counted) :
    NumberInv file landed
      { journal with phase := .idle, seq := journal.seq + 1, synced := counted } := by
  obtain ⟨hle, hbelow⟩ := h.written op compaction counted hphase
  refine ⟨hle, fun _ hcounted event hevent => ?_, fun _ _ hidle => (nomatch hidle),
    fun _ _ _ hidle => (nomatch hidle)⟩
  exact Nat.lt_succ_of_le (hbelow hcounted event hevent)

theorem SeqInv.idle (h : SeqInv w) (i : ℕ) : SeqInv (w.leave i (w.journals i)) :=
  h.leave ((h.journals i).phase (fun _ _ hidle => nomatch hidle) fun _ _ _ hidle => nomatch hidle)

variable {isUuid : String → Bool}

theorem SeqInv.step (h : SeqInv w) {a : JournalAction} (hok : numberCurrent w a = true)
    (hstep : (workerJournals isUuid).step w a = some w') : SeqInv w' := by
  cases a with
  | append i op =>
      simp only [workerJournals] at hstep
      split at hstep
      · rename_i hidle
        obtain rfl := Option.some.inj hstep
        obtain ⟨hload, hloaded⟩ := (h.journals i).ensureSeqLoaded hidle
        unfold JournalWorld.startAppend
        split
        · exact h.set (hload.phase (fun _ _ _ => hloaded) fun _ _ _ hphase => nomatch hphase)
        · exact h.set hload
      · cases hstep
  | recordCompaction i receipt =>
      simp only [workerJournals] at hstep
      split at hstep
      · obtain ⟨-, hstep⟩ := Option.ite_none_right_eq_some.mp hstep
        obtain rfl := Option.some.inj hstep
        have hset : SeqInv (w.set i { w.journals i with phase := .compacting receipt }) :=
          h.set ((h.journals i).phase (fun _ _ hphase => nomatch hphase)
            fun _ _ _ hphase => nomatch hphase)
        exact ⟨hset.increasing, hset.journals⟩
      · cases hstep
  | check i =>
      simp only [workerJournals] at hstep
      split at hstep
      · split at hstep
        · obtain rfl := Option.some.inj hstep
          exact h.set ((h.journals i).phase (fun _ _ hphase => nomatch hphase)
            fun _ _ _ hphase => nomatch hphase)
        · obtain rfl := Option.some.inj hstep
          exact h.idle i
      · cases hstep
  | reload i =>
      simp only [workerJournals] at hstep
      split at hstep
      · rename_i receipt hphase
        obtain rfl := Option.some.inj hstep
        have hload := NumberInv.load w.file w.landed (w.journals i) (by simp [hphase])
        exact h.set (hload.phase (fun _ _ _ => rfl) fun _ _ _ hphase => nomatch hphase)
      · cases hstep
  | write i ts =>
      simp only [workerJournals] at hstep
      split at hstep
      · rename_i op compaction hphase
        obtain rfl := Option.some.inj hstep
        have hloaded := (h.journals i).appending op compaction hphase
        have hsynced : (w.journals i).synced = w.landed := by simpa [numberCurrent] using hok
        have hland := landed_appendEvent w ⟨(w.journals i).seq, ts, op⟩
        exact (h.write hland rfl fun _ => (h.journals i).below hloaded hsynced).set
          ((h.journals i).wrote hland rfl hloaded hsynced)
      · cases hstep
  | finish i =>
      simp only [workerJournals] at hstep
      split at hstep
      · rename_i op compaction counted hphase
        obtain rfl := Option.some.inj hstep
        have hleave : SeqInv (w.leave i { w.journals i with
            seq := (w.journals i).seq + 1
            synced := counted }) := h.leave ((h.journals i).returned hphase)
        unfold JournalWorld.succeed
        split
        · exact ⟨hleave.increasing, hleave.journals⟩
        · exact hleave
      · cases hstep
  | throw i =>
      simp only [workerJournals] at hstep
      split at hstep
      · cases hstep
      · obtain rfl := Option.some.inj hstep
        exact h.idle i
  | restore i =>
      simp only [workerJournals] at hstep
      split at hstep
      · rename_i hidle
        obtain rfl := Option.some.inj hstep
        exact h.set (.load w.file w.landed _ (by simp [hidle]))
      · cases hstep
  | crash i cut ts =>
      simp only [workerJournals] at hstep
      split at hstep
      · rename_i op compaction hphase
        obtain rfl := Option.some.inj hstep
        have hloaded := (h.journals i).appending op compaction hphase
        refine (h.write (landed_appendCut w _ cut) (by cases cut <;> rfl) fun hcount => ?_).leave
          (.fresh _ _)
        refine (h.journals i).below hloaded ?_
        cases cut with
        | nothing => simp [JournalWorld.appendCut] at hcount
        | part => simp [JournalWorld.appendCut] at hcount
        | allButNewline => simpa [numberCurrent] using hok
        | all => simpa [numberCurrent] using hok
      · obtain rfl := Option.some.inj hstep
        exact h.leave (.fresh _ _)

/-- The numbers increase in every run that appends with a current number. -/
theorem worker_journal_seq_increasing
    (h : (workerJournals isUuid).Reach (fun w a => numberCurrent w a = true) w) :
    w.file.events.Pairwise fun a b => a.seq < b.seq := by
  suffices hinv : SeqInv w from hinv.increasing
  refine h.invariant (fun w hinit => ?_) fun w a w' h hok hstep => h.step hok hstep
  obtain rfl : w = {} := hinit
  exact ⟨List.Pairwise.nil, fun i => .fresh _ _⟩

end Steps

/-- Two journal objects in turn, the second one started after the first one's append. -/
theorem worker_journal_seq_increasing_in_turn : ∃ w : JournalWorld,
    w.file.events.map (·.seq) = [0, 1, 2] ∧
      w.file.events.Pairwise fun a b => a.seq < b.seq := by
  obtain ⟨w, hreach, hseqs⟩ := (workerJournals fun _ => true).exists_reach_of_execOk numberCurrent
    (s := {}) [.append 0 (.approvalResolve "a"), .write 0 "t0", .finish 0,
      .append 0 (.approvalResolve "b"), .write 0 "t1", .finish 0,
      .append 1 (.approvalResolve "c"), .write 1 "t2", .finish 1]
    (fun w => w.file.events.map (·.seq) = [0, 1, 2]) rfl (by decide +kernel)
  exact ⟨w, hseqs, worker_journal_seq_increasing hreach⟩

/-- Two journal objects that have both loaded their number before either appends. -/
theorem two_journals_append_one_number :
    ¬ ∀ w : JournalWorld, (workerJournals fun _ => true).Reachable w →
      w.file.events.Pairwise fun a b => a.seq < b.seq := by
  intro h
  obtain ⟨w, hreach, hseqs⟩ := Transition.System.exists_reachable_of_exec
    (S := workerJournals fun _ => true) (s := {})
    [.restore 0, .restore 1, .append 0 (.approvalResolve "a"), .write 0 "t0", .finish 0,
      .append 1 (.approvalResolve "b"), .write 1 "t1", .finish 1]
    (fun w => w.file.events.map (·.seq) = [0, 0]) rfl (by decide +kernel)
  have hpairs : (w.file.events.map (·.seq)).Pairwise (· < ·) := List.pairwise_map.mpr (h w hreach)
  rw [hseqs] at hpairs
  revert hpairs
  decide

end Kyberion.Workforce
