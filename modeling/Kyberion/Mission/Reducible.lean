import Kyberion.Mission.Journal
import Kyberion.Transition
import Mathlib.Logic.Function.Basic

/-!
Any number of calls append to one journal. A call takes its attempt from the
journal as it reads it and appends its entry later, under the writer lease. The
journal can be reduced as long as no higher attempt of its operation comes in
between.
-/

namespace Kyberion.Mission

open Js Transition

/-- A call between its read and its append; `read` is the number of entries it has read. -/
structure PendingCall where
  input : JournalInput
  entry : MissionOrchestrationJournalEntry
  read : ℕ

structure MissionLog where
  journal : List MissionOrchestrationJournalEntry
  calls : ℕ → Option PendingCall

inductive JournalStep
  | start (call : ℕ) (input : JournalInput) (ts : String)
  | append (call : ℕ)
  /-- The call throws before it has appended. -/
  | giveUp (call : ℕ)

def MissionLog.empty : MissionLog := ⟨[], fun _ => none⟩

section Run

variable (toUpperCase : String → String)

/-- Calls give no attempt of their own. -/
def missionLog : System MissionLog JournalStep where
  init log := log = .empty
  step log
    | .start call input ts =>
        if log.calls call = none ∧ input.operation.attempt = none then
          match buildEntry toUpperCase ts log.journal input with
          | .ok entry => some { log with
              calls := Function.update log.calls call (some ⟨input, entry, log.journal.length⟩) }
          | .error _ => some log
        else none
    | .append call =>
        (log.calls call).map fun pending =>
          ⟨log.journal ++ [pending.entry], Function.update log.calls call none⟩
    | .giveUp call =>
        (log.calls call).map fun _ => { log with calls := Function.update log.calls call none }

/-- No entry of the operation with a higher attempt has come since the call read the journal. -/
def attemptStands (log : MissionLog) (pending : PendingCall) : Bool :=
  match resolveOperation (log.journal.take pending.read) pending.input with
  | .ok operation => (log.journal.drop pending.read).all fun entry =>
      entry.operation.id ≠ operation.id || entry.operation.attempt ≤ operation.attempt
  | .error _ => true

/-- The scope of a started call normalizes and its operation has no inherited name; an appended
entry still has the highest attempt. -/
def keepsReducible (log : MissionLog) : JournalStep → Bool
  | .start _ input _ =>
      (input.scope.all fun scope => (normalizeEventScope scope).toBool) &&
        !inheritedNames.contains input.operationId
  | .append call => (log.calls call).all (attemptStands log)
  | .giveUp _ => true

end Run

/-- An entry that reading the journal accepts. -/
structure Readable (entry : MissionOrchestrationJournalEntry) : Prop where
  fits : fitsSchema entry = true
  scope : ∀ scope, entry.scope = some scope → ∃ normal, normalizeEventScope scope = .ok normal
  id : entry.operation.id ∉ inheritedNames

/-- The attempts of an operation do not fall. -/
def NoRegression (entries : List MissionOrchestrationJournalEntry) : Prop :=
  entries.Pairwise fun a b =>
    operationKey a = operationKey b → a.operation.attempt ≤ b.operation.attempt

/-- What a readable entry normalizes to. -/
def normalEntry (raw : MissionOrchestrationJournalEntry) : MissionOrchestrationJournalEntry :=
  (normalizeJournalEntry raw).toOption.getD raw

@[simp] theorem normalizeOutcome_self (status : MissionOrchestrationJournalStatus)
    (outcome : MissionOperationOutcome) :
    normalizeOutcome status (normalizeOutcome status outcome) = normalizeOutcome status outcome := by
  obtain ⟨outcome, reason⟩ := outcome
  cases outcome <;> cases status <;> rfl

theorem exists_normalizeScope {scope : Option EventScopeInput}
    (h : ∀ s, scope = some s → ∃ normal, normalizeEventScope s = .ok normal) :
    ∃ normal, normalizeScope scope = .ok normal ∧ normalizeScope normal = .ok normal := by
  cases scope with
  | none => exact ⟨none, rfl, rfl⟩
  | some s =>
      obtain ⟨normal, hnormal⟩ := h s rfl
      refine ⟨some normal.toInput, ?_, ?_⟩
      · simp only [normalizeScope, hnormal]
      · simp only [normalizeScope, normalizeEventScope_toInput hnormal]

theorem Readable.normalizes {raw : MissionOrchestrationJournalEntry} (h : Readable raw) :
    normalizeJournalEntry raw = .ok (normalEntry raw) ∧
      normalizeJournalEntry (normalEntry raw) = .ok (normalEntry raw) ∧
      (normalEntry raw).operation = raw.operation := by
  obtain ⟨scope, hscope, hagain⟩ := exists_normalizeScope h.scope
  have hattempt : 0 < raw.operation.attempt := by
    have hfits := h.fits
    simp only [fitsSchema, Bool.and_eq_true, decide_eq_true_eq] at hfits
    omega
  have hnormal : normalizeJournalEntry raw =
      .ok { raw with outcome := normalizeOutcome raw.status raw.outcome, scope } := by
    simp only [normalizeJournalEntry, hscope, if_pos hattempt]
    rfl
  have hentry : normalEntry raw =
      { raw with outcome := normalizeOutcome raw.status raw.outcome, scope } := by
    rw [normalEntry, hnormal]
    rfl
  refine ⟨hentry ▸ hnormal, ?_, by rw [hentry]⟩
  simp only [hentry, normalizeJournalEntry, hagain, if_pos hattempt, normalizeOutcome_self]
  rfl

theorem readJsonLines_ok {α β : Type} {map : α → Except String β} {onMalformed : ℕ → String}
    {f : α → β} {lines : List α} (h : ∀ line ∈ lines, map line = .ok (f line)) (lineNumber : ℕ) :
    readJsonLines map onMalformed lineNumber lines = .ok (lines.map f) := by
  induction lines generalizing lineNumber with
  | nil => rfl
  | cons line lines ih =>
      obtain ⟨hline, hrest⟩ := List.forall_mem_cons.mp h
      simp only [readJsonLines, hline, ih hrest]
      rfl

/-- Reading a journal of readable entries normalizes each of them. -/
theorem loadMissionOrchestrationJournal_ok {journal : List MissionOrchestrationJournalEntry}
    (h : ∀ entry ∈ journal, Readable entry) :
    loadMissionOrchestrationJournal journal = .ok (journal.map normalEntry) := by
  apply readJsonLines_ok
  intro raw hraw
  have hvalid : validateEntry raw = .ok raw := by simp [validateEntry, (h raw hraw).fits]
  rw [loadEntry, hvalid, except_ok_bind, (h raw hraw).normalizes.1]

/-- Normalizing keeps the operations, hence their attempts. -/
theorem NoRegression.normal {journal : List MissionOrchestrationJournalEntry}
    (h : ∀ entry ∈ journal, Readable entry) (hattempts : NoRegression journal) :
    NoRegression (journal.map normalEntry) := by
  rw [NoRegression, List.pairwise_map]
  refine List.Pairwise.imp_of_mem (fun {a b} ha hb hab => ?_) hattempts
  rw [operationKey, operationKey, (h a ha).normalizes.2.2, (h b hb).normalizes.2.2]
  exact hab

/-- The loop of the reduction passes entries that normalize to themselves and whose attempts do
not fall. -/
theorem reduceEntries_ok {operations : Record ReducedMissionOperation}
    {entries : List MissionOrchestrationJournalEntry}
    (hself : ∀ entry ∈ entries, normalizeJournalEntry entry = .ok entry ∧
      entry.operation.id ∉ inheritedNames)
    (hold : ∀ entry ∈ entries, ∀ previous, operations.get entry.operation.id = .own previous →
      previous.operation.attempt ≤ entry.operation.attempt)
    (hattempts : NoRegression entries) :
    ∃ reduced, entries.foldlM reduceEntry operations = .ok reduced := by
  induction entries generalizing operations with
  | nil => exact ⟨operations, rfl⟩
  | cons entry entries ih =>
      obtain ⟨⟨hnormal, hid⟩, hrest⟩ := List.forall_mem_cons.mp hself
      obtain ⟨hbefore, hbeforeRest⟩ := List.forall_mem_cons.mp hold
      obtain ⟨hafter, hattempts⟩ := List.pairwise_cons.mp hattempts
      let reduced : ReducedMissionOperation :=
        ⟨entry.eventId, entry.operation, entry.outcome, entry.status⟩
      have hround : reduceEntry operations entry =
          .ok (operations.set entry.operation.id reduced) := by
        simp only [reduceEntry, hnormal, except_ok_bind]
        cases hget : operations.get entry.operation.id with
        | absent => rfl
        | inherited =>
            unfold Record.get at hget
            split at hget
            · cases hget
            · rw [if_neg hid] at hget
              cases hget
        | own previous => exact throwIf_eq_ok.mpr ⟨Nat.not_lt.mpr (hbefore previous hget), rfl⟩
      rw [List.foldlM_cons, hround, except_ok_bind]
      refine ih hrest (fun other hother previous hget => ?_) hattempts
      rw [Record.get_set] at hget
      split at hget
      · rename_i hsame
        cases hget
        exact hafter other hother (congrArg some hsame.symm)
      · exact hbeforeRest other hother previous hget

/-- A journal of readable entries whose attempts do not fall can be reduced. -/
theorem readSnapshot_ok {journal : List MissionOrchestrationJournalEntry}
    (h : ∀ entry ∈ journal, Readable entry) (hattempts : NoRegression journal) :
    ∃ state, readSnapshot journal = .ok state := by
  have hself : ∀ entry ∈ journal.map normalEntry, normalizeJournalEntry entry = .ok entry ∧
      entry.operation.id ∉ inheritedNames := by
    intro entry hentry
    obtain ⟨raw, hraw, rfl⟩ := List.mem_map.mp hentry
    obtain ⟨-, hagain, hoperation⟩ := (h raw hraw).normalizes
    exact ⟨hagain, hoperation ▸ (h raw hraw).id⟩
  have hempty : ∀ entry ∈ journal.map normalEntry, ∀ previous : ReducedMissionOperation,
      Record.empty.get entry.operation.id = .own previous →
        previous.operation.attempt ≤ entry.operation.attempt := by
    intro entry _ previous hget
    rw [Record.get_empty] at hget
    split at hget <;> cases hget
  obtain ⟨operations, hreduced⟩ := reduceEntries_ok hself hempty (hattempts.normal h)
  simp only [readSnapshot, loadMissionOrchestrationJournal_ok h, except_ok_bind,
    reduceMissionState, hreduced]
  exact ⟨_, rfl⟩

/-- The attempt of a call is at least every one that it has read. -/
theorem resolveOperation_ok {journal : List MissionOrchestrationJournalEntry} {input : JournalInput}
    (h : ∀ entry ∈ journal, Readable entry) (hattempts : NoRegression journal)
    (hexplicit : input.operation.attempt = none) :
    ∃ operation, resolveOperation journal input = .ok operation ∧
      operation.id = input.operationId ∧
      ∀ entry ∈ journal, entry.operation.id = operation.id →
        entry.operation.attempt ≤ operation.attempt := by
  refine ⟨_, by simp only [resolveOperation, loadMissionOrchestrationJournal_ok h]; rfl, rfl,
    fun raw hraw hid => ?_⟩
  have hoperation := (h raw hraw).normalizes.2.2
  have hentry : normalEntry raw ∈ journal.map normalEntry := List.mem_map_of_mem hraw
  rw [← hoperation] at hid ⊢
  have hkey : operationKey (normalEntry raw) = some input.operationId := congrArg some hid
  obtain ⟨previous, hprevious⟩ := exists_lastFor hentry hkey
  have hgreatest := lastFor_greatest (hattempts.normal h) hentry hkey hprevious
  simp only [hprevious, hexplicit, resolveAttempt, Option.filter_none, Option.map_some,
    Option.getD_some]
  split <;> omega

/-- The attempt of a pending call is the one that it resolved from what it read. -/
structure PendingInv (journal : List MissionOrchestrationJournalEntry) (pending : PendingCall) :
    Prop where
  readable : Readable pending.entry
  read : pending.read ≤ journal.length
  explicit : pending.input.operation.attempt = none
  operation : resolveOperation (journal.take pending.read) pending.input =
    .ok pending.entry.operation

structure LogInv (log : MissionLog) : Prop where
  readable : ∀ entry ∈ log.journal, Readable entry
  attempts : NoRegression log.journal
  calls : ∀ call pending, log.calls call = some pending → PendingInv log.journal pending

theorem PendingInv.concat {journal : List MissionOrchestrationJournalEntry} {pending : PendingCall}
    (h : PendingInv journal pending) (entry : MissionOrchestrationJournalEntry) :
    PendingInv (journal ++ [entry]) pending where
  readable := h.readable
  read := by
    have hread := h.read
    simp only [List.length_append, List.length_singleton]
    omega
  explicit := h.explicit
  operation := by
    rw [List.take_append_of_le_length h.read]
    exact h.operation

theorem calls_update {log : MissionLog} (h : LogInv log) {call : ℕ} {slot : Option PendingCall}
    (hslot : ∀ pending, slot = some pending → PendingInv log.journal pending) (other : ℕ)
    (pending : PendingCall) (hother : Function.update log.calls call slot other = some pending) :
    PendingInv log.journal pending := by
  by_cases hcall : other = call
  · subst hcall
    rw [Function.update_self] at hother
    exact hslot pending hother
  · rw [Function.update_of_ne hcall] at hother
    exact h.calls other pending hother

variable {toUpperCase : String → String}

theorem buildEntry_ok {ts : String} {journal : List MissionOrchestrationJournalEntry}
    {input : JournalInput} {entry : MissionOrchestrationJournalEntry}
    (h : buildEntry toUpperCase ts journal input = .ok entry) :
    resolveOperation journal input = .ok entry.operation ∧ fitsSchema entry = true ∧
      entry.scope = input.scope := by
  obtain ⟨operation, hoperation, h⟩ := except_bind_ok h
  obtain ⟨hfits, heq⟩ := throwIf_eq_ok.mp h
  obtain rfl := Except.ok.inj heq
  exact ⟨hoperation, by simpa using hfits, rfl⟩

theorem LogInv.start {log : MissionLog} (h : LogInv log) {call : ℕ} {input : JournalInput}
    {ts : String} {entry : MissionOrchestrationJournalEntry}
    (hok : keepsReducible log (.start call input ts) = true)
    (hexplicit : input.operation.attempt = none)
    (hentry : buildEntry toUpperCase ts log.journal input = .ok entry) :
    LogInv { log with
      calls := Function.update log.calls call (some ⟨input, entry, log.journal.length⟩) } where
  readable := h.readable
  attempts := h.attempts
  calls := by
    refine calls_update h fun pending hpending => ?_
    obtain rfl := Option.some.inj hpending
    obtain ⟨hoperation, hfits, hscope⟩ := buildEntry_ok hentry
    obtain ⟨operation, hresolved, hid, -⟩ := resolveOperation_ok h.readable h.attempts hexplicit
    obtain rfl := Except.ok.inj (hoperation.symm.trans hresolved)
    simp only [keepsReducible, Bool.and_eq_true, Bool.not_eq_true', List.contains_eq_mem,
      decide_eq_false_iff_not] at hok
    refine ⟨⟨hfits, fun scope hsome => ?_, hid ▸ hok.2⟩, Nat.le_refl _, hexplicit, ?_⟩
    · have hnormal := hok.1
      rw [← hscope, hsome, Option.all_some] at hnormal
      cases hresult : normalizeEventScope scope with
      | ok normal => exact ⟨normal, rfl⟩
      | error text =>
          rw [hresult] at hnormal
          cases hnormal
    · rw [List.take_length]
      exact hoperation

theorem LogInv.append {log : MissionLog} (h : LogInv log) {call : ℕ} {pending : PendingCall}
    (hpending : log.calls call = some pending) (hok : attemptStands log pending = true) :
    LogInv ⟨log.journal ++ [pending.entry], Function.update log.calls call none⟩ := by
  have hcall := h.calls call pending hpending
  have hsub : log.journal.take pending.read ⊆ log.journal := List.take_subset _ _
  obtain ⟨operation, hresolved, -, hbefore⟩ := resolveOperation_ok
    (fun entry hentry => h.readable entry (hsub hentry))
    (h.attempts.sublist (List.take_sublist _ _)) hcall.explicit
  obtain rfl := Except.ok.inj (hcall.operation.symm.trans hresolved)
  have hafter : ∀ entry ∈ log.journal.drop pending.read,
      entry.operation.id = pending.entry.operation.id →
        entry.operation.attempt ≤ pending.entry.operation.attempt := by
    simp only [attemptStands, hcall.operation, List.all_eq_true, Bool.or_eq_true,
      decide_eq_true_eq] at hok
    intro entry hentry hid
    exact (hok entry hentry).resolve_left (not_not_intro hid)
  refine ⟨?_, ?_, ?_⟩
  · simp only [List.forall_mem_append, List.forall_mem_singleton]
    exact ⟨h.readable, hcall.readable⟩
  · refine List.pairwise_append.mpr ⟨h.attempts, List.pairwise_singleton _ _, ?_⟩
    intro entry hentry new hnew hid
    obtain rfl := List.mem_singleton.mp hnew
    rw [← List.take_append_drop pending.read log.journal] at hentry
    rcases List.mem_append.mp hentry with hold | hlate
    · exact hbefore entry hold (Option.some.inj hid)
    · exact hafter entry hlate (Option.some.inj hid)
  · intro other pending' hother
    refine (calls_update h (fun pending hnone => ?_) other pending' hother).concat _
    cases hnone

theorem LogInv.step {log log' : MissionLog} {a : JournalStep} (h : LogInv log)
    (hok : keepsReducible log a = true) (hstep : (missionLog toUpperCase).step log a = some log') :
    LogInv log' := by
  cases a with
  | start call input ts =>
      simp only [missionLog] at hstep
      obtain ⟨⟨-, hexplicit⟩, hstep⟩ := Option.ite_none_right_eq_some.mp hstep
      split at hstep
      · rename_i entry hentry
        obtain rfl := Option.some.inj hstep
        exact h.start hok hexplicit hentry
      · obtain rfl := Option.some.inj hstep
        exact h
  | append call =>
      obtain ⟨pending, hpending, rfl⟩ := Option.map_eq_some_iff.mp hstep
      simp only [keepsReducible, hpending, Option.all_some] at hok
      exact h.append hpending hok
  | giveUp call =>
      obtain ⟨pending, -, rfl⟩ := Option.map_eq_some_iff.mp hstep
      exact ⟨h.readable, h.attempts, calls_update h fun pending hnone => nomatch hnone⟩

/-- The journal can be reduced in every run that appends no attempt after a higher one. -/
theorem mission_journal_reducible {log : MissionLog}
    (h : (missionLog toUpperCase).Reach (fun log a => keepsReducible log a = true) log) :
    ∃ state, readSnapshot log.journal = .ok state := by
  suffices hinv : LogInv log from readSnapshot_ok hinv.readable hinv.attempts
  refine h.invariant (fun log hinit => ?_) fun log a log' h hok hstep => h.step hok hstep
  obtain rfl : log = .empty := hinit
  refine ⟨?_, List.Pairwise.nil, ?_⟩
  · intro entry hentry
    cases hentry
  · intro call pending hpending
    cases hpending

/-- A call of the worker for one event. -/
def report (status : MissionOrchestrationJournalStatus) : JournalInput where
  missionId := "M-1"
  eventId := "ME-1"
  eventType := .missionControlRequested
  status
  payloadHash := "5f"

/-- A retry that is appended while another call holds on to the first attempt. -/
def retryPassesBy : List JournalStep :=
  [.start 0 (report .failed) "t0", .append 0, .start 1 (report .completed) "t1",
    .start 2 (report .enqueued) "t2", .append 2, .append 1]

theorem mission_journal_reducible_after_retry : ∃ log : MissionLog,
    log.journal.map (fun entry => entry.operation.attempt) = [1, 2, 2] ∧
      ∃ state, readSnapshot log.journal = .ok state := by
  obtain ⟨log, hreach, hattempts⟩ := (missionLog id).exists_reach_of_execOk keepsReducible
    (s := .empty) [.start 0 (report .failed) "t0", .append 0, .start 1 (report .enqueued) "t1",
      .append 1, .start 2 (report .completed) "t2", .append 2]
    (fun log => log.journal.map (fun entry => entry.operation.attempt) = [1, 2, 2]) rfl
    (by decide +kernel)
  exact ⟨log, hattempts, mission_journal_reducible hreach⟩

theorem late_completion_breaks_journal :
    ¬ ∀ log : MissionLog, (missionLog id).Reachable log →
      ∃ state, readSnapshot log.journal = .ok state := by
  intro h
  obtain ⟨log, hreach, hfails⟩ := Transition.System.exists_reachable_of_exec
    (S := missionLog id) (s := .empty) retryPassesBy
    (fun log => (readSnapshot log.journal).toBool = false) rfl (by decide +kernel)
  obtain ⟨state, hstate⟩ := h log hreach
  rw [hstate] at hfails
  cases hfails

end Kyberion.Mission
