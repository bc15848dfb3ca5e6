import Kyberion.Pipeline.RunJournal
import Mathlib.Data.List.Induction

/-!
An event that is numbered above the events of a readable journal keeps it readable. Handles that
append in turn therefore keep a run resumable, and what the run has completed is what the last
completion of each step says.
-/

namespace Kyberion.Pipeline

open Js Transition

section Completions

/-- A completion that a resume can restore. -/
def PipelineRunPayload.completion : PipelineRunPayload → Option PipelineRunNodeCompletedPayload
  | .nodeCompleted node => if node.redactedChannels ≠ [] then none else some node
  | _ => none

/-- The last unredacted completion of a step, in file order. -/
def lastCompletion (events : List PipelineRunJournalEvent) (stepId : String) :
    Option PipelineRunNodeCompletedPayload :=
  (events.filterMap (·.payload.completion)).reverse.find? (·.stepId = stepId)

variable {events : List PipelineRunJournalEvent} {event : PipelineRunJournalEvent}

theorem project_snoc : project (events ++ [event]) = (project events).apply event.payload := by
  simp [project]

theorem lastCompletion_snoc (stepId : String) : lastCompletion (events ++ [event]) stepId =
    match event.payload.completion with
    | none => lastCompletion events stepId
    | some node => if node.stepId = stepId then some node else lastCompletion events stepId := by
  unfold lastCompletion
  cases hcompletion : event.payload.completion with
  | none => simp [hcompletion]
  | some node =>
      have hlast : [event].filterMap (·.payload.completion) = [node] := by simp [hcompletion]
      rw [List.filterMap_append, hlast, List.reverse_append, List.reverse_singleton,
        List.singleton_append]
      dsimp only
      by_cases hstep : node.stepId = stepId
      · rw [List.find?_cons_of_pos (by simpa using hstep), if_pos hstep]
      · rw [List.find?_cons_of_neg (by simpa using hstep), if_neg hstep]

theorem apply_completedNodes (state : PipelineJournalProjection) (payload : PipelineRunPayload)
    (stepId : String) : (state.apply payload).completedNodes stepId =
      match payload.completion with
      | none => state.completedNodes stepId
      | some node => if node.stepId = stepId then some node else state.completedNodes stepId := by
  cases payload with
  | nodeCompleted node =>
      rw [PipelineJournalProjection.apply, PipelineRunPayload.completion]
      split
      · rfl
      · simp only [Function.update_apply, eq_comm]
  | runStarted started => rfl
  | runResumed payload => rfl
  | runSuspended suspended => rfl
  | nodeFailed payload => rfl
  | runFinished finished => rfl

/-- The projection holds the last unredacted completion of each step. -/
theorem project_completedNodes (stepId : String) :
    (project events).completedNodes stepId = lastCompletion events stepId := by
  induction events using List.reverseRecOn with
  | nil => rfl
  | append_singleton events event ih =>
      rw [project_snoc, apply_completedNodes, lastCompletion_snoc, ih]

end Completions

section Reading

variable {events : List PipelineRunJournalEvent} {event : PipelineRunJournalEvent}
  {state : PipelineRunJournalState}

theorem monotonic_snoc {previous : Option ℕ} (h : monotonic previous events = true)
    (hpositive : 1 ≤ event.sequence) (hprevious : ∀ n ∈ previous, n < event.sequence)
    (habove : ∀ e ∈ events, e.sequence < event.sequence) :
    monotonic previous (events ++ [event]) = true := by
  induction events generalizing previous with
  | nil =>
      cases previous with
      | none => simp [monotonic, hpositive]
      | some n => simp [monotonic, hpositive, hprevious n rfl]
  | cons first rest ih =>
      rw [List.cons_append, monotonic, Bool.and_eq_true] at *
      refine ⟨h.1, ih h.2 (fun n hn => ?_) fun e he => habove e (List.mem_cons_of_mem first he)⟩
      rw [← Option.some.inj hn]
      exact habove first List.mem_cons_self

theorem apply_started (projection : PipelineJournalProjection) (payload : PipelineRunPayload)
    (h : projection.started.isSome) : (projection.apply payload).started.isSome := by
  cases payload with
  | runStarted started => rfl
  | nodeCompleted node =>
      rw [PipelineJournalProjection.apply]
      split
      · exact h
      · exact h
  | runResumed payload => exact h
  | runSuspended suspended => exact h
  | nodeFailed payload => exact h
  | runFinished finished => exact h

/-- What the reader accepts, and as what. -/
theorem readJournalFile_eq_some : readJournalFile (some events) = some state ↔
    ∃ first rest, events = first :: rest ∧ (∀ e ∈ events, e.payload.isSafe = true) ∧
      monotonic none events = true ∧ first.payload.isRunStarted = true ∧
      (∀ e ∈ rest, e.payload.isRunStarted = false) ∧ (∀ e ∈ rest, e.runId = first.runId) ∧
      (project events).started.isSome ∧
      state = { runId := first.runId, events := events, projection := project events } := by
  cases events with
  | nil => simp [readJournalFile]
  | cons first rest =>
      simp only [readJournalFile, Option.ite_none_left_eq_some, List.cons.injEq]
      constructor
      · rintro ⟨hsafe, hmonotonic, hstart, hruns, hstarted, hstate⟩
        refine ⟨first, rest, ⟨rfl, rfl⟩, ?_, ?_, ?_, ?_, ?_, ?_, (Option.some.inj hstate).symm⟩
        · simpa using hsafe
        · simpa using hmonotonic
        · exact (by simpa using hstart : _ ∧ _).1
        · exact (by simpa using hstart : _ ∧ _).2
        · simpa using hruns
        · simpa [Option.isSome_iff_ne_none] using hstarted
      · rintro ⟨_, _, ⟨rfl, rfl⟩, hsafe, hmonotonic, hfirst, hrest, hruns, hstarted, rfl⟩
        refine ⟨?_, ?_, ?_, ?_, ?_, rfl⟩
        · simpa using hsafe
        · simpa using hmonotonic
        · simpa [hfirst] using hrest
        · simpa using hruns
        · simpa [Option.isSome_iff_ne_none] using hstarted

/-- An event numbered above all others keeps the journal readable. -/
theorem readJournalFile_snoc (h : readJournalFile (some events) = some state)
    (hsafe : event.payload.isSafe = true) (hstarted : event.payload.isRunStarted = false)
    (hrun : event.runId = state.runId) (hpositive : 1 ≤ event.sequence)
    (habove : ∀ e ∈ events, e.sequence < event.sequence) :
    readJournalFile (some (events ++ [event])) = some
      { state with events := events ++ [event], projection := project (events ++ [event]) } := by
  obtain ⟨first, rest, rfl, hall, hmonotonic, hfirst, hrest, hruns, hproject, rfl⟩ :=
    readJournalFile_eq_some.mp h
  refine readJournalFile_eq_some.mpr ⟨first, rest ++ [event], rfl, ?_, ?_, hfirst, ?_, ?_, ?_, rfl⟩
  · intro e he
    rcases List.mem_append.mp he with he | he
    · exact hall e he
    · rw [List.mem_singleton.mp he, hsafe]
  · exact monotonic_snoc hmonotonic hpositive (fun _ hn => nomatch hn) habove
  · intro e he
    rcases List.mem_append.mp he with he | he
    · exact hrest e he
    · rw [List.mem_singleton.mp he, hstarted]
  · intro e he
    rcases List.mem_append.mp he with he | he
    · exact hruns e he
    · rw [List.mem_singleton.mp he, hrun]
  · rw [project_snoc]
    exact apply_started _ _ hproject

theorem readJournalFile_start {runId : String} {started : Json}
    (hsafe : started.isSafeJsonValue = true) :
    ∃ state, readJournalFile (some [⟨1, runId, .runStarted started⟩]) = some state ∧
      state.runId = runId := by
  refine ⟨_, readJournalFile_eq_some.mpr ⟨_, [], rfl, ?_, rfl, rfl, ?_, ?_, rfl, rfl⟩, rfl⟩
  · intro e he
    rw [List.mem_singleton.mp he]
    exact hsafe
  · exact fun e he => nomatch he
  · exact fun e he => nomatch he

end Reading

section Runs

/-- `run_started` is written when there is no file, and a later event through a handle whose counter
has reached the number of the last event. -/
def InTurn (s : RunJournal) : RunJournalAction → Prop
  | .create _ _ started => s.file.isNone ∧ started.isSafeJsonValue = true
  | .append handle payload => payload.isSafe = true ∧ payload.isRunStarted = false ∧
      ∀ sequence ∈ s.handles handle, ∀ event ∈ s.file.getD [], event.sequence ≤ sequence
  | _ => True

instance (s : RunJournal) (a : RunJournalAction) : Decidable (InTurn s a) := by
  cases a <;> unfold InTurn <;> infer_instance

/-- The journal of the run can be read, and there is none without a file. -/
structure Resumable (runId : String) (s : RunJournal) : Prop where
  readable : ∀ events, s.file = some events →
    ∃ state, readJournalFile (some events) = some state ∧ state.runId = runId
  handles : ∀ handle sequence, s.handles handle = some sequence → s.file.isSome
  states : ∀ reader state, s.states reader = some state → s.file.isSome

variable {runId : String} {s t : RunJournal}

theorem Resumable.append {handle sequence : ℕ} {payload : PipelineRunPayload}
    (h : Resumable runId s) (hfile : s.file.isSome) (hsafe : payload.isSafe = true)
    (hstarted : payload.isRunStarted = false)
    (habove : ∀ event ∈ s.file.getD [], event.sequence ≤ sequence) :
    Resumable runId (s.append runId handle sequence payload) where
  readable events hevents := by
    obtain ⟨old, hold⟩ := Option.isSome_iff_exists.mp hfile
    obtain ⟨state, hstate, hrun⟩ := h.readable old hold
    rw [hold, Option.getD_some] at habove
    have hnew : events = old ++ [⟨sequence + 1, runId, payload⟩] := by
      simpa [RunJournal.append, appendPipelineJournalEvent, hold, eq_comm] using hevents
    rw [hnew]
    exact ⟨_, readJournalFile_snoc hstate hsafe hstarted hrun.symm (Nat.succ_pos _)
      fun e he => Nat.lt_succ_of_le (habove e he), hrun⟩
  handles _ _ _ := rfl
  states _ _ _ := rfl

theorem Resumable.step {a : RunJournalAction} (h : Resumable runId s) (hok : InTurn s a)
    (hstep : runJournalStep runId s a = some t) : Resumable runId t := by
  cases a with
  | check caller =>
      obtain ⟨-, ht⟩ := Option.ite_none_right_eq_some.mp hstep
      obtain rfl := Option.some.inj ht
      exact { h with }
  | create caller handle started =>
      obtain ⟨-, ht⟩ := Option.ite_none_right_eq_some.mp hstep
      obtain rfl := Option.some.inj ht
      have hnone : s.file = none := Option.isNone_iff_eq_none.mp hok.1
      refine ⟨fun events hevents => ?_, fun _ _ _ => rfl, fun _ _ _ => rfl⟩
      have hnew : events = [⟨1, runId, .runStarted started⟩] := by
        simpa [RunJournal.append, appendPipelineJournalEvent, hnone, eq_comm] using hevents
      rw [hnew]
      exact readJournalFile_start hok.2
  | read reader =>
      obtain ⟨state, hstate, rfl⟩ := Option.map_eq_some_iff.mp hstep
      have hfile : s.file.isSome := by
        cases hfile : s.file with
        | none => simp [hfile, readJournalFile] at hstate
        | some events => rfl
      exact { h with states := fun _ _ _ => hfile }
  | openHandle reader handle =>
      obtain ⟨state, hstate, rfl⟩ := Option.map_eq_some_iff.mp hstep
      exact { h with handles := fun _ _ _ => h.states reader state hstate }
  | append handle payload =>
      obtain ⟨sequence, hsequence, rfl⟩ := Option.map_eq_some_iff.mp hstep
      obtain ⟨hsafe, hstarted, habove⟩ := hok
      exact h.append (h.handles handle sequence hsequence) hsafe hstarted (habove sequence hsequence)

/-- A journal to which the handles append in turn stays readable, and its completed nodes are the
last unredacted completion of each step. -/
theorem run_journal_resumable (h : (runJournal runId).Reach InTurn s)
    {events : List PipelineRunJournalEvent} (hfile : s.file = some events) :
    ∃ state, readJournalFile s.file = some state ∧ state.events = events ∧
      ∀ stepId, state.projection.completedNodes stepId = lastCompletion events stepId := by
  have hinv : Resumable runId s := by
    refine h.invariant (fun s h0 => ?_) fun _ _ _ hs hok hstep => hs.step hok hstep
    obtain rfl : s = {} := h0
    exact ⟨fun _ hevents => (nomatch hevents), fun _ _ hhandle => (nomatch hhandle),
      fun _ _ hstate => (nomatch hstate)⟩
  obtain ⟨state, hstate, -⟩ := hinv.readable events hfile
  obtain ⟨_, _, -, -, -, -, -, -, -, rfl⟩ := readJournalFile_eq_some.mp hstate
  exact ⟨_, hfile ▸ hstate, rfl, fun stepId => project_completedNodes stepId⟩

end Runs

section Races

/-- Two resumes of one suspended run number their events alike, and two creations that both find no
file both write `run_started`: the reader refuses either journal. -/
theorem journal_refused_after_race :
    (∃ s, (runJournal "run").Reachable s ∧ s.file.isSome ∧ (readJournalFile s.file).isNone ∧
      s.handles 1 = some 3 ∧ s.handles 2 = some 3) ∧
    ∃ s, (runJournal "run").Reachable s ∧ (s.file.getD []).length = 2 ∧
      (readJournalFile s.file).isNone := by
  constructor
  · exact System.exists_reachable_of_exec (S := runJournal "run") (s := {})
      [.check 0, .create 0 0 (.obj []), .append 0 (.runSuspended (.obj [])), .read 1, .read 2,
        .openHandle 1 1, .openHandle 2 2, .append 1 (.runResumed (.obj [])),
        .append 2 (.runResumed (.obj []))]
      (fun s => s.file.isSome ∧ (readJournalFile s.file).isNone ∧
        s.handles 1 = some 3 ∧ s.handles 2 = some 3) rfl (by decide +kernel)
  · exact System.exists_reachable_of_exec (S := runJournal "run") (s := {})
      [.check 0, .check 1, .create 0 0 (.obj []), .create 1 1 (.obj [])]
      (fun s => (s.file.getD []).length = 2 ∧ (readJournalFile s.file).isNone) rfl
      (by decide +kernel)

def nodeCompleted (output : String) : PipelineRunPayload :=
  .nodeCompleted { stepId := "a", outputChannelsSnapshot := .obj [("out", .str output)]
                   outputHash := output }

/-- A run that is suspended, resumed by one process and goes on: the later completion counts. -/
theorem run_journal_resumable_resumed : ∃ s events,
    (runJournal "run").Reach InTurn s ∧ s.file = some events ∧ events.length = 5 ∧
    ∃ state, readJournalFile s.file = some state ∧ state.events = events ∧
      ∀ stepId, state.projection.completedNodes stepId = lastCompletion events stepId := by
  obtain ⟨s, hs, hlength⟩ := System.exists_reach_of_execOk (S := runJournal "run")
    (fun s a => decide (InTurn s a)) (s := {})
    [.check 0, .create 0 0 (.obj []), .append 0 (nodeCompleted "first"),
      .append 0 (.runSuspended (.obj [])), .read 1, .openHandle 1 1,
      .append 1 (.runResumed (.obj [])), .append 1 (nodeCompleted "second")]
    (fun s => (s.file.map List.length) = some 5) rfl (by decide +kernel)
  obtain ⟨events, hfile, hevents⟩ := Option.map_eq_some_iff.mp hlength
  have hreach := hs.mono fun _ _ h => of_decide_eq_true h
  exact ⟨s, events, hreach, hfile, hevents, run_journal_resumable hreach hfile⟩

end Races

end Kyberion.Pipeline
