import Kyberion.Js.Json
import Kyberion.Transition
import Mathlib.Logic.Function.Basic

/-!
The journal of a pipeline run: the reader that refuses what it cannot resume from, and handles that
number the events they append from a counter of their own. Payloads have passed the schema of their
event and are as the file gives them back.
-/

namespace Kyberion.Pipeline

open Js Transition

structure PipelineRunNodeCompletedPayload where
  stepId : String
  outputChannelsSnapshot : Json
  controlStateSnapshot : Option Json := none
  redactedChannels : List String := []
  outputHash : String

inductive PipelineRunPayload
  | runStarted (started : Json)
  | runResumed (payload : Json)
  | runSuspended (suspended : Json)
  | nodeCompleted (node : PipelineRunNodeCompletedPayload)
  | nodeFailed (payload : Json)
  | runFinished (finished : Json)

structure PipelineRunJournalEvent where
  sequence : ℕ
  runId : String
  payload : PipelineRunPayload

def PipelineRunPayload.isRunStarted : PipelineRunPayload → Bool
  | .runStarted _ => true
  | _ => false

/-- No key of the payload is one that the parser of the lines refuses. -/
def PipelineRunPayload.isSafe : PipelineRunPayload → Bool
  | .runStarted payload | .runResumed payload | .runSuspended payload | .nodeFailed payload
  | .runFinished payload => payload.isSafeJsonValue
  | .nodeCompleted node =>
      node.outputChannelsSnapshot.isSafeJsonValue &&
        node.controlStateSnapshot.all Json.isSafeJsonValue

section Projection

structure PipelineJournalProjection where
  started : Option Json := none
  completedNodes : String → Option PipelineRunNodeCompletedPayload := fun _ => none
  suspended : Option Json := none
  finished : Option Json := none

/-- The operations of the kernel. -/
def PipelineJournalProjection.apply (state : PipelineJournalProjection) :
    PipelineRunPayload → PipelineJournalProjection
  | .runStarted started => { state with started := some started }
  | .runResumed _ => { state with suspended := none }
  | .runSuspended suspended => { state with suspended := some suspended }
  | .nodeCompleted node =>
      if node.redactedChannels ≠ [] then state
      else { state with completedNodes := Function.update state.completedNodes node.stepId (some node) }
  | .nodeFailed _ => state
  | .runFinished finished => { state with finished := some finished }

def project (events : List PipelineRunJournalEvent) : PipelineJournalProjection :=
  events.foldl (fun state event => state.apply event.payload) {}

end Projection

section Reader

structure PipelineRunJournalState where
  runId : String
  events : List PipelineRunJournalEvent
  projection : PipelineJournalProjection

/-- The loop over the rows: numbers from one on, each above the one before. -/
def monotonic : Option ℕ → List PipelineRunJournalEvent → Bool
  | _, [] => true
  | previous, event :: rest =>
      1 ≤ event.sequence && previous.all (· < event.sequence) &&
        monotonic (some event.sequence) rest

/-- `readJournalFile`, none when it throws. -/
def readJournalFile (file : Option (List PipelineRunJournalEvent)) :
    Option PipelineRunJournalState :=
  match file with
  | none => none
  | some events =>
      if !events.all (·.payload.isSafe) then none
      else if !monotonic none events then none
      else match events with
        | [] => none
        | first :: rest =>
            if !first.payload.isRunStarted || rest.any (·.payload.isRunStarted) then none
            else if rest.any (·.runId ≠ first.runId) then none
            else if (project events).started.isNone then none
            else some { runId := first.runId, events := events, projection := project events }

end Reader

section Handles

/-- The journal of one run id, and who works on it. -/
structure RunJournal where
  file : Option (List PipelineRunJournalEvent) := none
  /-- The calls that have found no file and are about to write `run_started`. -/
  creating : ℕ → Bool := fun _ => false
  /-- The states read. -/
  states : ℕ → Option PipelineRunJournalState := fun _ => none
  /-- The counters of the handles. -/
  handles : ℕ → Option ℕ := fun _ => none

inductive RunJournalAction
  | check (caller : ℕ)
  | create (caller handle : ℕ) (started : Json)
  | read (reader : ℕ)
  | openHandle (reader handle : ℕ)
  | append (handle : ℕ) (payload : PipelineRunPayload)

variable (runId : String)

/-- `appendPipelineJournalEvent`, under the writer lease. -/
def appendPipelineJournalEvent (file : Option (List PipelineRunJournalEvent)) (sequence : ℕ)
    (payload : PipelineRunPayload) : Option (List PipelineRunJournalEvent) :=
  some (file.getD [] ++ [{ sequence := sequence, runId := runId, payload := payload }])

def RunJournal.append (s : RunJournal) (handle sequence : ℕ) (payload : PipelineRunPayload) :
    RunJournal :=
  { s with
    file := appendPipelineJournalEvent runId s.file (sequence + 1) payload
    handles := Function.update s.handles handle (some (sequence + 1)) }

/-- The highest number of a state. -/
def maxSequence (events : List PipelineRunJournalEvent) : ℕ :=
  events.foldl (fun max event => Nat.max max event.sequence) 0

def runJournalStep (s : RunJournal) : RunJournalAction → Option RunJournal
  | .check caller =>
      if s.file.isNone then some { s with creating := Function.update s.creating caller true }
      else none
  | .create caller handle started =>
      if s.creating caller then
        some { s.append runId handle 0 (.runStarted started) with
          creating := Function.update s.creating caller false }
      else none
  | .read reader =>
      (readJournalFile s.file).map fun state =>
        { s with states := Function.update s.states reader (some state) }
  | .openHandle reader handle =>
      (s.states reader).map fun state =>
        { s with handles := Function.update s.handles handle (some (maxSequence state.events)) }
  | .append handle payload =>
      (s.handles handle).map fun sequence => s.append runId handle sequence payload

/-- Any creations, readings, handles and appends on a run id that has no journal at the start. -/
def runJournal : System RunJournal RunJournalAction where
  init s := s = {}
  step := runJournalStep runId

end Handles

end Kyberion.Pipeline
