import Kyberion.Transition
import Kyberion.Workforce.StateJournal
import Mathlib.Logic.Function.Basic

/-!
Journal objects of any processes over one file. A call reads its number before
it takes the writer lease; a compaction call holds the compaction lock from its
check to its end. A crash may leave the last line without its newline or cut it
short, and the next append then runs into that line.
-/

namespace Kyberion.Workforce

open Transition

/-- The lines of the file; `none` is a line that is not a record. -/
structure JournalFile where
  lines : List (Option JournalEventEnvelope) := []
  /-- The last line, when its newline is missing. -/
  tail : Option (Option JournalEventEnvelope) := none
  deriving DecidableEq

namespace JournalFile

/-- The records on the lines that have their newline. -/
def ended (file : JournalFile) : List JournalEventEnvelope :=
  file.lines.filterMap id

/-- `readJournal`: lines that are no record are skipped. -/
def events (file : JournalFile) : List JournalEventEnvelope :=
  file.ended ++ file.tail.join.toList

/-- `appendJsonLine` -/
def append (file : JournalFile) (event : JournalEventEnvelope) : JournalFile :=
  match file.tail with
  | none => ⟨file.lines ++ [some event], none⟩
  | some _ => ⟨file.lines ++ [none], none⟩

/-- An append cut short; `line` is what its text reads as by itself. -/
def appendCut (file : JournalFile) (line : Option JournalEventEnvelope) : JournalFile :=
  match file.tail with
  | none => ⟨file.lines, some line⟩
  | some _ => ⟨file.lines, some none⟩

end JournalFile

/-- How much of its line a crashed append has written. -/
inductive Cut
  | nothing | part | allButNewline | all
  deriving DecidableEq

/-- Where a call stands. `counted` is the number of landed records right after its own write. -/
inductive Phase
  | idle
  | compacting (receipt : CompactionSnapshotReceipt)
  | checked (receipt : CompactionSnapshotReceipt)
  | appending (op : WorkerOp) (compaction : Bool)
  | written (op : WorkerOp) (compaction : Bool) (counted : ℕ)

/-- A journal object; `synced` is the number of landed records when its number was last right. -/
structure WorkerStateJournal where
  seqLoaded : Bool := false
  seq : ℕ := 0
  phase : Phase := .idle
  synced : ℕ := 0

structure JournalWorld where
  file : JournalFile := {}
  journals : ℕ → WorkerStateJournal := fun _ => {}
  lock : Option ℕ := none
  usedIds : List String := []
  /-- The receipts of the calls that have returned. -/
  succeeded : List CompactionSnapshotReceipt := []
  /-- How many records have been appended on a line of their own. -/
  landed : ℕ := 0

inductive JournalAction
  | append (i : ℕ) (op : WorkerOp)
  | recordCompaction (i : ℕ) (receipt : CompactionSnapshotReceipt)
  | check (i : ℕ)
  | reload (i : ℕ)
  | write (i : ℕ) (ts : String)
  | finish (i : ℕ)
  | throw (i : ℕ)
  | restore (i : ℕ)
  | crash (i : ℕ) (cut : Cut) (ts : String)

/-- The call holds the compaction lock. -/
def Phase.locks : Phase → Bool
  | .idle => false
  | .compacting _ | .checked _ => true
  | .appending _ compaction | .written _ compaction _ => compaction

/-- `this.seq = this.readJournal().maxSeq + 1` -/
def WorkerStateJournal.load (journal : WorkerStateJournal) (file : JournalFile) (landed : ℕ) :
    WorkerStateJournal :=
  { journal with seqLoaded := true, seq := nextSeq file.events, synced := landed }

def WorkerStateJournal.ensureSeqLoaded (journal : WorkerStateJournal) (file : JournalFile)
    (landed : ℕ) : WorkerStateJournal :=
  if journal.seqLoaded then journal else journal.load file landed

namespace JournalWorld

variable (w : JournalWorld)

def set (i : ℕ) (journal : WorkerStateJournal) : JournalWorld :=
  { w with journals := Function.update w.journals i journal }

/-- The call of a journal ends and gives up the lock that it holds. -/
def leave (i : ℕ) (journal : WorkerStateJournal) : JournalWorld :=
  { w.set i { journal with phase := .idle } with
    lock := if (w.journals i).phase.locks then none else w.lock }

/-- The record of a line of its own; a record that runs into an unended line is lost. -/
def land : JournalWorld :=
  { w with landed := if w.file.tail.isNone then w.landed + 1 else w.landed }

def appendEvent (event : JournalEventEnvelope) : JournalWorld :=
  { w.land with file := w.file.append event }

/-- What a crashed append leaves behind. -/
def appendCut (event : JournalEventEnvelope) : Cut → JournalWorld
  | .nothing => w
  | .part => { w with file := w.file.appendCut none }
  | .allButNewline => { w.land with file := w.file.appendCut (some event) }
  | .all => w.appendEvent event

/-- The receipt of a call that returns. -/
def succeed (op : WorkerOp) (compaction : Bool) : JournalWorld :=
  match op, compaction with
  | .compactionCommit receipt, true => { w with succeeded := w.succeeded ++ [receipt] }
  | _, _ => w

end JournalWorld

variable (isUuid : String → Bool)

/-- `append` up to the writer lease. -/
def JournalWorld.startAppend (w : JournalWorld) (i : ℕ) (op : WorkerOp) : JournalWorld :=
  let journal := (w.journals i).ensureSeqLoaded w.file w.landed
  if op.valid isUuid then w.set i { journal with phase := .appending op false } else w.set i journal

def workerJournals : System JournalWorld JournalAction where
  init w := w = {}
  step w
    | .append i op =>
        match (w.journals i).phase with
        | .idle => some (w.startAppend isUuid i op)
        | _ => none
    | .recordCompaction i receipt =>
        match (w.journals i).phase with
        | .idle =>
            if w.lock = none ∧ receipt.id ∉ w.usedIds then
              some { w.set i { w.journals i with phase := .compacting receipt } with
                lock := some i
                usedIds := receipt.id :: w.usedIds }
            else none
        | _ => none
    | .check i =>
        match (w.journals i).phase with
        | .compacting receipt =>
            match checkCompaction isUuid w.file.events receipt with
            | .ok _ => some (w.set i { w.journals i with phase := .checked receipt })
            | .error _ => some (w.leave i (w.journals i))
        | _ => none
    | .reload i =>
        match (w.journals i).phase with
        | .checked receipt => some (w.set i { (w.journals i).load w.file w.landed with
            phase := .appending (.compactionCommit receipt) true })
        | _ => none
    | .write i ts =>
        match (w.journals i).phase with
        | .appending op compaction =>
            let w' := w.appendEvent ⟨(w.journals i).seq, ts, op⟩
            some (w'.set i { w.journals i with phase := .written op compaction w'.landed })
        | _ => none
    | .finish i =>
        match (w.journals i).phase with
        | .written op compaction counted =>
            some ((w.leave i { w.journals i with
              seq := (w.journals i).seq + 1
              synced := counted }).succeed op compaction)
        | _ => none
    | .throw i =>
        match (w.journals i).phase with
        | .idle => none
        | _ => some (w.leave i (w.journals i))
    | .restore i =>
        match (w.journals i).phase with
        | .idle => some (w.set i ((w.journals i).load w.file w.landed))
        | _ => none
    | .crash i cut ts =>
        match (w.journals i).phase with
        | .appending op _ => some ((w.appendCut ⟨(w.journals i).seq, ts, op⟩ cut).leave i {})
        | _ => some (w.leave i {})

end Kyberion.Workforce
