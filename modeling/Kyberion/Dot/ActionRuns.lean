import Kyberion.Dot.ActionLedger
import Kyberion.Transition

/-!
Processes that append action records, decline recovered actions and migrate legacy rows: one step for
each lock taken and each write. A crash releases what a process holds and leaves its writes.
-/

namespace Kyberion.Dot

open Js (throwIf)

/-- An `appendActionRecord` under way; `recovering` holds the call it is part of. -/
structure Frame (D : Type) where
  record : DotActionRecord D
  recovering : Option (DotActionRecord D × RecoveryReceipt D) := none

/-- Where a process stands. The fence is the dispatch lock of a binding. -/
inductive Phase (D : Type)
  | idle
  | append (frame : Frame D)
  | fenced (frame : Frame D)
  | locked (frame : Frame D)
  | scopedAppend (frame : Frame D) (file : String)
  | indexAppend (frame : Frame D) (row : DotActionRecord D)
  | decline (expected : DotActionRecord D) (receipt : RecoveryReceipt D)
  | declineFenced (expected : DotActionRecord D) (receipt : RecoveryReceipt D)
  | declineReadback (expected : DotActionRecord D) (receipt : RecoveryReceipt D)
  | migrate (charter : DotCharter)
  | migrating (charter : DotCharter) (rest done : List (DotActionRecord D)) (migrated : Bool)

/-- `fences` is keyed by the work item of the binding; `seen` holds what was read as current. -/
structure Runs (D : Type) where
  files : Ledger D
  ledger : Option ℕ := none
  fences : String → Option ℕ := fun _ => none
  phase : ℕ → Phase D := fun _ => .idle
  seen : List (String × DotActionRecord D) := []

inductive Label (D : Type)
  | append (p : ℕ) (record : DotActionRecord D)
  | decline (p : ℕ) (expected : DotActionRecord D) (receipt : RecoveryReceipt D)
  | migrate (p : ℕ) (charter : DotCharter) (authorized : Bool)
  | fence (p : ℕ)
  | lock (p : ℕ)
  | check (p : ℕ) (nhi : Option String) (request : FrontDeskRequest D)
  | guard (p : ℕ) (nhi : Option String)
  | scopedAppend (p : ℕ)
  | indexAppend (p : ℕ)
  | migrateRow (p : ℕ)
  | migrateWrite (p : ℕ)
  | readback (p : ℕ)
  | read (nhi : Option String) (dotId : String)
  | crash (p : ℕ)

namespace Runs

variable {D : Type} (s : Runs D) (p : ℕ)

def enter (phase : Phase D) : Runs D :=
  { s with phase := Function.update s.phase p phase }

def releaseLedger : Runs D :=
  { s with ledger := if s.ledger = some p then none else s.ledger }

/-- Releases the fences of a process, but for one. -/
def releaseFences (kept : Option String) : Runs D :=
  { s with fences := fun key =>
      if s.fences key = some p ∧ kept ≠ some key then none else s.fences key }

/-- The call of a process returns, throws or dies. -/
def stop : Runs D :=
  ((s.releaseLedger p).releaseFences p none).enter p .idle

end Runs

def fenceKey (binding : Option FrontDeskExecutionBinding) : Option String :=
  binding.map (·.workItemId)

section Steps

variable {D : Type} [DecidableEq D] (host : Host D) (s : Runs D) (p : ℕ)

/-- An append returns, to the call it is part of. -/
def finishAppend (frame : Frame D) : Runs D :=
  match frame.recovering with
  | none => s.stop p
  | some (expected, receipt) =>
      ((s.releaseLedger p).releaseFences p (fenceKey expected.frontDeskExecution)).enter p
        (.declineReadback expected receipt)

/-- `withFrontDeskDispatchLock`, on the way into a phase. -/
def takeFence (binding : Option FrontDeskExecutionBinding) (next : Phase D) : Option (Runs D) :=
  match binding with
  | none => some (s.enter p next)
  | some binding =>
      if host.parseBinding binding then
        match s.fences binding.workItemId with
        | none => some (Runs.enter
            { s with fences := Function.update s.fences binding.workItemId (some p) } p next)
        | some holder => if holder = p then some (s.enter p next) else none
      else some (s.stop p)

def takeLedger (next : Runs D → Runs D) : Option (Runs D) :=
  if s.ledger = none then some (next { s with ledger := some p }) else none

def step : Label D → Option (Runs D)
  | .append p record =>
      match s.phase p with
      | .idle => some (if (assertAppendable host record).isOk then
          s.enter p (.append { record := record }) else s)
      | _ => none
  | .decline p expected receipt =>
      match s.phase p with
      | .idle => some (if recoveryMatches host expected receipt then
          s.enter p (.decline expected receipt) else s)
      | _ => none
  | .migrate p charter authorized =>
      match s.phase p with
      | .idle => some (if authorized then s.enter p (.migrate charter) else s)
      | _ => none
  | .fence p =>
      match s.phase p with
      | .append frame =>
          takeFence host s p frame.record.frontDeskExecution (.fenced frame)
      | .decline expected receipt =>
          takeFence host s p expected.frontDeskExecution (.declineFenced expected receipt)
      | _ => none
  | .lock p =>
      match s.phase p with
      | .fenced frame => takeLedger s p fun s => s.enter p (.locked frame)
      | .migrate charter => takeLedger s p fun s =>
          -- a line that does not parse ends the read
          if s.files.index.all Option.isSome then
            s.enter p (.migrating charter s.files.rows [] false)
          else s.stop p
      | _ => none
  | .check p nhi request =>
      match s.phase p with
      | .declineFenced expected receipt =>
          match declineStep host nhi s.files expected receipt request with
          | .ok (.append record) =>
              some (s.enter p (.append { record := record, recovering := some (expected, receipt) }))
          | _ => some (s.stop p)
      | _ => none
  | .guard p nhi =>
      match s.phase p with
      | .locked frame =>
          match appendStep host nhi s.files frame.record with
          | .ok (.returned _) => some (finishAppend s p frame)
          | .ok (.scopedFile file) => some (s.enter p (.scopedAppend frame file))
          | .ok .shared => some (s.enter p (.indexAppend frame frame.record))
          | .error _ => some (s.stop p)
      | _ => none
  | .scopedAppend p =>
      match s.phase p with
      | .scopedAppend frame file =>
          some (Runs.enter { s with files := s.files.appendScoped file frame.record } p
            (.indexAppend frame (actionIndex host frame.record)))
      | _ => none
  | .indexAppend p =>
      match s.phase p with
      | .indexAppend frame row =>
          some (finishAppend { s with files := s.files.appendIndex row } p frame)
      | _ => none
  | .migrateRow p =>
      match s.phase p with
      | .migrating charter (row :: rest) done migrated =>
          match migrateRow host charter row with
          | .ok none => some (s.enter p (.migrating charter rest (done ++ [row]) migrated))
          | .ok (some (file, full)) =>
              some (Runs.enter { s with files := s.files.appendScoped file full } p
                (.migrating charter rest (done ++ [migratedRow host charter row]) true))
          | .error _ => some (s.stop p)
      | _ => none
  | .migrateWrite p =>
      match s.phase p with
      | .migrating _ [] done migrated =>
          some (Runs.stop (if migrated then
            { s with files := { s.files with index := done.map some } } else s) p)
      | _ => none
  | .readback p =>
      match s.phase p with
      | .declineReadback _ _ => some (s.stop p)
      | _ => none
  | .read nhi dotId =>
      match currentDotActions host nhi s.files dotId with
      | .ok actions => some { s with seen := s.seen ++ actions.map fun row => (dotId, row) }
      | .error _ => some s
  | .crash p => some (s.stop p)

end Steps

/-- Any ledger to begin with, and no call under way. -/
def actionRuns {D : Type} [DecidableEq D] (host : Host D) :
    Transition.System (Runs D) (Label D) where
  init s := s.ledger = none ∧ (∀ key, s.fences key = none) ∧ (∀ p, s.phase p = .idle) ∧ s.seen = []
  step := step host

/-- The records of the action carry its binding; a receipt in one was read with the action. -/
def carriesBinding {D : Type} [DecidableEq D] (dotId actionRef : String)
    (binding : FrontDeskExecutionBinding) (s : Runs D) : Label D → Bool
  | .append _ record =>
      !(record.dotId = dotId && record.actionRef = actionRef) ||
        (record.frontDeskExecution = some binding &&
          (record.recoveryReceipt.isNone || s.seen.any fun (asked, known) =>
            asked = dotId && known.actionRef = actionRef &&
              known.recoveryReceipt = record.recoveryReceipt))
  | .decline _ expected _ =>
      !(expected.dotId = dotId && expected.actionRef = actionRef) ||
        expected.frontDeskExecution = some binding
  | _ => true

end Kyberion.Dot
