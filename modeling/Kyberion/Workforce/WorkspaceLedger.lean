import Kyberion.Js.Throw
import Kyberion.Transition
import Mathlib.Data.List.Infix
import Mathlib.Logic.Function.Basic

/-!
The ledger of workspaces. Registrations, releases and annotations rewrite it under its lock. A
deletion checks the record under the lock, removes the path without it, and takes it once more to
drop the record.
-/

namespace Kyberion.Workforce

open Js

/-- A canonical path, by its segments. -/
abbrev WorkspacePath := List String

inductive WorkspaceKind
  | gitWorktree | scratchDir | gitIndex
  deriving DecidableEq

structure WorkspaceOwner where
  missionId : Option String := none
  taskId : Option String := none
  sessionId : Option String := none
  deriving DecidableEq

structure PendingSharedIndexReconcile where
  repoRoot : WorkspacePath
  fromSha : Option String
  deriving DecidableEq

structure WorkspaceRecord where
  id : String
  path : WorkspacePath
  kind : WorkspaceKind
  owner : WorkspaceOwner
  repoRoot : Option WorkspacePath := none
  createdAt : String
  live : Bool
  releasedAt : Option String := none
  bytes : Option ℤ := none
  pid : Option ℤ := none
  pidStartedAt : Option String := none
  childPid : Option ℤ := none
  childStartedAt : Option String := none
  pendingReconcile : Option PendingSharedIndexReconcile := none
  deriving DecidableEq

/-- The outer option of `pendingReconcile` is the presence of the field, the inner one is `null`. -/
structure WorkspaceAnnotation where
  bytes : Option ℤ := none
  childPid : Option ℤ := none
  childStartedAt : Option String := none
  pendingReconcile : Option (Option PendingSharedIndexReconcile) := none

/-- `path` and `repoRoot` are what the location checks made of the given ones. -/
structure RegisterWorkspaceInput where
  path : WorkspacePath
  kind : WorkspaceKind
  owner : WorkspaceOwner
  repoRoot : Option WorkspacePath := none
  bytes : Option ℤ := none
  pid : Option ℤ := none
  pidStartedAt : Option String := none

structure WorkspaceRecordSnapshot where
  live : Bool
  createdAt : String
  releasedAt : Option String
  childPid : Option ℤ
  childStartedAt : Option String
  hasPendingReconcile : Bool
  deriving DecidableEq

structure DeleteWorkspaceGuard where
  expect : Option WorkspaceRecordSnapshot := none
  requireCleanWorktree : Bool := false

inductive WorkspaceError
  | kindConflict | changed | dirty | notRegistered | path

def isPathInsideOrEqual (parent candidate : WorkspacePath) : Prop :=
  parent <+: candidate

instance (parent candidate : WorkspacePath) : Decidable (isPathInsideOrEqual parent candidate) :=
  inferInstanceAs (Decidable (parent <+: candidate))

section Ledger

variable (records : List WorkspaceRecord)

def cleanOwner (owner : WorkspaceOwner) : WorkspaceOwner where
  missionId := owner.missionId.filter (· ≠ "")
  taskId := owner.taskId.filter (· ≠ "")
  sessionId := owner.sessionId.filter (· ≠ "")

def processPid (input : RegisterWorkspaceInput) : Option ℤ :=
  input.pid.filter fun pid => 0 < pid

def processStart (input : RegisterWorkspaceInput) : Option String :=
  if (processPid input).isSome then input.pidStartedAt.filter (· ≠ "") else none

def registeredRepoRoot (input : RegisterWorkspaceInput) : Option WorkspacePath :=
  if input.kind = .gitWorktree then input.repoRoot else none

def reactivated (existing : WorkspaceRecord) (input : RegisterWorkspaceInput) : WorkspaceRecord :=
  { existing with
    owner := cleanOwner input.owner
    live := true
    repoRoot := registeredRepoRoot input <|> existing.repoRoot
    bytes := input.bytes <|> existing.bytes
    releasedAt := none
    pid := processPid input
    pidStartedAt := processStart input
    childPid := none
    childStartedAt := none }

def registered (id : String) (input : RegisterWorkspaceInput) (now : String) :
    WorkspaceRecord where
  id
  path := input.path
  kind := input.kind
  owner := cleanOwner input.owner
  repoRoot := registeredRepoRoot input
  createdAt := now
  live := true
  bytes := input.bytes
  pid := processPid input
  pidStartedAt := processStart input

/-- `records.map((record) => (record.id === id ? replacement : record))` -/
def replaceRecord (replacement : WorkspaceRecord) : List WorkspaceRecord :=
  records.map fun record => if record.id = replacement.id then replacement else record

def registerWithId (id : String) (input : RegisterWorkspaceInput) (now : String) :
    Except WorkspaceError (List WorkspaceRecord × WorkspaceRecord) :=
  match records.find? fun record => record.path = input.path with
  | some existing =>
      throwIf (existing.kind ≠ input.kind) .kindConflict <|
        .ok (replaceRecord records (reactivated existing input), reactivated existing input)
  | none => .ok (records ++ [registered id input now], registered id input now)

def findRecord (id : String) : Option WorkspaceRecord :=
  records.find? fun record => record.id = id

def released (existing : WorkspaceRecord) (now : String) (bytes : Option ℤ) : WorkspaceRecord :=
  { existing with live := false, releasedAt := some now, bytes := bytes <|> existing.bytes }

def releaseWorkspace (id now : String) (bytes : Option ℤ) :
    List WorkspaceRecord × Option WorkspaceRecord :=
  match findRecord records id with
  | none => (records, none)
  | some existing =>
      if existing.live then
        (replaceRecord records (released existing now bytes), some (released existing now bytes))
      else (records, some existing)

def annotated (existing : WorkspaceRecord) (update : WorkspaceAnnotation) : WorkspaceRecord :=
  let child := update.childPid.filter fun pid => 0 < pid
  { existing with
    bytes := update.bytes.filter (fun bytes => 0 ≤ bytes) <|> existing.bytes
    childPid := child <|> existing.childPid
    childStartedAt :=
      if child.isSome then update.childStartedAt.filter (· ≠ "") else existing.childStartedAt
    pendingReconcile := update.pendingReconcile.getD existing.pendingReconcile }

def annotateWorkspace (id : String) (update : WorkspaceAnnotation) :
    List WorkspaceRecord × Option WorkspaceRecord :=
  match findRecord records id with
  | none => (records, none)
  | some existing => (replaceRecord records (annotated existing update),
      some (annotated existing update))

def workspaceRecordSnapshot (record : WorkspaceRecord) : WorkspaceRecordSnapshot where
  live := record.live
  createdAt := record.createdAt
  releasedAt := record.releasedAt
  childPid := record.childPid
  childStartedAt := record.childStartedAt
  hasPendingReconcile := record.pendingReconcile.isSome

/-- `resolved` is what the location checks make of the path of the record now, `none` when they
throw; `unsaved` is the work that the probe finds in a worktree that exists. -/
def probeWorktreeBeforeLock (id : String) (guard : DeleteWorkspaceGuard)
    (resolved : Option WorkspacePath) (unsaved : Option String) :
    Except WorkspaceError (Option WorkspaceRecordSnapshot) :=
  if guard.requireCleanWorktree then
    match (findRecord records id).filter fun record => record.kind = .gitWorktree with
    | none => .ok none
    | some record =>
        throwIf (∃ expected ∈ guard.expect, workspaceRecordSnapshot record ≠ expected) .changed <|
          match resolved with
          | none => .error .path
          | some resolved => throwIf (resolved = record.path ∧ unsaved.isSome) .dirty <|
              .ok (some (workspaceRecordSnapshot record))
  else .ok none

/-- The first locked phase of `deleteRegisteredWorkspace`. -/
def stageDelete (id : String) (guard : DeleteWorkspaceGuard)
    (probed : Option WorkspaceRecordSnapshot) (resolved : Option WorkspacePath) :
    Except WorkspaceError WorkspaceRecord :=
  match findRecord records id with
  | none => .error .notRegistered
  | some record =>
      throwIf (∃ expected ∈ guard.expect, workspaceRecordSnapshot record ≠ expected) .changed <|
        throwIf (guard.requireCleanWorktree ∧ record.kind = .gitWorktree ∧
            probed ≠ some (workspaceRecordSnapshot record)) .changed <|
          throwIf (resolved ≠ some record.path) .path <| .ok record

/-- The second locked phase. -/
def dropRecord (staged : WorkspaceRecord) : List WorkspaceRecord :=
  records.filter fun record => ¬ (record.id = staged.id ∧ record.path = staged.path)

end Ledger

/-- What the removal finds: whether the path is there, whether it is a link, whether this process
is on the owner path, and whether git succeeds. -/
structure Disk where
  present : Bool
  symbolicLink : Bool
  ownerPath : Bool
  gitSucceeds : Bool

inductive Removal
  | missing | refused | failed | removed
  deriving DecidableEq

def removeWorkspaceFromDisk (record : WorkspaceRecord) (disk : Disk) : Removal :=
  if !disk.present then .missing
  else if disk.symbolicLink then .refused
  else if record.kind = .gitWorktree then
    if !disk.ownerPath then .refused
    else if disk.gitSucceeds then .removed else .failed
  else .removed

/-- Whether anything on the disk goes; git may fail halfway. -/
def Removal.deletes : Removal → Bool
  | .failed | .removed => true
  | .missing | .refused => false

/-- `removedFromDisk` of a removal that returns. -/
def Removal.returned : Removal → Option Bool
  | .missing => some false
  | .removed => some true
  | .refused | .failed => none

/-- A guard with the snapshot of a released record. -/
structure ReleasedGuard where
  expect : WorkspaceRecordSnapshot
  requireCleanWorktree : Bool := false
  released : expect.live = false
  deriving DecidableEq

def ReleasedGuard.toGuard (guard : ReleasedGuard) : DeleteWorkspaceGuard where
  expect := some guard.expect
  requireCleanWorktree := guard.requireCleanWorktree

/-- How far a call of `deleteRegisteredWorkspace` is. -/
inductive DeleteCall
  | called (id : String) (guard : ReleasedGuard)
  | probed (id : String) (guard : ReleasedGuard) (snapshot : Option WorkspaceRecordSnapshot)
  | staged (record : WorkspaceRecord)
  | removed (record : WorkspaceRecord) (removedFromDisk : Bool)
  deriving DecidableEq

/-- The record of a deletion between its two locked phases. -/
def DeleteCall.record : DeleteCall → Option WorkspaceRecord
  | .called _ _ | .probed _ _ _ => none
  | .staged record | .removed record _ => some record

/-- `issued` are the ids that were drawn; `C` names the calls of all processes. -/
structure WorkspaceLedger (C : Type) where
  records : List WorkspaceRecord
  issued : List String
  deletes : C → Option DeleteCall

inductive WorkspaceAction (C : Type)
  | registerWorkspace (id : String) (input : RegisterWorkspaceInput) (now : String)
  | releaseWorkspace (id now : String) (bytes : Option ℤ)
  | annotateWorkspace (id : String) (update : WorkspaceAnnotation)
  | deleteRegisteredWorkspace (call : C) (id : String) (guard : ReleasedGuard)
  | probe (call : C) (resolved : Option WorkspacePath) (unsaved : Option String)
  | validate (call : C) (resolved : Option WorkspacePath)
  | remove (call : C) (disk : Disk)
  | drop (call : C)

namespace WorkspaceLedger

variable {C : Type} [DecidableEq C] (s : WorkspaceLedger C)

def setDelete (call : C) (phase : Option DeleteCall) : WorkspaceLedger C :=
  { s with deletes := Function.update s.deletes call phase }

@[simp] theorem setDelete_records (call : C) (phase : Option DeleteCall) :
    (s.setDelete call phase).records = s.records :=
  rfl

@[simp] theorem setDelete_issued (call : C) (phase : Option DeleteCall) :
    (s.setDelete call phase).issued = s.issued :=
  rfl

theorem setDelete_deletes (call : C) (phase : Option DeleteCall) :
    (s.setDelete call phase).deletes = Function.update s.deletes call phase :=
  rfl

/-- A registration that throws has drawn its id. -/
def register (id : String) (input : RegisterWorkspaceInput) (now : String) : WorkspaceLedger C :=
  { s with
    records := commit s.records ((registerWithId s.records id input now).map Prod.fst)
    issued := id :: s.issued }

end WorkspaceLedger

/-- A random id was not drawn before; a call that throws is over. -/
def workspaceLedger (C : Type) [DecidableEq C] :
    Transition.System (WorkspaceLedger C) (WorkspaceAction C) where
  init s := s.records = [] ∧ ∀ call, (s.deletes call).isNone
  step s
    | .registerWorkspace id input now =>
        if id ∉ s.issued then some (s.register id input now) else none
    | .releaseWorkspace id now bytes =>
        some { s with records := (releaseWorkspace s.records id now bytes).1 }
    | .annotateWorkspace id update =>
        some { s with records := (annotateWorkspace s.records id update).1 }
    | .deleteRegisteredWorkspace call id guard =>
        if (s.deletes call).isNone then some (s.setDelete call (some (.called id guard))) else none
    | .probe call resolved unsaved =>
        match s.deletes call with
        | some (.called id guard) =>
            some (s.setDelete call <| Except.toOption <|
              (probeWorktreeBeforeLock s.records id guard.toGuard resolved unsaved).map
                (.probed id guard))
        | _ => none
    | .validate call resolved =>
        match s.deletes call with
        | some (.probed id guard snapshot) =>
            some (s.setDelete call <| Except.toOption <|
              (stageDelete s.records id guard.toGuard snapshot resolved).map .staged)
        | _ => none
    | .remove call disk =>
        match s.deletes call with
        | some (.staged record) =>
            some (s.setDelete call
              ((removeWorkspaceFromDisk record disk).returned.map (.removed record)))
        | _ => none
    | .drop call =>
        match s.deletes call with
        | some (.removed record _) =>
            some { s.setDelete call none with records := dropRecord s.records record }
        | _ => none

end Kyberion.Workforce
