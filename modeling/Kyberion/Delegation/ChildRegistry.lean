import Kyberion.Transition
import Mathlib.Logic.Function.Basic

/-!
The registry of active delegation children. Every process keeps its own children in memory and
numbers them with its own counter; all of them read and rewrite one file as a whole.
-/

namespace Kyberion.Delegation

/-- `process` is the process that the child belongs to. -/
structure DelegationChildRecord (P : Type) where
  id : String
  provider : String
  pid : Option ℕ := none
  startedAt : String
  deadlineAt : String
  budgetMs : ℕ
  pidStartedAt : Option String := none
  process : P
  deriving DecidableEq

/-- What a registration is given; its id is the default one. -/
structure ChildInput where
  provider : String
  pid : Option ℕ := none
  startedAt : String
  deadlineAt : String
  budgetMs : ℕ
  pidStartedAt : Option String := none

/-- A call between its read of the file and its write. -/
inductive PendingWrite (P : Type)
  | register (record : DelegationChildRecord P) (seen : List (DelegationChildRecord P))
  | unregister (id : String) (seen : List (DelegationChildRecord P))
  deriving DecidableEq

/-- `registered` are the children whose registration is written and whose unregistration is not. -/
structure ChildRegistry (P : Type) where
  file : List (DelegationChildRecord P)
  idCounter : P → ℕ
  activeChildren : P → List (DelegationChildRecord P)
  pending : P → Option (PendingWrite P)
  registered : List (P × String)

inductive ChildAction (P : Type)
  | register (process : P) (child : ChildInput)
  | renew (process : P) (id deadlineAt : String)
  | unregister (process : P) (id : String)
  | write (process : P)

namespace DelegationChildRecord

variable {P : Type}

def child (record : DelegationChildRecord P) : P × String :=
  (record.process, record.id)

end DelegationChildRecord

def ChildInput.record {P : Type} (child : ChildInput) (process : P) (count : ℕ) :
    DelegationChildRecord P where
  id := child.provider ++ "-" ++ toString count
  provider := child.provider
  pid := child.pid
  startedAt := child.startedAt
  deadlineAt := child.deadlineAt
  budgetMs := child.budgetMs
  pidStartedAt := child.pidStartedAt
  process

/-- `records.filter((r) => r.id !== id)` -/
def withoutId {P : Type} (id : String) (records : List (DelegationChildRecord P)) :
    List (DelegationChildRecord P) :=
  records.filter fun record => record.id ≠ id

namespace ChildRegistry

variable {P : Type} [DecidableEq P]

/-- The part of `registerActiveChild` before the write. -/
def registerActiveChild (s : ChildRegistry P) (record : DelegationChildRecord P) :
    ChildRegistry P :=
  { s with
    activeChildren := Function.update s.activeChildren record.process
      (withoutId record.id (s.activeChildren record.process) ++ [record])
    pending := Function.update s.pending record.process (some (.register record s.file)) }

def startUnregister (s : ChildRegistry P) (process : P) (id : String) : ChildRegistry P :=
  { s with
    activeChildren := Function.update s.activeChildren process
      (withoutId id (s.activeChildren process))
    pending := Function.update s.pending process (some (.unregister id s.file)) }

def unregisterUnwritten (s : ChildRegistry P) (process : P) (id : String) : ChildRegistry P :=
  { s with
    activeChildren := Function.update s.activeChildren process
      (withoutId id (s.activeChildren process))
    registered := s.registered.filter fun child => child ≠ (process, id) }

/-- The part of `unregisterActiveChild` before the write; a file without the id is not written. -/
def unregisterActiveChild (s : ChildRegistry P) (process : P) (id : String) : ChildRegistry P :=
  if (s.activeChildren process).any fun record => record.id = id then
    if (withoutId id s.file).length ≠ s.file.length then s.startUnregister process id
    else s.unregisterUnwritten process id
  else s

def writePersistedRegistry (s : ChildRegistry P) (process : P) :
    PendingWrite P → ChildRegistry P
  | .register record seen =>
      { s with
        file := withoutId record.id seen ++ [record]
        pending := Function.update s.pending process none
        registered := s.registered.insert record.child }
  | .unregister id seen =>
      { s with
        file := withoutId id seen
        pending := Function.update s.pending process none
        registered := s.registered.filter fun child => child ≠ (process, id) }

section Fields

variable (s : ChildRegistry P) (record : DelegationChildRecord P) (process : P) (id : String)

theorem registerActiveChild_pending : (s.registerActiveChild record).pending =
    Function.update s.pending record.process (some (.register record s.file)) :=
  rfl

theorem registerActiveChild_activeChildren : (s.registerActiveChild record).activeChildren =
    Function.update s.activeChildren record.process
      (withoutId record.id (s.activeChildren record.process) ++ [record]) :=
  rfl

theorem startUnregister_pending : (s.startUnregister process id).pending =
    Function.update s.pending process (some (.unregister id s.file)) :=
  rfl

theorem startUnregister_activeChildren : (s.startUnregister process id).activeChildren =
    Function.update s.activeChildren process (withoutId id (s.activeChildren process)) :=
  rfl

theorem writePersistedRegistry_pending (write : PendingWrite P) :
    (s.writePersistedRegistry process write).pending =
      Function.update s.pending process none := by
  cases write <;> rfl

theorem writePersistedRegistry_activeChildren (write : PendingWrite P) :
    (s.writePersistedRegistry process write).activeChildren = s.activeChildren := by
  cases write <;> rfl

end Fields

end ChildRegistry

/-- Any processes, each with one call at a time, whose reads and writes of the file interleave. -/
def childRegistry (P : Type) [DecidableEq P] : Transition.System (ChildRegistry P) (ChildAction P)
    where
  init s := s.file = [] ∧ (∀ p, s.idCounter p = 0) ∧ (∀ p, s.activeChildren p = []) ∧
    (∀ p, (s.pending p).isNone) ∧ s.registered = []
  step s
    | .register p child =>
        if (s.pending p).isNone then
          some (({ s with
            idCounter := Function.update s.idCounter p (s.idCounter p + 1) } :
              ChildRegistry P).registerActiveChild (child.record p (s.idCounter p + 1)))
        else none
    | .renew p id deadlineAt =>
        if (s.pending p).isNone then
          ((s.activeChildren p).find? fun record => record.id = id).map fun record =>
            s.registerActiveChild { record with deadlineAt, process := p }
        else none
    | .unregister p id =>
        if (s.pending p).isNone then some (s.unregisterActiveChild p id) else none
    | .write p => (s.pending p).map (s.writePersistedRegistry p)

end Kyberion.Delegation
