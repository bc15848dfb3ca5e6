import Kyberion.FifoSemaphore
import Kyberion.Js.Text
import Kyberion.Transition
import Mathlib.Logic.Function.Basic

/-!
The slots of delegations: a place of the process, and inside it a place of the provider. Each
continuation that the event loop runs is a step of its own.
-/

namespace Kyberion.Delegation.Slots

open Js FifoSemaphore Transition

/-- Caps, which the readers of the environment keep positive. -/
structure Caps where
  global : ℕ
  provider : String → ℕ
  global_pos : 0 < global
  provider_pos : ∀ name, 0 < provider name

/-- `SlotState`; `arrived` and `served` are kept by the model only. -/
structure SlotState where
  semaphore : Semaphore ℕ
  active : ℕ := 0
  queued : ℕ := 0
  arrived : List ℕ := []
  served : List ℕ := []

/-- Where a call of `withDelegationSlot` stands. `granted…` has its place but has not gone on,
`ended` has counted itself out of the provider, `returned` has given the provider's place back and
`unwound` has counted itself out of the process. -/
inductive Phase
  | waitingGlobal
  | grantedGlobal
  | waitingProvider
  | grantedProvider
  | running
  | settled
  | ended
  | returned
  | unwound
  | done
  deriving DecidableEq

structure SlotCall where
  provider : String
  phase : Phase
  deriving DecidableEq

structure World where
  global : SlotState
  providers : String → SlotState
  calls : ℕ → Option SlotCall := fun _ => none

inductive Action
  | enter (id : ℕ) (provider : Option String)
  | settle (id : ℕ)
  | advance (id : ℕ)
  deriving DecidableEq

namespace SlotState

/-- `withSlot` up to its first `await`, and whether the place has been granted at once. -/
def enter (state : SlotState) (id : ℕ) : SlotState × Bool :=
  let acquired := state.semaphore.acquire id
  ({ state with
      semaphore := acquired.1, queued := state.queued + 1, arrived := state.arrived ++ [id],
      served := if acquired.2 then state.served ++ [id] else state.served }, acquired.2)

/-- The continuation of a granted place. -/
def begin_ (state : SlotState) : SlotState :=
  { state with queued := state.queued - 1, active := state.active + 1 }

/-- The inner `finally`. -/
def end_ (state : SlotState) : SlotState :=
  { state with active := state.active - 1 }

/-- The outer `finally`, and the waiter that gets the place. -/
def release (state : SlotState) : SlotState × Option ℕ :=
  let released := state.semaphore.release
  ({ state with semaphore := released.1, served := state.served ++ released.2.toList }, released.2)

end SlotState

namespace World

variable (w : World)

def goTo (id : ℕ) (c : SlotCall) (phase : Phase) : World :=
  { w with calls := Function.update w.calls id (some { c with phase }) }

def setProvider (name : String) (state : SlotState) : World :=
  { w with providers := Function.update w.providers name state }

/-- A waiter whose place has come. -/
def wake (phase : Phase) : Option ℕ → World
  | none => w
  | some id =>
      match w.calls id with
      | some c => w.goTo id c phase
      | none => w

end World

def unknownDelegationProvider : String := "unknown"

/-- `opts.provider?.trim() || 'unknown'` -/
def providerName (provider : Option String) : String :=
  orElse (provider.map trim) unknownDelegationProvider

def callStep (w : World) (id : ℕ) (c : SlotCall) : Phase → Option World
  | .grantedGlobal =>
      let entered := (w.providers c.provider).enter id
      some (({ w with global := w.global.begin_ }.setProvider c.provider entered.1).goTo id c
        (if entered.2 then .grantedProvider else .waitingProvider))
  | .grantedProvider =>
      some ((w.setProvider c.provider (w.providers c.provider).begin_).goTo id c .running)
  | .settled => some ((w.setProvider c.provider (w.providers c.provider).end_).goTo id c .ended)
  | .ended =>
      let released := (w.providers c.provider).release
      some (((w.setProvider c.provider released.1).goTo id c .returned).wake .grantedProvider
        released.2)
  | .returned => some ({ w with global := w.global.end_ }.goTo id c .unwound)
  | .unwound =>
      let released := w.global.release
      some (({ w with global := released.1 }.goTo id c .done).wake .grantedGlobal released.2)
  | _ => none

variable (caps : Caps)

def initial : World where
  global := { semaphore := { limit := caps.global } }
  providers name := { semaphore := { limit := caps.provider name } }

/-- Calls of one process, in any order of their continuations. -/
def slots : Transition.System World Action where
  init w := w = initial caps
  step w
    | .enter id provider =>
        if w.calls id = none then
          let entered := w.global.enter id
          some ({ w with global := entered.1 }.goTo id ⟨providerName provider, .waitingGlobal⟩
            (if entered.2 then .grantedGlobal else .waitingGlobal))
        else none
    | .settle id =>
        match w.calls id with
        | some c => if c.phase = .running then some (w.goTo id c .settled) else none
        | none => none
    | .advance id => (w.calls id).bind fun c => callStep w id c c.phase

end Kyberion.Delegation.Slots
