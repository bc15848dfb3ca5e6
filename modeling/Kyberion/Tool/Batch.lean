import Kyberion.Tool.Claims
import Kyberion.Transition
import Mathlib.Logic.Function.Basic

/-!
`runToolCallBatch`: the calls of a batch start when the calls that they conflict with are done, or
one by one when any of them claims everything. A call works on a state of its own and on a store of
places in steps of its own, and its promise settles with an outcome.
-/

namespace Kyberion.Tool

open Transition

variable {L P V R : Type}

def callsConflict (a b : List ResourceClaim) : Bool :=
  a.any fun claimA => b.any fun claimB => resourceClaimsConflict claimA claimB

def hasAllClaim (claims : List ResourceClaim) : Bool :=
  claims.any (· = .all)

/-- `run()` begins in `init`, goes on by `act`, and settles when there is an `outcome`. -/
structure ScheduledCall (L P V R : Type) where
  claims : List ResourceClaim
  init : L
  act : L → (P → V) → L × (P → V)
  outcome : L → Option R

/-- A step of the call, none once its promise has settled. -/
def ScheduledCall.step (call : ScheduledCall L P V R) (l : L) (store : P → V) : L × (P → V) :=
  if (call.outcome l).isSome then (l, store) else call.act l store

inductive CallPhase
  | waiting | running | settled
  deriving DecidableEq

inductive BatchEvent
  | started (i : ℕ)
  | ended (i : ℕ)
  deriving DecidableEq

structure Batch (L P V R : Type) where
  /-- The call that the loop has come to. -/
  next : ℕ := 0
  phase : ℕ → CallPhase := fun _ => .waiting
  locals : ℕ → L
  store : P → V
  results : List (Option R)
  returned : Option (List (Option R)) := none
  log : List BatchEvent := []
  acts : List ℕ := []

inductive BatchAction
  | launch
  | openGate (i : ℕ)
  | act (i : ℕ)
  | settle (i : ℕ)
  | finish

variable (calls : List (ScheduledCall L P V R))

def claimsOf (i : ℕ) : List ResourceClaim :=
  (calls[i]?.map (·.claims)).getD []

/-- The calls whose gates the call waits for. -/
def deps (i : ℕ) : List ℕ :=
  (List.range i).filter fun j => callsConflict (claimsOf calls i) (claimsOf calls j)

/-- Whether any call claims everything. -/
def strictlySerial : Bool :=
  calls.any fun call => hasAllClaim call.claims

def Batch.start (b : Batch L P V R) (i : ℕ) : Batch L P V R :=
  { b with phase := Function.update b.phase i .running, log := b.log ++ [.started i] }

/-- A step of a running call has its effect. -/
def Batch.act (b : Batch L P V R) (i : ℕ) (call : ScheduledCall L P V R) : Batch L P V R :=
  { b with
    locals := Function.update b.locals i (call.step (b.locals i) b.store).1
    store := (call.step (b.locals i) b.store).2
    acts := b.acts ++ [i] }

def Batch.settle (b : Batch L P V R) (i : ℕ) (outcome : R) : Batch L P V R :=
  { b with
    phase := Function.update b.phase i .settled
    results := b.results.set i (some outcome)
    log := b.log ++ [.ended i] }

/-- The loop comes to its next call: strictly serial it waits for the calls before, otherwise it
makes the gate of the call and goes on. -/
def launch (b : Batch L P V R) : Option (Batch L P V R) :=
  if b.next < calls.length then
    let advanced := { b with next := b.next + 1 }
    if strictlySerial calls then
      if ∀ j ∈ List.range b.next, b.phase j = .settled then some (advanced.start b.next) else none
    else if deps calls b.next = [] then
      some (advanced.start b.next)
    else some advanced
  else none

/-- All the gates that the call waits for have opened. -/
def openGate (b : Batch L P V R) (i : ℕ) : Option (Batch L P V R) :=
  if strictlySerial calls = false ∧ i < b.next ∧ b.phase i = .waiting ∧
      ∀ j ∈ deps calls i, b.phase j = .settled then
    some (b.start i)
  else none

def actOnce (b : Batch L P V R) (i : ℕ) : Option (Batch L P V R) :=
  match calls[i]? with
  | none => none
  | some call =>
      if b.phase i = .running then some (b.act i call) else none

/-- `results[i] = await settle(calls[i])` -/
def settle (b : Batch L P V R) (i : ℕ) : Option (Batch L P V R) :=
  match calls[i]? with
  | none => none
  | some call =>
      match call.outcome (b.locals i) with
      | none => none
      | some outcome =>
          if b.phase i = .running then some (b.settle i outcome) else none

def finish (b : Batch L P V R) : Option (Batch L P V R) :=
  if b.next = calls.length ∧ (∀ j ∈ List.range b.next, b.phase j = .settled) ∧ b.returned = none then
    some { b with returned := some b.results }
  else none

def batchStep (b : Batch L P V R) : BatchAction → Option (Batch L P V R)
  | .launch => launch calls b
  | .openGate i => openGate calls b i
  | .act i => actOnce calls b i
  | .settle i => settle calls b i
  | .finish => finish calls b

/-- Where the calls begin. -/
def initialLocals [Inhabited L] (i : ℕ) : L :=
  (calls[i]?.map (·.init)).getD default

def openBatch [Inhabited L] (store : P → V) : Batch L P V R :=
  { locals := initialLocals calls, store := store
    results := List.replicate calls.length none }

/-- One call of `runToolCallBatch` on a store. -/
def runToolCallBatch [Inhabited L] (store : P → V) : System (Batch L P V R) BatchAction where
  init b := b = openBatch calls store
  step := batchStep calls

section Claims

theorem callsConflict_comm (a b : List ResourceClaim) : callsConflict a b = callsConflict b a := by
  rw [Bool.eq_iff_iff]
  simp only [callsConflict, List.any_eq_true]
  constructor
  · rintro ⟨x, hx, y, hy, h⟩
    exact ⟨y, hy, x, hx, resourceClaimsConflict_comm x y ▸ h⟩
  · rintro ⟨y, hy, x, hx, h⟩
    exact ⟨x, hx, y, hy, resourceClaimsConflict_comm y x ▸ h⟩

theorem mem_deps {i j : ℕ} : j ∈ deps calls i ↔
    j < i ∧ callsConflict (claimsOf calls i) (claimsOf calls j) = true := by
  simp [deps]

variable {calls} in
theorem claimsOf_of_length_le {i : ℕ} (h : calls.length ≤ i) : claimsOf calls i = [] := by
  rw [claimsOf, List.getElem?_eq_none h]
  rfl

end Claims

section Steps

variable {calls} {b t : Batch L P V R} {i : ℕ}

@[simp] theorem start_phase :
    (b.start i).phase = Function.update b.phase i .running := rfl

@[simp] theorem start_log : (b.start i).log = b.log ++ [.started i] := rfl

@[simp] theorem start_next : (b.start i).next = b.next := rfl

@[simp] theorem act_locals {call : ScheduledCall L P V R} : (b.act i call).locals =
    Function.update b.locals i (call.step (b.locals i) b.store).1 := rfl

@[simp] theorem act_phase {call : ScheduledCall L P V R} : (b.act i call).phase = b.phase := rfl

@[simp] theorem act_acts {call : ScheduledCall L P V R} : (b.act i call).acts = b.acts ++ [i] := rfl

@[simp] theorem settle_phase {outcome : R} :
    (b.settle i outcome).phase = Function.update b.phase i .settled := rfl

@[simp] theorem settle_results {outcome : R} :
    (b.settle i outcome).results = b.results.set i (some outcome) := rfl

@[simp] theorem settle_log {outcome : R} :
    (b.settle i outcome).log = b.log ++ [.ended i] := rfl

/-- Call `j` waits for call `i` before it. -/
def WaitsFor (calls : List (ScheduledCall L P V R)) (j i : ℕ) : Prop :=
  i < j ∧ (strictlySerial calls = true ∨
    callsConflict (claimsOf calls j) (claimsOf calls i) = true)

def GateOpen (calls : List (ScheduledCall L P V R)) (b : Batch L P V R) (j : ℕ) : Prop :=
  ∀ i, WaitsFor calls j i → b.phase i = .settled

theorem launch_cases (h : launch calls b = some t) : b.next < calls.length ∧
    ((GateOpen calls b b.next ∧ t = ({ b with next := b.next + 1 } : Batch L P V R).start b.next) ∨
      (strictlySerial calls = false ∧ t = { b with next := b.next + 1 })) := by
  unfold launch at h
  dsimp only at h
  split at h
  · rename_i hlt
    refine ⟨hlt, ?_⟩
    split at h
    · split at h
      · rename_i hall
        exact .inl ⟨fun j hj => hall j (List.mem_range.mpr hj.1), (Option.some.inj h).symm⟩
      · cases h
    · rename_i hserial
      split at h
      · rename_i hdeps
        refine .inl ⟨fun j ⟨hj, hor⟩ => ?_, (Option.some.inj h).symm⟩
        have hmem := (mem_deps calls).mpr ⟨hj, hor.resolve_left hserial⟩
        simp [hdeps] at hmem
      · exact .inr ⟨by simpa using hserial, (Option.some.inj h).symm⟩
  · cases h

theorem launch_of_settled (hlt : b.next < calls.length)
    (hall : ∀ j < b.next, b.phase j = .settled) : ∃ t, launch calls b = some t := by
  have hsettled : ∀ j ∈ List.range b.next, b.phase j = .settled :=
    fun j hj => hall j (List.mem_range.mp hj)
  simp only [launch, if_pos hlt, if_pos hsettled]
  split
  · exact ⟨_, rfl⟩
  · split <;> exact ⟨_, rfl⟩

theorem openGate_cases (h : openGate calls b i = some t) :
    i < b.next ∧ b.phase i = .waiting ∧ GateOpen calls b i ∧ t = b.start i := by
  obtain ⟨⟨hserial, hlt, hwaiting, hdeps⟩, ht⟩ := Option.ite_none_right_eq_some.mp h
  refine ⟨hlt, hwaiting, fun j ⟨hj, hor⟩ => ?_, (Option.some.inj ht).symm⟩
  rcases hor with hor | hor
  · simp [hserial] at hor
  · exact hdeps j ((mem_deps calls).mpr ⟨hj, hor⟩)

theorem actOnce_cases (h : actOnce calls b i = some t) : ∃ call, calls[i]? = some call ∧
    b.phase i = .running ∧ t = b.act i call := by
  unfold actOnce at h
  split at h
  · cases h
  · rename_i call hcall
    obtain ⟨hrunning, ht⟩ := Option.ite_none_right_eq_some.mp h
    exact ⟨call, hcall, hrunning, (Option.some.inj ht).symm⟩

theorem settle_cases (h : settle calls b i = some t) : ∃ call outcome, calls[i]? = some call ∧
    call.outcome (b.locals i) = some outcome ∧ b.phase i = .running ∧
    t = b.settle i outcome := by
  unfold settle at h
  split at h
  · cases h
  · rename_i call hcall
    split at h
    · cases h
    · rename_i outcome houtcome
      obtain ⟨hrunning, ht⟩ := Option.ite_none_right_eq_some.mp h
      exact ⟨call, outcome, hcall, houtcome, hrunning, (Option.some.inj ht).symm⟩

theorem finish_cases (h : finish calls b = some t) : b.next = calls.length ∧
    (∀ j < b.next, b.phase j = .settled) ∧ t = { b with returned := some b.results } := by
  obtain ⟨⟨hnext, hall, -⟩, ht⟩ := Option.ite_none_right_eq_some.mp h
  exact ⟨hnext, fun j hj => hall j (List.mem_range.mpr hj), (Option.some.inj ht).symm⟩

end Steps

end Kyberion.Tool
