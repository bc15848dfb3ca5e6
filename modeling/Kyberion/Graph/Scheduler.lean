import Kyberion.Pipeline.Step
import Kyberion.Tool.Claims
import Kyberion.Transition
import Mathlib.Algebra.Order.Floor.Ring
import Mathlib.Data.Rat.Floor

/-!
`executeGraph`: the frontier loop over the nodes of an execution graph. A handler is a promise in
its slot; it ends when it ends, and the loop takes the ends in any order.
-/

namespace Kyberion.Graph

open Kyberion.Pipeline (GraphNode)
open Kyberion.Tool Transition

inductive OutcomeStatus
  | success | failed | skipped
  deriving DecidableEq

inductive GraphNodeStatus
  | pending | running
  | terminal (status : OutcomeStatus)
  deriving DecidableEq

structure GraphExecutionOutcome (C : Type) where
  status : OutcomeStatus
  context : Option C := none
  error : Option String := none
  deriving DecidableEq

inductive GraphClaim
  | opaque_ (name : String)
  | typed (claim : ResourceClaim)
  deriving DecidableEq

/-- An opaque claim cannot be proven disjoint from a typed one. -/
def graphClaimsConflict : GraphClaim → GraphClaim → Bool
  | .opaque_ left, .opaque_ right =>
      left = right || left = "resource:all" || right = "resource:all"
  | .typed left, .typed right => resourceClaimsConflict left right
  | _, _ => true

theorem graphClaimsConflict_comm (left right : GraphClaim) :
    graphClaimsConflict left right = graphClaimsConflict right left := by
  cases left with
  | opaque_ l =>
      cases right with
      | opaque_ r => simp only [graphClaimsConflict, eq_comm (a := l), Bool.or_right_comm]
      | typed r => rfl
  | typed l =>
      cases right with
      | opaque_ r => rfl
      | typed r => exact resourceClaimsConflict_comm l r

inductive MaxConcurrency
  | unset
  | finite (q : ℚ)
  | unbounded

/-- `Math.max(1, Math.floor(maxConcurrency || 1))`; `none` is `Infinity`. -/
def MaxConcurrency.limit : MaxConcurrency → Option ℕ
  | .unset => some 1
  | .finite q => some (max 1 ⌊if q = 0 then 1 else q⌋).toNat
  | .unbounded => none

/-- The three ways in which a result joins the context without a `mergeContext` of the caller. -/
structure ContextMerge (C : Type) where
  last : C → C → C
  namespace_ : String → C → C → C
  collect : String → C → C → C

structure GraphExecutionOptions (V C : Type) where
  maxConcurrency : MaxConcurrency := .unset
  initialContext : C
  precompletedNodeIds : List String := []
  precompletedNodeContext : GraphNode V → Option C := fun _ => none
  preskippedNodeIds : List String := []
  evaluateWhen : V → C → Bool := fun _ _ => true
  resourceClaims : GraphNode V → C → List GraphClaim := fun _ _ => []
  mergeContext : Option (C → C → GraphNode V → GraphExecutionOutcome C → C) := none
  merge : ContextMerge C

/-- How the promise of a handler ends. -/
inductive HandlerEnd (C : Type)
  | returned (outcome : GraphExecutionOutcome C)
  | threw (message : String)
  | suspended
  deriving DecidableEq

/-- An entry of `active`: the claims of the node, and how its promise has ended. -/
structure Slot (C : Type) where
  id : String
  claims : List GraphClaim
  ended : Option (HandlerEnd C) := none

/-- Where the loop stands: at its top, in the race, or how it has ended. -/
inductive LoopPhase
  | looping | racing | returned | deadlocked | suspended
  deriving DecidableEq

/-- Calls of the handler with the context they are given, ends of its promises and calls of
`onNodeSettled`. -/
inductive SchedulerEvent (C : Type)
  | started (id : String) (context : C)
  | ended (id : String) (end_ : HandlerEnd C)
  | reported (id : String) (outcome : GraphExecutionOutcome C)
  deriving DecidableEq

structure Scheduler (C : Type) where
  context : C
  statuses : String → Option GraphNodeStatus
  outcomes : String → Option (GraphExecutionOutcome C) := fun _ => none
  active : List (Slot C) := []
  claimsInUse : List GraphClaim := []
  phase : LoopPhase := .looping
  log : List (SchedulerEvent C) := []

variable {V C : Type}

namespace Scheduler

variable (s : Scheduler C)

def setStatus (id : String) (status : GraphNodeStatus) : Scheduler C :=
  { s with statuses := fun other => if other = id then some status else s.statuses other }

/-- The outcome of a node is stored and reported. -/
def settleNode (id : String) (outcome : GraphExecutionOutcome C) : Scheduler C :=
  { s.setStatus id (.terminal outcome.status) with
    outcomes := fun other => if other = id then some outcome else s.outcomes other
    log := s.log ++ [.reported id outcome] }

def isTerminal (id : String) : Bool :=
  s.statuses id = some (.terminal .success) || s.statuses id = some (.terminal .failed) ||
    s.statuses id = some (.terminal .skipped)

def canClaim (claims : List GraphClaim) : Bool :=
  claims.all fun claim => s.claimsInUse.all fun inUse => !graphClaimsConflict claim inUse

/-- The handler of a node is called with the context as it is. -/
def dispatch (id : String) (claims : List GraphClaim) : Scheduler C :=
  { s.setStatus id .running with
    active := s.active ++ [{ id, claims }]
    claimsInUse := s.claimsInUse ++ claims
    log := s.log ++ [.started id s.context] }

end Scheduler

variable (options : GraphExecutionOptions V C) (nodes : List (GraphNode V))

section Opening

/-- How the outcome of a restored node joins the context. -/
def restoredContext (current next : C) (node : GraphNode V) (outcome : GraphExecutionOutcome C) : C :=
  match options.mergeContext with
  | some mergeContext => mergeContext current next node outcome
  | none =>
      if node.merge = .namespace_ then options.merge.namespace_ node.id current next
      else options.merge.last current next

def precomplete (s : Scheduler C) (id : String) : Scheduler C :=
  match nodes.find? fun node => node.id = id with
  | none => s
  | some node =>
      if s.statuses id = some .pending then
        let next := (options.precompletedNodeContext node).getD s.context
        let outcome : GraphExecutionOutcome C := { status := .success, context := some next }
        { s.settleNode id outcome with
          context := restoredContext options s.context next node outcome }
      else s

def preskip (s : Scheduler C) (id : String) : Scheduler C :=
  if s.statuses id = some .pending then
    s.settleNode id { status := .skipped, error := some "pre-existing blocked node" }
  else s

/-- `executeGraph` up to its loop. -/
def openScheduler : Scheduler C :=
  let s : Scheduler C := {
    context := options.initialContext
    statuses := fun id => if id ∈ nodes.map (·.id) then some .pending else none }
  options.preskippedNodeIds.foldl preskip
    (options.precompletedNodeIds.foldl (precomplete options nodes) s)

end Opening

section Loop

/-- What one pass does with one node, when it does something. -/
def dispatchNode (s : Scheduler C) (node : GraphNode V) : Option (Scheduler C) :=
  if s.statuses node.id ≠ some .pending ∨
      (options.maxConcurrency.limit.any fun limit => limit ≤ s.active.length) then none
  else if (node.dependencies.all s.isTerminal) = false then none
  else if node.dependencies.any fun id =>
      s.statuses id = some (.terminal .failed) || s.statuses id = some (.terminal .skipped) then
    some (s.settleNode node.id
      { status := .skipped, error := some "blocked by a failed or skipped dependency" })
  else if node.when_.any fun condition => !options.evaluateWhen condition.condition s.context then
    some (s.settleNode node.id
      { status := .skipped, error := some "when condition evaluated to false" })
  else
    let claims := options.resourceClaims node s.context
    if s.canClaim claims then some (s.dispatch node.id claims) else none

/-- One pass over the nodes, and whether it progressed. -/
def dispatchPass (s : Scheduler C) : Scheduler C × Bool :=
  nodes.foldl (fun (s, progressed) node =>
    match dispatchNode options s node with
    | none => (s, progressed)
    | some s => (s, true)) (s, false)

def hasUnsettled (s : Scheduler C) : Bool :=
  nodes.any fun node => s.statuses node.id = some .pending || s.statuses node.id = some .running

/-- One round of the loop up to the race. -/
def schedule (s : Scheduler C) : Scheduler C :=
  if hasUnsettled nodes s then
    let (s, progressed) := dispatchPass options nodes s
    if s.active ≠ [] then { s with phase := .racing }
    else if progressed then s
    else { s with phase := .deadlocked }
  else { s with phase := .returned }

/-- How the outcome of a completed node joins the context. -/
def completedContext (current next : C) (node : GraphNode V) (outcome : GraphExecutionOutcome C) :
    C :=
  match options.mergeContext with
  | some mergeContext => mergeContext current next node outcome
  | none =>
      match node.merge with
      | .namespace_ => options.merge.namespace_ node.id current next
      | .collect => options.merge.collect node.id current next
      | .last => options.merge.last current next

/-- `promise.catch`: what a rejection that is not a suspension comes to. -/
def HandlerEnd.outcome : HandlerEnd C → Option (GraphExecutionOutcome C)
  | .returned outcome => some outcome
  | .threw message => some { status := .failed, error := some message }
  | .suspended => none

/-- The round after the race: the slot is given back, the outcome reported and merged. -/
def completeNode (s : Scheduler C) (slot : Slot C) (outcome : GraphExecutionOutcome C) :
    Scheduler C :=
  let s := { s with
    active := s.active.filter fun other => other.id ≠ slot.id
    claimsInUse := slot.claims.foldl List.erase s.claimsInUse }
  let s := s.settleNode slot.id outcome
  match outcome.context, nodes.find? fun node => node.id = slot.id with
  | some next, some node =>
      { s with context := completedContext options s.context next node outcome, phase := .looping }
  | _, _ => { s with phase := .looping }

def Scheduler.endSlot (s : Scheduler C) (id : String) (end_ : HandlerEnd C) : Scheduler C :=
  { s with
    active := s.active.map fun slot => if slot.id = id then { slot with ended := some end_ } else slot
    log := s.log ++ [.ended id end_] }

inductive SchedulerAction (C : Type)
  | schedule
  | finish (id : String) (end_ : HandlerEnd C)
  | race (id : String)

def Scheduler.slot (s : Scheduler C) (id : String) : Option (Slot C) :=
  s.active.find? fun slot => slot.id = id

def executeGraphStep (s : Scheduler C) : SchedulerAction C → Option (Scheduler C)
  | .schedule => if s.phase = .looping then some (schedule options nodes s) else none
  | .finish id end_ =>
      match s.slot id with
      | some slot => if slot.ended.isNone then some (s.endSlot id end_) else none
      | none => none
  | .race id =>
      if s.phase = .racing then
        (s.slot id).bind fun slot => slot.ended.map fun end_ =>
          match end_.outcome with
          | some outcome => completeNode options nodes s slot outcome
          | none => { s with phase := .suspended }
      else none

/-- One call of `executeGraph`. -/
def executeGraph : System (Scheduler C) (SchedulerAction C) where
  init s := s = openScheduler options nodes
  step := executeGraphStep options nodes

end Loop

end Kyberion.Graph
