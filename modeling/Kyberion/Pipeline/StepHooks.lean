import Kyberion.Pipeline.Engine

/-!
The hooks around the steps of a pipeline that runs one step after another. A run
waits on the runs that its handlers and its recovery open, so the runs under way
are a stack. Every answer of a handler or a hook is in the label of a transition.
-/

namespace Kyberion.Pipeline

open Transition

variable {Ctx V : Type}

/-- What the variable `ctx` holds. -/
inductive Slot (Ctx : Type)
  | context (ctx : Ctx)
  | nothing
  /-- The promise that a hook has answered, itself. -/
  | promise (answer : Option Ctx)

/-- What an `await` makes of it. -/
def Slot.awaited : Slot Ctx → Slot Ctx
  | .promise (some ctx) => .context ctx
  | .promise none => .nothing
  | slot => slot

inductive HookEvent (Ctx V : Type)
  /-- `executeAdfStepsInternal` has been called with a copy of a context. -/
  | entered (seed : Ctx)
  | beforeStep (step : AdfStep V) (ctx : Slot Ctx)
  /-- The call of the hook, and what it yields. -/
  | afterStep (step : AdfStep V) (ctx : Slot Ctx) (answer : Option Ctx)

/-- What a step hands on: what its hook yields, or its own context. -/
def handsOn (own : Slot Ctx) (answer : Option Ctx) : Slot Ctx :=
  answer.elim own .context

/-- A log of hook calls, newest first, in which the calls pair in last-in-first-out order, and
each step starts with the context that the call or the step before it hands on. It comes with the
steps whose calls are open and with the context that a next step is to start with. -/
inductive Nested : List (HookEvent Ctx V) → List (AdfStep V) → Option (Slot Ctx) → Prop
  | empty : Nested [] [] none
  | entered {log : List (HookEvent Ctx V)} {opened : List (AdfStep V)}
      {expected : Option (Slot Ctx)} (seed : Ctx) (h : Nested log opened expected) :
      Nested (.entered seed :: log) opened (some (.context seed))
  | beforeStep {log : List (HookEvent Ctx V)} {opened : List (AdfStep V)} {ctx : Slot Ctx}
      (step : AdfStep V) (h : Nested log opened (some ctx)) :
      Nested (.beforeStep step ctx :: log) (step :: opened) none
  | afterStep {log : List (HookEvent Ctx V)} {opened : List (AdfStep V)} {step : AdfStep V}
      {expected : Option (Slot Ctx)} (own : Slot Ctx) (answer : Option Ctx)
      (h : Nested log (step :: opened) expected) :
      Nested (.afterStep step own answer :: log) opened (some (handsOn own answer))

section Model

/-- What the engine asks of contexts and of the references of a recovery. -/
structure HookEngine (Ctx V : Type) where
  /-- `ctx.__adf_terminal === true` -/
  adfTerminal : Ctx → Bool
  /-- `{ ...ctx, _error: { message, step_id, step_op } }` -/
  withError : Slot Ctx → String → AdfStep V → Ctx
  /-- `resolveRef`; the context is the one that the fallback starts with. -/
  resolveRef : String → V → Slot Ctx → Except String (List (AdfStep V) × Slot Ctx)

/-- The variables of a call of `executeAdfStepsInternal`. -/
structure Loop (Ctx V : Type) where
  ctx : Slot Ctx
  results : List PipelineStepResult := []
  todo : List (AdfStep V)

inductive Stage (V : Type)
  | ready
  | handling (step : AdfStep V)
  | observing (step : AdfStep V) (observed : Observed)

def Stage.step? : Stage V → Option (AdfStep V)
  | .ready => none
  | .handling step | .observing step _ => some step

/-- A call that waits for the call that the handler of its step has made, or that recovers from
the error of its step. -/
structure Caller (Ctx V : Type) where
  loop : Loop Ctx V
  step : AdfStep V
  error : Option Err

/-- The call that goes on, until the outermost one has settled, and those that wait for it. -/
structure HookWorld (Ctx V : Type) where
  current : Option (Loop Ctx V × Stage V)
  callers : List (Caller Ctx V) := []
  log : List (HookEvent Ctx V)

/-- The steps between their hooks, the innermost first. -/
def HookWorld.underWay (w : HookWorld Ctx V) : List (AdfStep V) :=
  (w.current.bind fun (_, stage) => stage.step?).toList ++ w.callers.map (·.step)

namespace Loop

variable (loop : Loop Ctx V) (step : AdfStep V)

def push (status : StepStatus) (error : Option String := none) : Loop Ctx V :=
  { loop with results := loop.results ++ [⟨step.op, status, error⟩] }

/-- The step has failed for good. -/
def failStep (error : Err) : Loop Ctx V × Stage V :=
  (loop.push step .failed (some error.message), .observing step .failed)

def recoverStep (error : Err) (ctx : Slot Ctx) : Loop Ctx V × Stage V :=
  ({ loop.push step .recovered with ctx }, .observing step (.recovered error))

end Loop

/-- The call that goes on has settled with its status and its context, or has thrown. -/
def settle (w : HookWorld Ctx V) (outcome : Except Err (PipelineStatus × Slot Ctx)) :
    HookWorld Ctx V :=
  match w.callers with
  | [] => { w with current := none }
  | caller :: callers =>
      let current := match caller.error, outcome with
        | none, _ => (caller.loop, .handling caller.step)
        | some error, .ok (.succeeded, ctx) => caller.loop.recoverStep caller.step error ctx.awaited
        | some error, _ => caller.loop.failStep caller.step error
      { w with current := some current, callers }

def finish (w : HookWorld Ctx V) (loop : Loop Ctx V) : HookWorld Ctx V :=
  settle w (.ok (derivePipelineStatus loop.results, loop.ctx))

/-- A call of `executeAdfStepsInternal` that the current one waits for. -/
def call (w : HookWorld Ctx V) (caller : Caller Ctx V) (steps : List (AdfStep V)) (seed : Ctx) :
    HookWorld Ctx V where
  current := some (⟨.context seed, [], steps⟩, .ready)
  callers := caller :: w.callers
  log := .entered seed :: w.log

variable (engine : HookEngine Ctx V)

/-- The `catch` of a step. -/
def recoverFrom (w : HookWorld Ctx V) (loop : Loop Ctx V) (step : AdfStep V) (error : Err) :
    HookWorld Ctx V :=
  let failed := { w with current := some (loop.failStep step error) }
  if error.controlFlow = some .suspend then settle w (.error error)
  else if error.controlFlow = some .preflight then failed
  else
    match step.strategy with
    | none | some .abort => failed
    | some .skip =>
        let ctx := engine.withError loop.ctx error.message step
        { w with current := some (loop.recoverStep step error (.context ctx)) }
    | some .fallback =>
        let resolved : Except String (List (AdfStep V) × Slot Ctx) :=
          match step.fallback, step.ref with
          | some steps, _ => .ok (steps, loop.ctx)
          | none, some (ref, bind) => engine.resolveRef ref bind loop.ctx
          | none, none => .error error.message
        match resolved with
        | .error _ => failed
        | .ok (steps, ctx) =>
            call w ⟨loop, step, some error⟩ steps (engine.withError ctx error.message step)

/-- What a step comes to when its handler returns. -/
def handlerDone (loop : Loop Ctx V) (step : AdfStep V) :
    HandlerResult Ctx → Option (Loop Ctx V × Stage V)
  | .context ctx =>
      let terminal := step.type = .control && engine.adfTerminal ctx
      some ({ loop.push step .success with ctx := .context ctx },
        .observing step (.success terminal))
  | .skipped ctx =>
      if step.type = .control ∨ step.type = .apply then
        some ({ loop.push step .skipped with ctx := .context ctx }, .observing step .skipped)
      else none
  | .nothing =>
      if step.type = .apply then
        some (loop.push step .success, .observing step (.success false))
      else none

/-- The hook has answered. Where an apply step was skipped its answer is not awaited. -/
def hookDone (w : HookWorld Ctx V) (loop : Loop Ctx V) (step : AdfStep V) (observed : Observed)
    (answer : Option Ctx) (promised : Bool) : HookWorld Ctx V :=
  let w := { w with log := .afterStep step loop.ctx answer :: w.log }
  let loop := { loop with
    ctx :=
      if promised ∧ observed = .skipped ∧ step.type = .apply then .promise answer
      else handsOn loop.ctx answer }
  match observed with
  | .success true | .failed => finish w loop
  | .success false | .skipped | .recovered _ => { w with current := some (loop, .ready) }

inductive HookAction (Ctx V : Type)
  /-- The loop goes on; a bound, a gate or the governor may refuse its next step. -/
  | advance (refused : Option Err)
  | nest (steps : List (AdfStep V)) (seed : Ctx)
  | returned (result : HandlerResult Ctx)
  | threw (error : Err)
  | answered (answer : Option Ctx) (promised : Bool)

def sequentialStep (w : HookWorld Ctx V) (action : HookAction Ctx V) : Option (HookWorld Ctx V) :=
  match w.current, action with
  | some (loop, .ready), .advance refused =>
      match loop.todo, refused with
      | [], _ => some (finish w loop)
      | _ :: _, some error => some (settle w (.error error))
      | step :: todo, none =>
          some { w with
            current := some ({ loop with todo }, .handling step)
            log := .beforeStep step loop.ctx :: w.log }
  | some (loop, .handling step), .nest steps seed =>
      if step.type = .control then some (call w ⟨loop, step, none⟩ steps seed) else none
  | some (loop, .handling step), .returned result =>
      (handlerDone engine loop step result).map fun current => { w with current := some current }
  | some (loop, .handling step), .threw error => some (recoverFrom engine w loop step error)
  | some (loop, .observing step observed), .answered answer promised =>
      some (hookDone w loop step observed answer promised)
  | _, _ => none

/-- `executeAdfSteps`, one step after another -/
def executeSequential : System (HookWorld Ctx V) (HookAction Ctx V) where
  init w := ∃ steps ctx,
    w = { current := some (⟨.context ctx, [], steps⟩, .ready), log := [.entered ctx] }
  step := sequentialStep engine

/-- No handler suspends the pipeline, and no hook answers with a promise where an apply step was
skipped and another step follows in its list. -/
def hooksPair (w : HookWorld Ctx V) : HookAction Ctx V → Bool
  | .threw error => error.controlFlow ≠ some .suspend
  | .answered _ promised =>
      match w.current with
      | some (loop, .observing step .skipped) =>
          !(promised && step.type = .apply && !loop.todo.isEmpty)
      | _ => true
  | _ => true

end Model

section Invariant

variable {w w' : HookWorld Ctx V} {loop : Loop Ctx V} {step : AdfStep V}
  {expected : Option (Slot Ctx)}

/-- The open calls of the log are those of the steps under way, and a step that is to start gets
what was handed on. -/
structure HookInv (w : HookWorld Ctx V) (expected : Option (Slot Ctx)) : Prop where
  nested : Nested w.log w.underWay expected
  ready : ∀ loop, w.current = some (loop, .ready) → loop.todo ≠ [] → expected = some loop.ctx
  settled : w.current = none → w.callers = []

/-- A call settles: the step of its caller goes on. -/
theorem settle_keeps (outcome : Except Err (PipelineStatus × Slot Ctx))
    (h : Nested w.log (w.callers.map (·.step)) expected) :
    HookInv (settle w outcome) expected := by
  unfold settle
  split
  · rename_i hcallers
    refine ⟨?_, fun loop hcurrent => (nomatch hcurrent), fun _ => hcallers⟩
    rw [HookWorld.underWay, Option.bind_none, Option.toList_none, List.nil_append]
    exact h
  · rename_i caller callers hcallers
    rw [hcallers] at h
    dsimp only
    split <;> exact ⟨h, fun loop hcurrent => (nomatch hcurrent), fun hnone => (nomatch hnone)⟩

theorem call_keeps {caller : Caller Ctx V} (steps : List (AdfStep V)) (seed : Ctx)
    (h : Nested w.log (caller.step :: w.callers.map (·.step)) expected) :
    HookInv (call w caller steps seed) (some (.context seed)) := by
  refine ⟨h.entered seed, fun loop hcurrent _ => ?_, fun hnone => (nomatch hnone)⟩
  obtain ⟨rfl, -⟩ := Prod.mk.inj (Option.some.inj hcurrent)
  rfl

/-- A step whose handler has ended waits for its hook. -/
theorem observe_keeps (loop : Loop Ctx V) (observed : Observed)
    (h : Nested w.log (step :: w.callers.map (·.step)) expected) :
    HookInv { w with current := some (loop, .observing step observed) } expected :=
  ⟨h, fun _ hcurrent => (nomatch hcurrent), fun hnone => (nomatch hnone)⟩

variable (engine : HookEngine Ctx V)

theorem recoverFrom_keeps {error : Err} (herror : error.controlFlow ≠ some .suspend)
    (h : Nested w.log (step :: w.callers.map (·.step)) expected) :
    ∃ expected, HookInv (recoverFrom engine w loop step error) expected := by
  simp only [recoverFrom, herror, if_false]
  split
  · exact ⟨_, observe_keeps _ _ h⟩
  · split
    · exact ⟨_, observe_keeps _ _ h⟩
    · exact ⟨_, observe_keeps _ _ h⟩
    · exact ⟨_, observe_keeps _ _ h⟩
    · split
      · exact ⟨_, observe_keeps _ _ h⟩
      · exact ⟨_, call_keeps _ _ h⟩

theorem handlerDone_stage {result : HandlerResult Ctx} {current : Loop Ctx V × Stage V}
    (h : handlerDone engine loop step result = some current) :
    ∃ observed, current.2 = .observing step observed := by
  unfold handlerDone at h
  split at h
  · obtain rfl := Option.some.inj h
    exact ⟨_, rfl⟩
  · obtain ⟨-, h⟩ := Option.ite_none_right_eq_some.mp h
    obtain rfl := Option.some.inj h
    exact ⟨_, rfl⟩
  · obtain ⟨-, h⟩ := Option.ite_none_right_eq_some.mp h
    obtain rfl := Option.some.inj h
    exact ⟨_, rfl⟩

/-- The hook closes the innermost call; what it hands on is awaited, or no step follows. -/
theorem hookDone_keeps {observed : Observed} {answer : Option Ctx} {promised : Bool}
    (hpair : promised = true → observed = .skipped → step.type = .apply → loop.todo = [])
    (h : Nested w.log (step :: w.callers.map (·.step)) expected) :
    ∃ expected, HookInv (hookDone w loop step observed answer promised) expected := by
  have hclosed := h.afterStep loop.ctx answer
  simp only [hookDone]
  split
  · exact ⟨_, settle_keeps _ hclosed⟩
  · exact ⟨_, settle_keeps _ hclosed⟩
  all_goals
    refine ⟨_, hclosed, fun next hcurrent htodo => ?_, fun hnone => (nomatch hnone)⟩
    obtain ⟨rfl, -⟩ := Prod.mk.inj (Option.some.inj hcurrent)
    refine congrArg some (if_neg ?_).symm
  · rintro ⟨-, hskipped, -⟩
    cases hskipped
  · rintro ⟨hpromised, hskipped, happly⟩
    exact htodo (hpair hpromised hskipped happly)
  · rintro ⟨-, hskipped, -⟩
    cases hskipped

theorem HookInv.next {action : HookAction Ctx V} (h : HookInv w expected)
    (hok : hooksPair w action = true) (hstep : sequentialStep engine w action = some w') :
    ∃ expected, HookInv w' expected := by
  obtain ⟨hlog, hready, -⟩ := h
  unfold sequentialStep at hstep
  split at hstep
  · -- the loop goes on
    rename_i loop refused hcurrent
    simp only [HookWorld.underWay, hcurrent] at hlog
    split at hstep
    · obtain rfl := Option.some.inj hstep
      exact ⟨_, settle_keeps _ hlog⟩
    · obtain rfl := Option.some.inj hstep
      exact ⟨_, settle_keeps _ hlog⟩
    · rename_i step todo htodo
      obtain rfl := Option.some.inj hstep
      rw [hready loop hcurrent (by rw [htodo]; exact List.cons_ne_nil _ _)] at hlog
      exact ⟨none, hlog.beforeStep step, fun _ hcurrent => (nomatch hcurrent),
        fun hnone => (nomatch hnone)⟩
  · -- the handler calls `runNestedSteps`
    rename_i hcurrent
    simp only [HookWorld.underWay, hcurrent] at hlog
    obtain ⟨-, hstep⟩ := Option.ite_none_right_eq_some.mp hstep
    obtain rfl := Option.some.inj hstep
    exact ⟨_, call_keeps _ _ hlog⟩
  · -- the handler returns
    rename_i hcurrent
    simp only [HookWorld.underWay, hcurrent] at hlog
    obtain ⟨⟨later, stage⟩, hdone, rfl⟩ := Option.map_eq_some_iff.mp hstep
    obtain ⟨observed, rfl⟩ := handlerDone_stage engine hdone
    exact ⟨_, observe_keeps _ _ hlog⟩
  · -- the handler throws
    rename_i hcurrent
    simp only [HookWorld.underWay, hcurrent] at hlog
    obtain rfl := Option.some.inj hstep
    exact recoverFrom_keeps engine (of_decide_eq_true hok) hlog
  · -- the hook answers
    rename_i hcurrent
    simp only [HookWorld.underWay, hcurrent] at hlog
    obtain rfl := Option.some.inj hstep
    refine hookDone_keeps (fun hpromised hskipped happly => ?_) hlog
    subst hpromised hskipped
    simpa [hooksPair, hcurrent, happly] using hok
  · cases hstep

end Invariant

/-- While no handler suspends the pipeline and no hook answers a skipped apply step before another
one with a promise, the calls of the hooks nest, every step starts with the context that it was
handed, and the calls that are open are those of the steps under way: none when the pipeline has
settled. -/
theorem hooks_well_nested {engine : HookEngine Ctx V} {w : HookWorld Ctx V}
    (h : (executeSequential engine).Reach (fun w a => hooksPair w a = true) w) :
    (∃ expected, Nested w.log w.underWay expected) ∧
      (w.current = none → ∃ expected, Nested w.log [] expected) := by
  have hinv : ∃ expected, HookInv w expected := by
    refine h.invariant (I := fun w => ∃ expected, HookInv w expected) (fun w hinit => ?_)
      fun w a w' h hok hstep => ?_
    · obtain ⟨steps, ctx, rfl⟩ := hinit
      refine ⟨_, Nested.empty.entered ctx, fun loop hcurrent _ => ?_, fun hnone => (nomatch hnone)⟩
      obtain ⟨rfl, -⟩ := Prod.mk.inj (Option.some.inj hcurrent)
      rfl
    · obtain ⟨expected, h⟩ := h
      exact h.next engine hok hstep
  obtain ⟨expected, hlog, -, hsettled⟩ := hinv
  refine ⟨⟨expected, hlog⟩, fun hcurrent => ⟨expected, ?_⟩⟩
  rw [HookWorld.underWay, hcurrent, hsettled hcurrent] at hlog
  exact hlog

def hookEngine : HookEngine Unit String where
  adfTerminal _ := false
  withError _ _ _ := ()
  resolveRef _ _ _ := .error "no such pipeline"

def hookedStep (type : AdfStepType) (op : String) : AdfStep String :=
  .mk { type, op, params := "" } none none none

/-- A control step whose nested apply step is skipped, the last of its list, and an apply step. -/
theorem hooks_well_nested_skip : ∃ w : HookWorld Unit String,
    w.log.length = 8 ∧ ∃ expected, Nested w.log [] expected := by
  obtain ⟨w, hw, hlength, hcurrent⟩ := (executeSequential hookEngine).exists_reach_of_execOk
    hooksPair (s := { current := some (⟨.context (), [],
      [hookedStep .control "if", hookedStep .apply "send"]⟩, .ready), log := [.entered ()] })
    [.advance none, .nest [hookedStep .apply "write"] (), .advance none, .returned (.skipped ()),
      .answered none true, .advance none, .returned (.context ()), .answered none false,
      .advance none, .returned .nothing, .answered (some ()) true, .advance none]
    (fun w => w.log.length = 8 ∧ w.current.isNone) ⟨_, _, rfl⟩ (by decide +kernel)
  exact ⟨w, hlength, (hooks_well_nested hw).2 (Option.isNone_iff_eq_none.mp hcurrent)⟩

theorem Nested.expected_afterStep {log : List (HookEvent Ctx V)} {step : AdfStep V}
    {own : Slot Ctx} {answer : Option Ctx} {opened : List (AdfStep V)}
    {expected : Option (Slot Ctx)}
    (h : Nested (.afterStep step own answer :: log) opened expected) :
    expected = some (handsOn own answer) := by
  cases h
  rfl

/-- A handler that suspends leaves its step open; the promise that a hook answers for a skipped
apply step is the context of the next step. -/
theorem hooks_unpaired :
    (¬ ∀ w : HookWorld Unit String, (executeSequential hookEngine).Reachable w →
      w.current = none → ∃ expected, Nested w.log [] expected) ∧
    ¬ ∀ w : HookWorld Unit String, (executeSequential hookEngine).Reachable w →
      ∃ opened expected, Nested w.log opened expected := by
  have start (steps : List (AdfStep String)) (actions : List (HookAction Unit String))
      {w : HookWorld Unit String}
      (h : (executeSequential hookEngine).exec
        { current := some (⟨.context (), [], steps⟩, .ready), log := [.entered ()] }
        actions = some w) : (executeSequential hookEngine).Reachable w :=
    System.reachable_of_exec ⟨steps, (), rfl⟩ h
  refine ⟨fun h => ?_, fun h => ?_⟩
  · obtain ⟨expected, hlog⟩ := h
      { current := none
        log := [.beforeStep (hookedStep .apply "ask") (.context ()), .entered ()] }
      (start [hookedStep .apply "ask"] [.advance none, .threw ⟨"wait", some .suspend⟩] rfl) rfl
    cases hlog
  · obtain ⟨opened, expected, hlog⟩ := h _
      (start [hookedStep .apply "write", hookedStep .apply "send"]
        [.advance none, .returned (.skipped ()), .answered none true, .advance none] rfl)
    cases hlog with
    | beforeStep _ h => cases h.expected_afterStep

end Kyberion.Pipeline
