import Kyberion.Pipeline.Engine

/-!
A blocked step throws before its own recovery, but the error then passes the
recovery of every enclosing step, the fallback runner and the scheduler, and
none of them tells it from any other. It ends the pipeline only where there is
nothing around it.
-/

namespace Kyberion.Pipeline

open Transition

variable {Ctx V Claim : Type}

def StepEvent.isBlocked : StepEvent → Bool
  | .blocked _ _ => true
  | .started _ => false

def StepEvent.isStarted : StepEvent → Bool
  | .started _ => true
  | .blocked _ _ => false

def Run.isSettled (run : Run Ctx V Claim) : Bool :=
  match run.phase with
  | .settled _ => true
  | _ => false

/-- The number of the step whose handler a run has not started yet. -/
def Run.waits (run : Run Ctx V Claim) : Option ℕ :=
  match run.phase with
  | .stopping _ n _ | .gating _ n | .approving _ n | .preflighting _ n => some n
  | _ => none

section Condition

variable (engine : Engine Ctx V Claim)

/-- The governor stops the next step of a run by force. -/
def stopsByForce (w : World Ctx V Claim) (run : Run Ctx V Claim) (elapsedMs : ℤ) : Bool :=
  match run.todo with
  | [] => false
  | step :: _ =>
      (assertExecutionBounds engine (w.stepCount + 1) elapsedMs).toOption.isSome &&
        step.type ≠ .control && (governStep engine w run.ctx step).2 && w.loopDepth = 0

/-- The run whose step an action blocks. -/
def blocks (w : World Ctx V Claim) : EngineAction Ctx V → Option ℕ
  | .take r elapsedMs _ =>
      if w.runs[r]?.any fun run => stopsByForce engine w run elapsedMs then some r else none
  | .gated r (.blocked _) => some r
  | .preflighted r (.block _) _ | .preflighted r (.ask _) _ => some r
  | _ => none

/-- The run is the outermost one and no other is under way. -/
def isAlone (w : World Ctx V Claim) (r : ℕ) : Bool :=
  r = 0 && w.runs.tail.all Run.isSettled

/-- A step is blocked only in the outermost run, while no other is under way. -/
def blocksAtTop (w : World Ctx V Claim) (action : EngineAction Ctx V) : Bool :=
  (blocks engine w action).all (isAlone w)

end Condition

def World.waitsAt (w : World Ctx V Claim) (r n : ℕ) : Prop :=
  ∃ run, w.runs[r]? = some run ∧ run.waits = some n

section Quiet

/-- Nothing is started, blocked or counted, and no run comes to wait. -/
structure Quiet (w w' : World Ctx V Claim) : Prop where
  log : w'.log = w.log
  count : w'.stepCount = w.stepCount
  waits : ∀ r n, w'.waitsAt r n → w.waitsAt r n

variable {w w' w'' : World Ctx V Claim} {r : ℕ} {run old : Run Ctx V Claim}

theorem Quiet.refl (w : World Ctx V Claim) : Quiet w w :=
  ⟨rfl, rfl, fun _ _ h => h⟩

theorem Quiet.trans (h : Quiet w w') (h' : Quiet w' w'') : Quiet w w'' :=
  ⟨h'.log.trans h.log, h'.count.trans h.count, fun r n hn => h.waits r n (h'.waits r n hn)⟩

theorem waitsAt_put {r' n : ℕ} (h : (w.put r run).waitsAt r' n) :
    r' = r ∧ run.waits = some n ∨ r' ≠ r ∧ w.waitsAt r' n := by
  obtain ⟨found, hfound, hn⟩ := h
  by_cases hr : r' = r
  · subst hr
    rw [World.put, List.getElem?_set_self'] at hfound
    obtain ⟨_, -, rfl⟩ := Option.map_eq_some_iff.mp hfound
    exact .inl ⟨rfl, hn⟩
  · rw [World.put, List.getElem?_set_ne (Ne.symm hr)] at hfound
    exact .inr ⟨hr, found, hfound, hn⟩

theorem quiet_put (w : World Ctx V Claim) (r : ℕ) (hrun : run.waits = none) :
    Quiet w (w.put r run) := by
  refine ⟨rfl, rfl, fun r' n hn => ?_⟩
  rcases waitsAt_put hn with ⟨-, hsome⟩ | ⟨-, hw⟩
  · rw [hrun] at hsome
    cases hsome
  · exact hw

theorem quiet_spawn (w : World Ctx V Claim) (hrun : run.waits = none) :
    Quiet w (w.spawn run) := by
  refine ⟨rfl, rfl, fun r n ⟨found, hfound, hn⟩ => ?_⟩
  by_cases hlt : r < w.runs.length
  · rw [World.spawn, List.getElem?_append_left hlt] at hfound
    exact ⟨found, hfound, hn⟩
  · have hmem := List.mem_of_getElem? hfound
    rw [World.spawn, List.getElem?_append_right (by omega)] at hfound
    obtain rfl := List.mem_singleton.mp (List.mem_of_getElem? hfound)
    rw [hrun] at hn
    cases hn

variable (engine : Engine Ctx V Claim)

theorem openRun_waits (steps : List (AdfStep V)) (ctx : Ctx) (parent : Option ℕ) :
    (openRun engine steps ctx parent).waits = none := by
  unfold openRun
  split
  · dsimp only
    split <;> rfl
  · rfl

theorem quiet_pass (w : World Ctx V Claim) (state : GraphState Ctx V Claim) :
    Quiet w (pass engine w state).1 := by
  unfold pass
  refine List.foldlRecOn (motive := fun acc : World Ctx V Claim × GraphState Ctx V Claim × Bool =>
    Quiet w acc.1) state.nodes _ (.refl w) ?_
  intro acc hacc node _
  obtain ⟨v, state, progressed⟩ := acc
  dsimp only
  split
  · exact hacc
  · exact hacc
  · exact hacc.trans (quiet_spawn v (openRun_waits engine _ _ _))

theorem quiet_catchError (w : World Ctx V Claim) (r : ℕ) (run : Run Ctx V Claim)
    (step : AdfStep V) (error : Err) : Quiet w (catchError engine w r run step error) := by
  unfold catchError
  split
  · exact quiet_put w r rfl
  split
  · exact quiet_put w r rfl
  split
  · exact quiet_put w r rfl
  · exact quiet_put w r rfl
  · exact quiet_put w r rfl
  · dsimp only
    split
    · exact quiet_put w r rfl
    · exact (quiet_put w r rfl).trans (quiet_spawn _ (openRun_waits engine _ _ _))

theorem quiet_leaveLoop (w : World Ctx V Claim) (step : AdfStep V) : Quiet w (leaveLoop w step) :=
  ⟨rfl, rfl, fun _ _ h => h⟩

theorem quiet_afterStep (w : World Ctx V Claim) (r : ℕ) (run : Run Ctx V Claim)
    (step : AdfStep V) (observed : Observed) (answer : Except Err (Option Ctx)) :
    Quiet w (afterStep engine w r run step observed answer) := by
  unfold afterStep
  split
  · dsimp only
    split <;> exact quiet_put w r rfl
  · split
    · exact quiet_catchError engine w r run step _
    · exact quiet_catchError engine w r run step _
    · exact quiet_put w r rfl
    · exact quiet_put w r rfl

theorem quiet_schedule (w : World Ctx V Claim) (r : ℕ) (run : Run Ctx V Claim)
    (state : GraphState Ctx V Claim) : Quiet w (schedule engine w r run state) := by
  unfold schedule
  split
  · exact quiet_put w r rfl
  · have hpass := quiet_pass engine w state
    dsimp only
    split
    · split <;> exact hpass.trans (quiet_put _ r rfl)
    · exact hpass.trans (quiet_put _ r rfl)

end Quiet

section Effects

variable {w w' : World Ctx V Claim} {r n : ℕ} {run : Run Ctx V Claim}

/-- The run `r` starts a handler, and no longer waits to. -/
structure Starts (w w' : World Ctx V Claim) (r n : ℕ) : Prop where
  log : w'.log = w.log ++ [.started n]
  count : w'.stepCount = w.stepCount
  waits : ∀ r' m, w'.waitsAt r' m → r' ≠ r ∧ w.waitsAt r' m

/-- The step of the run `r` is blocked. -/
structure Blocks (w w' : World Ctx V Claim) (r n : ℕ) (by_ : BlockedBy) : Prop where
  log : w'.log = w.log ++ [.blocked n by_]
  count : w'.stepCount = w.stepCount
  waits : ∀ r' m, w'.waitsAt r' m → r' = r ∧ m = n ∨ r' ≠ r ∧ w.waitsAt r' m
  /-- The run has rejected, or will when the callback of the governor returns. -/
  run : ∃ run error, w'.runs = w.runs.set r run ∧ (run.phase = .settled (.error error) ∨
    by_ = .repeatGovernor ∧ ∃ step, run.phase = .stopping step n error)

variable (engine : Engine Ctx V Claim)

theorem startHandler_effect (w : World Ctx V Claim) (r : ℕ) (run : Run Ctx V Claim)
    (step : AdfStep V) (n : ℕ) (before : Option Err) :
    Quiet w (startHandler engine w r run step n before) ∨
      Starts w (startHandler engine w r run step n before) r n := by
  unfold startHandler
  split
  · exact .inl (quiet_put w r rfl)
  · split
    · exact .inl (quiet_catchError engine w r run step _)
    · refine .inr ⟨rfl, rfl, fun r' m hm => ?_⟩
      rcases waitsAt_put hm with ⟨-, hsome⟩ | h
      · cases hsome
      · exact h

/-- A run that goes on waits at most for the step that it waited for. -/
theorem waits_put (hrun : run.waits = some n) (r' m : ℕ) (hm : (w.put r run).waitsAt r' m) :
    r' = r ∧ m = n ∨ r' ≠ r ∧ w.waitsAt r' m := by
  rcases waitsAt_put hm with ⟨hr, hsome⟩ | h
  · rw [hrun] at hsome
    exact .inl ⟨hr, (Option.some.inj hsome).symm⟩
  · exact .inr h

/-- From the gate on, the run has ended or waits for the same step. -/
theorem afterGate_effect (w : World Ctx V Claim) (r : ℕ) (run : Run Ctx V Claim)
    (step : AdfStep V) (n : ℕ) :
    (afterGate engine w r run step n).log = w.log ∧
      (afterGate engine w r run step n).stepCount = w.stepCount ∧
      ∀ r' m, (afterGate engine w r run step n).waitsAt r' m →
        r' = r ∧ m = n ∨ r' ≠ r ∧ w.waitsAt r' m := by
  unfold afterGate
  split
  · refine ⟨rfl, rfl, fun r' m hm => ?_⟩
    rcases waitsAt_put hm with ⟨-, hsome⟩ | h
    · cases hsome
    · exact .inr h
  · refine ⟨rfl, rfl, fun r' m hm => waits_put ?_ r' m hm⟩
    cases engine.approvalGranted <;> rfl

theorem block_effect (w : World Ctx V Claim) (r : ℕ) (run : Run Ctx V Claim) (n : ℕ)
    (by_ : BlockedBy) (error : Err) : Blocks w (block w r run n by_ error) r n by_ := by
  refine ⟨rfl, rfl, fun r' m hm => ?_, _, error, rfl, .inl rfl⟩
  rcases waitsAt_put hm with ⟨-, hsome⟩ | h
  · cases hsome
  · exact .inr h

/-- What the loop of a run does with its next step. -/
inductive TakeEffect (w w' : World Ctx V Claim) (r : ℕ) (run : Run Ctx V Claim)
    (elapsedMs : ℤ) : Prop
  | quiet (h : Quiet w w')
  | counted (hlog : w'.log = w.log) (hcount : w'.stepCount = w.stepCount + 1)
      (hwaits : ∀ r' m, w'.waitsAt r' m → r' = r ∧ m = w.stepCount + 1 ∨ w.waitsAt r' m)
  | started (h : Starts { w with stepCount := w.stepCount + 1 } w' r (w.stepCount + 1))
  | blocked (hforce : stopsByForce engine w run elapsedMs = true)
      (h : Blocks { w with stepCount := w.stepCount + 1 } w' r (w.stepCount + 1) .repeatGovernor)

theorem take_effect (w : World Ctx V Claim) (r : ℕ) (run : Run Ctx V Claim) (elapsedMs : ℤ)
    (before : Option Err) :
    TakeEffect engine w (take engine w r run elapsedMs before) r run elapsedMs := by
  have hquiet {v : World Ctx V Claim} (h : Quiet { w with stepCount := w.stepCount + 1 } v) :
      TakeEffect engine w v r run elapsedMs :=
    .counted h.log h.count fun r' m hm => .inr (h.waits r' m hm)
  cases htodo : run.todo with
  | nil =>
      rw [take, htodo]
      exact .quiet (quiet_put w r rfl)
  | cons step rest =>
      rw [take, htodo]
      dsimp only
      split
      · exact hquiet (quiet_put _ r rfl)
      · rename_i hbounds
        split
        · rcases startHandler_effect engine { w with stepCount := w.stepCount + 1 } r
            { run with todo := rest } step (w.stepCount + 1) before with h | h
          · exact hquiet h
          · exact .started h
        · rename_i htype
          split
          · rename_i hstop
            refine .blocked ?_ ⟨rfl, rfl, fun r' m hm => ?_, _, _, rfl, .inr ⟨rfl, step, rfl⟩⟩
            · simp only [stopsByForce, htodo, hbounds, Except.toOption, Option.isSome_some,
                Bool.true_and, Bool.and_eq_true, decide_eq_true_eq]
              exact ⟨⟨htype, hstop.1⟩, hstop.2⟩
            · exact waits_put rfl r' m hm
          · split
            · refine .counted rfl rfl fun r' m hm => ?_
              rcases waits_put rfl r' m hm with h | h
              · exact .inl h
              · exact .inr h.2
            · obtain ⟨hlog, hcount, hwaits⟩ := afterGate_effect engine
                { w with
                  stepCount := w.stepCount + 1
                  repeatGovernor := (governStep engine w run.ctx step).1 } r
                { run with todo := rest } step (w.stepCount + 1)
              refine .counted hlog hcount fun r' m hm => ?_
              rcases hwaits r' m hm with h | h
              · exact .inl h
              · exact .inr h.2

/-- What a step of the engine does. -/
inductive StepEffect (w w' : World Ctx V Claim) (action : EngineAction Ctx V) : Prop
  | quiet (h : Quiet w w')
  | take (r : ℕ) (run : Run Ctx V Claim) (elapsedMs : ℤ) (before : Option Err)
      (haction : action = .take r elapsedMs before) (hrun : w.runs[r]? = some run)
      (h : TakeEffect engine w w' r run elapsedMs)
  | started (r n : ℕ) (hwaits : w.waitsAt r n) (h : Starts w w' r n)
  | blocked (r n : ℕ) (by_ : BlockedBy) (hblocks : blocks engine w action = some r)
      (hrun : r < w.runs.length) (hwaits : w.waitsAt r n) (h : Blocks w w' r n by_)

theorem step_effect {action : EngineAction Ctx V}
    (hstep : pipelineStep engine w action = some w') : StepEffect engine w w' action := by
  unfold pipelineStep at hstep
  split at hstep <;> (split at hstep; rotate_left; · cases hstep)
  all_goals rename_i run hrun
  · -- take
    split at hstep
    · obtain rfl := Option.some.inj hstep
      exact .take _ run _ _ rfl hrun (take_effect engine w _ run _ _)
    · cases hstep
  · -- stopped
    split at hstep
    · obtain rfl := Option.some.inj hstep
      exact .quiet (quiet_put w _ rfl)
    · cases hstep
  · -- gated
    split at hstep
    · rename_i step n hphase
      have hwaits : w.waitsAt _ n := ⟨run, hrun, by rw [Run.waits, hphase]⟩
      obtain rfl := Option.some.inj hstep
      obtain ⟨hlog, hcount, hlater⟩ := afterGate_effect engine w _ run step n
      refine .quiet ⟨hlog, hcount, fun r' m hm => ?_⟩
      rcases hlater r' m hm with ⟨rfl, rfl⟩ | h
      · exact hwaits
      · exact h.2
    · rename_i step n reasons hphase
      obtain rfl := Option.some.inj hstep
      exact .blocked _ n .stepGate rfl (List.getElem?_eq_some_iff.mp hrun).1
        ⟨run, hrun, by rw [Run.waits, hphase]⟩ (block_effect w _ run n .stepGate _)
    · obtain rfl := Option.some.inj hstep
      exact .quiet (quiet_put w _ rfl)
    · cases hstep
  · -- approved
    split at hstep
    · rename_i step n hphase
      have hwaits : w.waitsAt _ n := ⟨run, hrun, by rw [Run.waits, hphase]⟩
      obtain rfl := Option.some.inj hstep
      refine .quiet ⟨rfl, rfl, fun r' m hm => ?_⟩
      rcases waits_put rfl r' m hm with ⟨rfl, rfl⟩ | h
      · exact hwaits
      · exact h.2
    · obtain rfl := Option.some.inj hstep
      exact .quiet (quiet_put w _ rfl)
    · cases hstep
  · -- preflighted
    split at hstep
    · rename_i step n hphase
      have hwaits : w.waitsAt _ n := ⟨run, hrun, by rw [Run.waits, hphase]⟩
      obtain rfl := Option.some.inj hstep
      rcases startHandler_effect engine w _ run step n _ with h | h
      · exact .quiet h
      · exact .started _ n hwaits h
    · rename_i step n reason hphase
      obtain rfl := Option.some.inj hstep
      exact .blocked _ n .preflight rfl (List.getElem?_eq_some_iff.mp hrun).1
        ⟨run, hrun, by rw [Run.waits, hphase]⟩ (block_effect w _ run n .preflight _)
    · rename_i step n reason hphase
      obtain rfl := Option.some.inj hstep
      exact .blocked _ n .preflight rfl (List.getElem?_eq_some_iff.mp hrun).1
        ⟨run, hrun, by rw [Run.waits, hphase]⟩ (block_effect w _ run n .preflight _)
    · obtain rfl := Option.some.inj hstep
      exact .quiet (quiet_put w _ rfl)
    · cases hstep
  · -- nest
    split at hstep
    · obtain ⟨-, hw⟩ := Option.ite_none_right_eq_some.mp hstep
      obtain rfl := Option.some.inj hw
      exact .quiet (quiet_spawn w (openRun_waits engine _ _ _))
    · cases hstep
  · -- returned
    split at hstep
    · rename_i step n hphase
      obtain ⟨-, hw⟩ := Option.ite_none_right_eq_some.mp hstep
      obtain ⟨later, hlater, rfl⟩ := Option.map_eq_some_iff.mp hw
      have hnone : later.waits = none := by
        unfold handlerReturned at hlater
        split at hlater
        · obtain rfl := Option.some.inj hlater
          rfl
        · obtain ⟨-, hlater⟩ := Option.ite_none_right_eq_some.mp hlater
          obtain rfl := Option.some.inj hlater
          rfl
        · obtain ⟨-, hlater⟩ := Option.ite_none_right_eq_some.mp hlater
          obtain rfl := Option.some.inj hlater
          rfl
      exact .quiet ((quiet_leaveLoop w step).trans (quiet_put _ _ hnone))
    · cases hstep
  · -- threw
    split at hstep
    · rename_i step n hphase
      obtain ⟨-, hw⟩ := Option.ite_none_right_eq_some.mp hstep
      obtain rfl := Option.some.inj hw
      exact .quiet ((quiet_leaveLoop w step).trans (quiet_catchError engine _ _ run step _))
    · cases hstep
  · -- recovered
    split at hstep
    · obtain ⟨outcome, -, rfl⟩ := Option.map_eq_some_iff.mp hstep
      unfold afterFallback
      split
      · exact .quiet (quiet_put w _ rfl)
      · split <;> exact .quiet (quiet_put w _ rfl)
    · cases hstep
  · -- observed
    split at hstep
    · obtain rfl := Option.some.inj hstep
      exact .quiet (quiet_afterStep engine w _ run _ _ _)
    · cases hstep
  · -- schedule
    split at hstep
    · obtain ⟨-, hw⟩ := Option.ite_none_left_eq_some.mp hstep
      obtain rfl := Option.some.inj hw
      exact .quiet (quiet_schedule engine w _ run _)
    · cases hstep
  · -- complete
    split at hstep
    · split at hstep
      · obtain ⟨-, hw⟩ := Option.ite_none_right_eq_some.mp hstep
        obtain ⟨outcome, -, rfl⟩ := Option.map_eq_some_iff.mp hw
        unfold afterNode
        split <;> exact .quiet (quiet_put w _ rfl)
      · cases hstep
    · cases hstep

end Effects

section Invariant

variable {w w' : World Ctx V Claim} {r n : ℕ}

/-- Each step has a number of its own, and its handler is started once at most. -/
structure NumbersInv (w : World Ctx V Claim) : Prop where
  waiting : ∀ r n, w.waitsAt r n → n ≤ w.stepCount
  started : ∀ n, .started n ∈ w.log → n ≤ w.stepCount
  alone : ∀ r r' n, w.waitsAt r n → w.waitsAt r' n → r = r'
  fresh : ∀ r n, w.waitsAt r n → .started n ∉ w.log
  blocked : ∀ n by_, .blocked n by_ ∈ w.log → .started n ∉ w.log

/-- A block ends the pipeline: it has rejected, or will when the callback of the governor returns,
and no other run is under way. -/
structure Over (w : World Ctx V Claim) (by_ : BlockedBy) : Prop where
  root : ∃ run error, w.runs[0]? = some run ∧ (run.phase = .settled (.error error) ∨
    by_ = .repeatGovernor ∧ ∃ step n, run.phase = .stopping step n error)
  nested : ∀ r run, w.runs[r + 1]? = some run → run.isSettled = true

structure BlockInv (w : World Ctx V Claim) : Prop where
  numbers : NumbersInv w
  ended : ∀ n by_, .blocked n by_ ∈ w.log → Over w by_
  order : w.log.Pairwise fun a b => a.isBlocked = true → b.isStarted = false

theorem NumbersInv.quiet (h : NumbersInv w) (hq : Quiet w w') : NumbersInv w' where
  waiting r n hn := hq.count ▸ h.waiting r n (hq.waits r n hn)
  started n hn := hq.count ▸ h.started n (hq.log ▸ hn)
  alone r r' n hn hn' := h.alone r r' n (hq.waits r n hn) (hq.waits r' n hn')
  fresh r n hn := hq.log ▸ h.fresh r n (hq.waits r n hn)
  blocked n by_ hn := by
    rw [hq.log] at hn ⊢
    exact h.blocked n by_ hn

/-- A step that has been counted has a new number. -/
theorem NumbersInv.counted (h : NumbersInv w) (hlog : w'.log = w.log)
    (hcount : w'.stepCount = w.stepCount + 1)
    (hwaits : ∀ r' m, w'.waitsAt r' m → r' = r ∧ m = w.stepCount + 1 ∨ w.waitsAt r' m) :
    NumbersInv w' where
  waiting r' m hm := by
    rcases hwaits r' m hm with ⟨-, rfl⟩ | hold
    · exact hcount.ge
    · have := h.waiting r' m hold
      omega
  started m hm := by
    have := h.started m (hlog ▸ hm)
    omega
  alone r₁ r₂ m hm₁ hm₂ := by
    rcases hwaits r₁ m hm₁ with ⟨rfl, rfl⟩ | hold₁ <;>
      rcases hwaits r₂ _ hm₂ with ⟨rfl, hm⟩ | hold₂
    · rfl
    · have := h.waiting r₂ _ hold₂
      omega
    · have := h.waiting r₁ m hold₁
      omega
    · exact h.alone r₁ r₂ m hold₁ hold₂
  fresh r' m hm := by
    rw [hlog]
    rcases hwaits r' m hm with ⟨-, rfl⟩ | hold
    · intro hstarted
      have := h.started _ hstarted
      omega
    · exact h.fresh r' m hold
  blocked m by_ hm := by
    rw [hlog] at hm ⊢
    exact h.blocked m by_ hm

/-- A number that has been counted and that no run waits with. -/
theorem NumbersInv.count (h : NumbersInv w) :
    NumbersInv { w with stepCount := w.stepCount + 1 } :=
  h.counted (r := 0) rfl rfl fun _ _ hm => .inr hm

theorem NumbersInv.start (h : NumbersInv w) (hs : Starts w w' r n) (hn : n ≤ w.stepCount)
    (hother : ∀ r' , r' ≠ r → ¬ w.waitsAt r' n) (hblocked : ∀ by_, .blocked n by_ ∉ w.log) :
    NumbersInv w' where
  waiting r' m hm := hs.count ▸ h.waiting r' m (hs.waits r' m hm).2
  started m hm := by
    rw [hs.log] at hm
    rw [hs.count]
    rcases List.mem_append.mp hm with hm | hm
    · exact h.started m hm
    · cases List.mem_singleton.mp hm
      exact hn
  alone r₁ r₂ m hm₁ hm₂ := h.alone r₁ r₂ m (hs.waits r₁ m hm₁).2 (hs.waits r₂ m hm₂).2
  fresh r' m hm := by
    obtain ⟨hr, hm⟩ := hs.waits r' m hm
    rw [hs.log]
    intro hstarted
    rcases List.mem_append.mp hstarted with hstarted | hstarted
    · exact h.fresh r' m hm hstarted
    · cases List.mem_singleton.mp hstarted
      exact hother r' hr hm
  blocked m by_ hm := by
    rw [hs.log] at hm ⊢
    intro hstarted
    rcases List.mem_append.mp hm with hm | hm
    · rcases List.mem_append.mp hstarted with hstarted | hstarted
      · exact h.blocked m by_ hm hstarted
      · cases List.mem_singleton.mp hstarted
        exact hblocked by_ hm
    · cases List.mem_singleton.mp hm

theorem NumbersInv.block (h : NumbersInv w) {by_ : BlockedBy} (hb : Blocks w w' r n by_)
    (hn : n ≤ w.stepCount) (hstarted : .started n ∉ w.log)
    (hother : ∀ r', r' ≠ r → ¬ w.waitsAt r' n) : NumbersInv w' := by
  have hlog {m : ℕ} : .started m ∈ w'.log ↔ .started m ∈ w.log := by
    rw [hb.log]
    simp
  refine ⟨fun r' m hm => ?_, fun m hm => ?_, fun r₁ r₂ m hm₁ hm₂ => ?_, fun r' m hm => ?_,
    fun m by' hm => ?_⟩
  · rw [hb.count]
    rcases hb.waits r' m hm with ⟨-, rfl⟩ | hold
    · exact hn
    · exact h.waiting r' m hold.2
  · rw [hb.count]
    exact h.started m (hlog.mp hm)
  · rcases hb.waits r₁ m hm₁ with ⟨rfl, rfl⟩ | ⟨hr₁, hold₁⟩ <;>
      rcases hb.waits r₂ _ hm₂ with ⟨rfl, hm⟩ | ⟨hr₂, hold₂⟩
    · rfl
    · exact absurd hold₂ (hother r₂ hr₂)
    · exact absurd (hm ▸ hold₁) (hother r₁ hr₁)
    · exact h.alone r₁ r₂ m hold₁ hold₂
  · rw [hlog]
    rcases hb.waits r' m hm with ⟨-, rfl⟩ | hold
    · exact hstarted
    · exact h.fresh r' m hold.2
  · rw [hlog]
    rw [hb.log] at hm
    rcases List.mem_append.mp hm with hm | hm
    · exact h.blocked m by' hm
    · cases List.mem_singleton.mp hm
      exact hstarted

variable {by_ : BlockedBy} {run : Run Ctx V Claim} (engine : Engine Ctx V Claim)

theorem Over.phase (h : Over w by_) (hrun : w.runs[r]? = some run) :
    (∃ outcome, run.phase = .settled outcome) ∨
      r = 0 ∧ ∃ step n error, run.phase = .stopping step n error := by
  cases r with
  | zero =>
      obtain ⟨root, error, hroot, hphase⟩ := h.root
      obtain rfl := Option.some.inj (hroot.symm.trans hrun)
      rcases hphase with hphase | ⟨-, step, n, hphase⟩
      · exact .inl ⟨_, hphase⟩
      · exact .inr ⟨rfl, step, n, error, hphase⟩
  | succ r =>
      have hsettled := h.nested r run hrun
      unfold Run.isSettled at hsettled
      split at hsettled
      · rename_i outcome hphase
        exact .inl ⟨outcome, hphase⟩
      · cases hsettled

theorem settledOutcome_put {outcome : Except Err (AdfRunResult Ctx)} (hr : r < w.runs.length) :
    settledOutcome (w.put r (run.settle outcome)) r = some outcome := by
  rw [settledOutcome, World.put, List.getElem?_set_self hr]
  rfl

/-- After a block only the callback of the governor is left, and then the pipeline rejects. -/
theorem Over.step (h : Over w by_) {action : EngineAction Ctx V}
    (hstep : pipelineStep engine w action = some w') :
    Quiet w w' ∧ Over w' by_ ∧ ∃ error, settledOutcome w' 0 = some (.error error) := by
  unfold pipelineStep at hstep
  split at hstep <;> (split at hstep; rotate_left; · cases hstep)
  all_goals
    rename_i run hrun
    rcases h.phase hrun with ⟨outcome, hphase⟩ | ⟨rfl, step, n, error, hphase⟩
    all_goals simp only [hphase, reduceCtorEq] at hstep
  obtain rfl := Option.some.inj hstep
  have hlt := (List.getElem?_eq_some_iff.mp hrun).1
  refine ⟨quiet_put w 0 rfl, ⟨⟨run.settle (.error error), error, ?_, .inl rfl⟩,
    fun r found hfound => ?_⟩, error, settledOutcome_put hlt⟩
  · rw [World.put, List.getElem?_set_self hlt]
  · rw [World.put, List.getElem?_set_ne (Nat.succ_ne_zero r).symm] at hfound
    exact h.nested r found hfound

/-- Nothing has been blocked. -/
theorem NumbersInv.unblocked (h : NumbersInv w) (hnone : ∀ event ∈ w.log, event.isBlocked = false) :
    BlockInv w := by
  refine ⟨h, fun n by_ hm => ?_, List.pairwise_of_forall_mem_list fun a ha _ _ hblocked => ?_⟩
  · cases hnone _ hm
  · rw [hnone a ha] at hblocked
    cases hblocked

/-- The first block, in the outermost run and with no other under way. -/
theorem BlockInv.first {v : World Ctx V Claim} (h : NumbersInv w')
    (hnone : ∀ event ∈ v.log, event.isBlocked = false) (hb : Blocks v w' r n by_)
    (halone : isAlone v r = true) (hlt : r < v.runs.length) : BlockInv w' := by
  obtain ⟨hr, hnested⟩ : r = 0 ∧ v.runs.tail.all Run.isSettled = true := by
    simpa only [isAlone, Bool.and_eq_true, decide_eq_true_eq] using halone
  subst hr
  obtain ⟨root, error, hruns, hroot⟩ := hb.run
  refine ⟨h, fun m by' hm => ?_, ?_⟩
  · rw [hb.log] at hm
    rcases List.mem_append.mp hm with hm | hm
    · cases hnone _ hm
    · cases List.mem_singleton.mp hm
      refine ⟨⟨root, error, ?_, ?_⟩, fun r' found hfound => ?_⟩
      · rw [hruns, List.getElem?_set_self hlt]
      · rcases hroot with hroot | ⟨hby, step, hroot⟩
        · exact .inl hroot
        · exact .inr ⟨hby, step, n, hroot⟩
      · rw [hruns, List.getElem?_set_ne (Nat.succ_ne_zero r').symm, ← List.getElem?_tail] at hfound
        exact List.all_eq_true.mp hnested found (List.mem_of_getElem? hfound)
  · rw [hb.log]
    refine List.pairwise_append.mpr ⟨?_, List.pairwise_singleton _ _, fun a _ b hb _ => ?_⟩
    · exact List.pairwise_of_forall_mem_list fun a ha _ _ hblocked => by
        rw [hnone a ha] at hblocked
        cases hblocked
    · rw [List.mem_singleton.mp hb]
      rfl

theorem BlockInv.step (h : BlockInv w) {action : EngineAction Ctx V}
    (hok : blocksAtTop engine w action = true) (hstep : pipelineStep engine w action = some w') :
    BlockInv w' := by
  by_cases hblocked : ∃ n by_, .blocked n by_ ∈ w.log
  · obtain ⟨n, by_, hblocked⟩ := hblocked
    have hq := ((h.ended n by_ hblocked).step engine hstep).1
    refine ⟨h.numbers.quiet hq, fun m by' hm => ?_, hq.log ▸ h.order⟩
    exact ((h.ended m by' (hq.log ▸ hm)).step engine hstep).2.1
  · have hnone (event : StepEvent) (hm : event ∈ w.log) : event.isBlocked = false := by
      cases event with
      | started n => rfl
      | blocked n by_ => exact absurd ⟨n, by_, hm⟩ hblocked
    have hnone' (n : ℕ) (by_ : BlockedBy) : .blocked n by_ ∉ w.log := fun hm =>
      hblocked ⟨n, by_, hm⟩
    have hstarted (n : ℕ) (event : StepEvent) (hm : event ∈ w.log ++ [.started n]) :
        event.isBlocked = false := by
      rcases List.mem_append.mp hm with hm | hm
      · exact hnone event hm
      · rw [List.mem_singleton.mp hm]
        rfl
    have hbound {r n : ℕ} (hn : w.stepCount + 1 ≤ n) : ¬ w.waitsAt r n := fun hwaits => by
      have := h.numbers.waiting r n hwaits
      omega
    have hnew : .started (w.stepCount + 1) ∉ w.log := fun hm => by
      have := h.numbers.started _ hm
      omega
    cases step_effect engine hstep with
    | quiet hq => exact (h.numbers.quiet hq).unblocked (hq.log ▸ hnone)
    | take r run elapsedMs before haction hrun heffect =>
        cases heffect with
        | quiet hq => exact (h.numbers.quiet hq).unblocked (hq.log ▸ hnone)
        | counted hlog hcount hwaits =>
            exact (h.numbers.counted hlog hcount hwaits).unblocked (hlog ▸ hnone)
        | started hs =>
            refine (h.numbers.count.start hs le_rfl (fun _ _ => hbound le_rfl)
              fun by_ => hnone' _ by_).unblocked ?_
            rw [hs.log]
            exact hstarted _
        | blocked hforce hb =>
            have halone : isAlone w r = true := by
              rw [haction] at hok
              simpa [blocksAtTop, blocks, hrun, hforce] using hok
            exact .first (v := { w with stepCount := w.stepCount + 1 }) (h.numbers.count.block hb le_rfl hnew fun _ _ => hbound le_rfl) hnone hb
              halone (List.getElem?_eq_some_iff.mp hrun).1
    | started r n hwaits hs =>
        refine (h.numbers.start hs (h.numbers.waiting r n hwaits)
          (fun r' hr hwaits' => hr (h.numbers.alone r' r n hwaits' hwaits))
          fun by_ => hnone' n by_).unblocked ?_
        rw [hs.log]
        exact hstarted n
    | blocked r n by_ hblocks hrun hwaits hb =>
        have halone : isAlone w r = true := by
          rw [blocksAtTop, hblocks] at hok
          exact hok
        exact .first (h.numbers.block hb (h.numbers.waiting r n hwaits)
          (h.numbers.fresh r n hwaits)
          fun r' hr hwaits' => hr (h.numbers.alone r' r n hwaits' hwaits)) hnone hb halone hrun

end Invariant

/-- A step that is blocked in the outermost run, while no other run is under way, ends the
pipeline: its handler is never started, no handler is started after it, and the pipeline has
rejected or rejects once the callback of the governor returns. -/
theorem security_block_is_terminal {engine : Engine Ctx V Claim} {w : World Ctx V Claim}
    (h : (executeAdfSteps engine).Reach (fun w a => blocksAtTop engine w a = true) w) {n : ℕ}
    {by_ : BlockedBy} (hblocked : .blocked n by_ ∈ w.log) :
    .started n ∉ w.log ∧
      (w.log.Pairwise fun a b => a.isBlocked = true → b.isStarted = false) ∧
      ((∃ error, settledOutcome w 0 = some (.error error)) ∨
        by_ = .repeatGovernor ∧ (pipelineStep engine w (.stopped 0)).isSome = true ∧
          ∀ a w', pipelineStep engine w a = some w' →
            ∃ error, settledOutcome w' 0 = some (.error error)) := by
  have hinv : BlockInv w := by
    refine h.invariant (fun w hinit => ?_) fun w a w' h hok hstep => h.step engine hok hstep
    obtain ⟨steps, ctx, rfl⟩ := hinit
    have hwaits (r n : ℕ) :
        ¬ ({ runs := [openRun engine steps ctx none] } : World Ctx V Claim).waitsAt r n := by
      rintro ⟨run, hrun, hn⟩
      rw [List.mem_singleton.mp (List.mem_of_getElem? hrun), openRun_waits] at hn
      cases hn
    exact NumbersInv.unblocked ⟨fun r n hn => absurd hn (hwaits r n), fun n hn => (nomatch hn),
      fun r _ n hn => absurd hn (hwaits r n), fun r n hn => absurd hn (hwaits r n),
      fun n by_ hn => (nomatch hn)⟩ fun event hm => (nomatch hm)
  have hover := hinv.ended n by_ hblocked
  refine ⟨hinv.numbers.blocked n by_ hblocked, hinv.order, ?_⟩
  obtain ⟨run, error, hrun, hphase | ⟨hby, step, m, hphase⟩⟩ := hover.root
  · refine .inl ⟨error, ?_⟩
    rw [settledOutcome, hrun]
    obtain ⟨parent, ctx, results, todo, phase⟩ := run
    obtain rfl := hphase
    rfl
  · refine .inr ⟨hby, ?_, fun a w' hstep => (hover.step engine hstep).2.2⟩
    simp only [pipelineStep, hrun, hphase, Option.isSome_some]

def gatedEngine : Engine Unit String Unit where
  stepGate := true
  resolveVars value _ := .ok value
  canonicalize value := value
  exportAs _ := none
  adfTerminal _ := false
  withError ctx _ _ := ctx
  resolveRef _ _ _ := .error "no such pipeline"
  evaluateCondition _ _ := true
  mergeContext _ _ _ next := next
  resourceClaims _ _ := []
  claimsConflict _ _ := false

def plainStep (type : AdfStepType) (op : String) (strategy : Option OnErrorStrategy := none) :
    AdfStep String :=
  .mk { type, op, params := "" } strategy none none

/-- A step of the run `r` that passes its gates. -/
def admits (r : ℕ) : List (EngineAction Unit String) :=
  [.take r 0 none, .gated r .passed, .preflighted r .allow none]

theorem security_block_is_terminal_second : ∃ w : World Unit String Unit,
    .blocked 2 .stepGate ∈ w.log ∧ .started 1 ∈ w.log ∧ .started 2 ∉ w.log := by
  obtain ⟨w, hs, hblocked, hstarted⟩ := (executeAdfSteps gatedEngine).exists_reach_of_execOk
    (blocksAtTop gatedEngine)
    (s := { runs := [openRun gatedEngine [plainStep .capture "read", plainStep .apply "rm"] () none] })
    (admits 0 ++ [.returned 0 (.context ()), .observed 0 (.ok none), .take 0 0 none,
      .gated 0 (.blocked [])])
    (fun w => .blocked 2 .stepGate ∈ w.log ∧ .started 1 ∈ w.log) ⟨_, _, rfl⟩ (by decide +kernel)
  exact ⟨w, hblocked, hstarted, (security_block_is_terminal hs hblocked).1⟩

/-- The `on_error` of a control step recovers from the block of a step inside it. -/
theorem skip_recovers_nested_block :
    ¬ ∀ w : World Unit String Unit, (executeAdfSteps gatedEngine).Reachable w → ∀ n by_,
      .blocked n by_ ∈ w.log → .started n ∉ w.log ∧
        (w.log.Pairwise fun a b => a.isBlocked = true → b.isStarted = false) ∧
        ((∃ error, settledOutcome w 0 = some (.error error)) ∨
          by_ = .repeatGovernor ∧ (pipelineStep gatedEngine w (.stopped 0)).isSome = true ∧
            ∀ a w', pipelineStep gatedEngine w a = some w' →
              ∃ error, settledOutcome w' 0 = some (.error error)) := by
  intro h
  obtain ⟨w, hs, hblocked, hstarted⟩ := System.exists_reachable_of_exec
    (S := executeAdfSteps gatedEngine)
    (s := { runs := [openRun gatedEngine
      [plainStep .control "if" (some .skip), plainStep .apply "send"] () none] })
    ([.take 0 0 none, .nest 0 [plainStep .apply "rm"] (), .take 1 0 none, .gated 1 (.blocked []),
      .threw 0 { message := hookBlockedMessage (plainStep .apply "rm") [] },
      .observed 0 (.ok none)] ++ admits 0)
    (fun w => .blocked 2 .stepGate ∈ w.log ∧
      ¬ w.log.Pairwise fun a b => a.isBlocked = true → b.isStarted = false)
    ⟨_, _, rfl⟩ (by decide +kernel)
  exact hstarted (h w hs 2 .stepGate hblocked).2.1

end Kyberion.Pipeline
