import Kyberion.Pipeline.SecurityBlock

/-!
The step bound of a whole pipeline. Control handlers may do anything here: they
open runs whenever they like, return before these settle and swallow their
errors. A handler starts with a number of its own that has passed the bound.
-/

namespace Kyberion.Pipeline

open Transition

variable {Ctx V Claim : Type} (engine : Engine Ctx V Claim)

section Loose

/-- The control step whose handler a run is in. -/
def handlingNumber (w : World Ctx V Claim) (r : ℕ) : Option ℕ :=
  match w.runs[r]? with
  | some run =>
      match run.phase with
      | .handling _ n => some n
      | _ => none
  | none => none

/-- The engine with control handlers of any kind: `runNestedSteps` may be called at any time, and
the handler may return or throw whatever becomes of its nested runs. -/
def looseStep (w : World Ctx V Claim) (action : EngineAction Ctx V) :
    Option (World Ctx V Claim) :=
  match action with
  | .nest r steps ctx => some (w.spawn (openRun engine steps ctx (handlingNumber w r)))
  | .returned r result =>
      match w.runs[r]? with
      | some run =>
          match run.phase with
          | .handling step _ =>
              (handlerReturned engine run step result).map fun run => (leaveLoop w step).put r run
          | _ => none
      | none => none
  | .threw r error =>
      match w.runs[r]? with
      | some run =>
          match run.phase with
          | .handling step _ => some (catchError engine (leaveLoop w step) r run step error)
          | _ => none
      | none => none
  | action => pipelineStep engine w action

def executeAdfStepsLoose : System (World Ctx V Claim) (EngineAction Ctx V) where
  init w := ∃ steps ctx, w = { runs := [openRun engine steps ctx none] }
  step := looseStep engine

variable {engine} {w w' : World Ctx V Claim} {action : EngineAction Ctx V}

/-- What handlers that wait for their nested runs can do, handlers of any kind can do. -/
theorem looseStep_of_pipelineStep (h : pipelineStep engine w action = some w') :
    looseStep engine w action = some w' := by
  cases action with
  | nest r steps ctx =>
      simp only [pipelineStep] at h
      split at h
      · rename_i run hrun
        split at h
        · rename_i step n hphase
          obtain ⟨-, h⟩ := Option.ite_none_right_eq_some.mp h
          simp only [looseStep, handlingNumber, hrun, hphase]
          exact h
        · cases h
      · cases h
  | returned r result =>
      simp only [pipelineStep] at h
      split at h
      · rename_i run hrun
        split at h
        · rename_i step n hphase
          obtain ⟨-, h⟩ := Option.ite_none_right_eq_some.mp h
          simp only [looseStep, hrun, hphase]
          exact h
        · cases h
      · cases h
  | threw r error =>
      simp only [pipelineStep] at h
      split at h
      · rename_i run hrun
        split at h
        · rename_i step n hphase
          obtain ⟨-, h⟩ := Option.ite_none_right_eq_some.mp h
          simp only [looseStep, hrun, hphase]
          exact h
        · cases h
      · cases h
  | _ => exact h

theorem reachable_loose (h : (executeAdfSteps engine).Reachable w) :
    (executeAdfStepsLoose engine).Reachable w := by
  induction h with
  | start hinit => exact .start hinit
  | next _ _ hstep ih => exact .next ih trivial (looseStep_of_pipelineStep hstep)

theorem handlerReturned_waits {run later : Run Ctx V Claim} {step : AdfStep V}
    {result : HandlerResult Ctx} (h : handlerReturned engine run step result = some later) :
    later.waits = none := by
  unfold handlerReturned at h
  split at h
  · obtain rfl := Option.some.inj h
    rfl
  · obtain ⟨-, h⟩ := Option.ite_none_right_eq_some.mp h
    obtain rfl := Option.some.inj h
    rfl
  · obtain ⟨-, h⟩ := Option.ite_none_right_eq_some.mp h
    obtain rfl := Option.some.inj h
    rfl

theorem loose_effect (h : looseStep engine w action = some w') :
    StepEffect engine w w' action := by
  cases action with
  | nest r steps ctx =>
      obtain rfl := Option.some.inj h
      exact .quiet (quiet_spawn w (openRun_waits engine steps ctx _))
  | returned r result =>
      unfold looseStep at h
      dsimp only at h
      split at h
      · split at h
        · obtain ⟨later, hlater, rfl⟩ := Option.map_eq_some_iff.mp h
          exact .quiet ((quiet_leaveLoop w _).trans
            (quiet_put _ _ (handlerReturned_waits hlater)))
        · cases h
      · cases h
  | threw r error =>
      unfold looseStep at h
      dsimp only at h
      split at h
      · split at h
        · obtain rfl := Option.some.inj h
          exact .quiet ((quiet_leaveLoop w _).trans (quiet_catchError engine _ _ _ _ _))
        · cases h
      · cases h
  | _ => exact step_effect engine h

end Loose

section Bound

/-- The numbers of the steps whose handlers were started. -/
def startedNumbers (log : List StepEvent) : List ℕ :=
  log.filterMap fun
    | .started n => some n
    | .blocked _ _ => none

def stepLimit : ℤ := engine.maxSteps.getD DEFAULT_MAX_PIPELINE_STEPS

theorem length_startedNumbers (log : List StepEvent) :
    (startedNumbers log).length = log.countP StepEvent.isStarted := by
  induction log with
  | nil => rfl
  | cons event log ih =>
      rw [startedNumbers] at ih ⊢
      cases event with
      | started n =>
          rw [List.filterMap_cons, List.length_cons, ih, List.countP_cons_of_pos rfl]
      | blocked n by_ =>
          rw [List.filterMap_cons, ih, List.countP_cons_of_neg Bool.false_ne_true]

theorem startedNumbers_started (log : List StepEvent) (n : ℕ) :
    startedNumbers (log ++ [.started n]) = startedNumbers log ++ [n] := by
  rw [startedNumbers, List.filterMap_append]
  rfl

theorem startedNumbers_blocked (log : List StepEvent) (n : ℕ) (by_ : BlockedBy) :
    startedNumbers (log ++ [.blocked n by_]) = startedNumbers log := by
  rw [startedNumbers, List.filterMap_append]
  exact List.append_nil _

/-- A number that has been given out and has passed the bound. -/
structure Admitted (w : World Ctx V Claim) (n : ℕ) : Prop where
  pos : 0 < n
  counted : n ≤ w.stepCount
  within : (n : ℤ) ≤ stepLimit engine

/-- The numbers with which runs wait and handlers were started are admitted, and all different. -/
structure BoundInv (w : World Ctx V Claim) : Prop where
  waiting : ∀ r n, w.waitsAt r n → Admitted engine w n
  alone : ∀ r r' n, w.waitsAt r n → w.waitsAt r' n → r = r'
  fresh : ∀ r n, w.waitsAt r n → n ∉ startedNumbers w.log
  started : ∀ n ∈ startedNumbers w.log, Admitted engine w n
  nodup : (startedNumbers w.log).Nodup

variable {engine} {w w' : World Ctx V Claim} {r n : ℕ}

theorem Admitted.mono (h : Admitted engine w n) (hcount : w.stepCount ≤ w'.stepCount) :
    Admitted engine w' n :=
  ⟨h.pos, h.counted.trans hcount, h.within⟩

/-- No handler starts and no run comes to wait. -/
theorem BoundInv.keep (h : BoundInv engine w)
    (hlog : startedNumbers w'.log = startedNumbers w.log) (hcount : w.stepCount ≤ w'.stepCount)
    (hwaits : ∀ r n, w'.waitsAt r n → w.waitsAt r n) : BoundInv engine w' where
  waiting r n hn := (h.waiting r n (hwaits r n hn)).mono hcount
  alone r r' n hn hn' := h.alone r r' n (hwaits r n hn) (hwaits r' n hn')
  fresh r n hn := hlog ▸ h.fresh r n (hwaits r n hn)
  started n hn := (h.started n (hlog ▸ hn)).mono hcount
  nodup := hlog ▸ h.nodup

theorem BoundInv.quiet (h : BoundInv engine w) (hq : Quiet w w') : BoundInv engine w' :=
  h.keep (congrArg startedNumbers hq.log) hq.count.ge hq.waits

/-- A run comes to wait with a new number that has passed the bound. -/
theorem BoundInv.counted (h : BoundInv engine w)
    (hlimit : ((w.stepCount + 1 : ℕ) : ℤ) ≤ stepLimit engine)
    (hlog : startedNumbers w'.log = startedNumbers w.log)
    (hcount : w'.stepCount = w.stepCount + 1)
    (hwaits : ∀ r' m, w'.waitsAt r' m → r' = r ∧ m = w.stepCount + 1 ∨ w.waitsAt r' m) :
    BoundInv engine w' := by
  have hle : w.stepCount ≤ w'.stepCount := by omega
  refine ⟨fun r' m hm => ?_, fun r₁ r₂ m hm₁ hm₂ => ?_, fun r' m hm => ?_, fun m hm => ?_,
    hlog ▸ h.nodup⟩
  · rcases hwaits r' m hm with ⟨-, rfl⟩ | hold
    · exact ⟨Nat.succ_pos _, hcount.ge, hlimit⟩
    · exact (h.waiting r' m hold).mono hle
  · rcases hwaits r₁ m hm₁ with ⟨rfl, rfl⟩ | hold₁ <;>
      rcases hwaits r₂ _ hm₂ with ⟨rfl, hm⟩ | hold₂
    · rfl
    · have := (h.waiting r₂ _ hold₂).counted
      omega
    · have := (h.waiting r₁ m hold₁).counted
      omega
    · exact h.alone r₁ r₂ m hold₁ hold₂
  · rw [hlog]
    rcases hwaits r' m hm with ⟨-, rfl⟩ | hold
    · intro hstarted
      have := (h.started _ hstarted).counted
      omega
    · exact h.fresh r' m hold
  · exact (h.started m (hlog ▸ hm)).mono hle

/-- The handler of a step starts that has been admitted and that no other run waits for. -/
theorem BoundInv.start (h : BoundInv engine w) (hs : Starts w w' r n)
    (hn : Admitted engine w n) (hfresh : n ∉ startedNumbers w.log)
    (hother : ∀ r', r' ≠ r → ¬ w.waitsAt r' n) : BoundInv engine w' := by
  have hle : w.stepCount ≤ w'.stepCount := hs.count.ge
  have hlog : startedNumbers w'.log = startedNumbers w.log ++ [n] := by
    rw [hs.log, startedNumbers_started]
  refine ⟨fun r' m hm => ?_, fun r₁ r₂ m hm₁ hm₂ => ?_, fun r' m hm => ?_, fun m hm => ?_, ?_⟩
  · exact (h.waiting r' m (hs.waits r' m hm).2).mono hle
  · exact h.alone r₁ r₂ m (hs.waits r₁ m hm₁).2 (hs.waits r₂ m hm₂).2
  · obtain ⟨hr, hold⟩ := hs.waits r' m hm
    rw [hlog, List.mem_append, List.mem_singleton, not_or]
    refine ⟨h.fresh r' m hold, fun hm => ?_⟩
    exact hother r' hr (hm ▸ hold)
  · rw [hlog, List.mem_append, List.mem_singleton] at hm
    rcases hm with hm | rfl
    · exact (h.started m hm).mono hle
    · exact hn.mono hle
  · rw [hlog]
    refine List.nodup_append.mpr ⟨h.nodup, by simp, fun a ha b hb => ?_⟩
    rw [List.mem_singleton.mp hb]
    exact fun hab => hfresh (hab ▸ ha)

/-- Past the bound a run takes no step: it rejects, or has none to take. -/
theorem take_exceeded (run : Run Ctx V Claim) (elapsedMs : ℤ) (before : Option Err)
    (hlimit : stepLimit engine < ((w.stepCount + 1 : ℕ) : ℤ)) :
    (take engine w r run elapsedMs before).log = w.log ∧
      w.stepCount ≤ (take engine w r run elapsedMs before).stepCount ∧
      ∀ r' m, (take engine w r run elapsedMs before).waitsAt r' m → w.waitsAt r' m := by
  cases htodo : run.todo with
  | nil =>
      rw [take, htodo]
      exact ⟨rfl, le_rfl, (quiet_put w r rfl).waits⟩
  | cons step rest =>
      have hbounds : assertExecutionBounds engine (w.stepCount + 1) elapsedMs = .error
          { message := "[SAFETY_LIMIT] Exceeded maximum pipeline steps (" ++
              toString (stepLimit engine) ++ ")" } := by
        rw [assertExecutionBounds]
        exact if_pos hlimit
      rw [take, htodo]
      simp only [hbounds]
      exact ⟨rfl, Nat.le_succ _, (quiet_put { w with stepCount := w.stepCount + 1 } r rfl).waits⟩

theorem BoundInv.take (h : BoundInv engine w) (run : Run Ctx V Claim) (elapsedMs : ℤ)
    (before : Option Err) : BoundInv engine (take engine w r run elapsedMs before) := by
  by_cases hlimit : ((w.stepCount + 1 : ℕ) : ℤ) ≤ stepLimit engine
  · have hnew : w.stepCount + 1 ∉ startedNumbers w.log := fun hm => by
      have := (h.started _ hm).counted
      omega
    cases take_effect engine w r run elapsedMs before with
    | quiet hq => exact h.quiet hq
    | counted hlog hcount hwaits =>
        exact h.counted hlimit (congrArg startedNumbers hlog) hcount hwaits
    | started hs =>
        have hcount : BoundInv engine { w with stepCount := w.stepCount + 1 } :=
          h.keep rfl (Nat.le_succ _) fun _ _ hm => hm
        refine hcount.start hs ⟨Nat.succ_pos _, le_rfl, hlimit⟩ hnew fun r' _ hm => ?_
        have := (h.waiting r' _ hm).counted
        omega
    | blocked hforce hb =>
        refine h.counted (r := r) hlimit ?_ hb.count fun r' m hm => ?_
        · rw [hb.log, startedNumbers_blocked]
        · rcases hb.waits r' m hm with hnow | ⟨-, hold⟩
          · exact .inl hnow
          · exact .inr hold
  · obtain ⟨hlog, hcount, hwaits⟩ := take_exceeded (r := r) run elapsedMs before (not_le.mp hlimit)
    exact h.keep (congrArg startedNumbers hlog) hcount hwaits

theorem BoundInv.step (h : BoundInv engine w) {action : EngineAction Ctx V}
    (hstep : looseStep engine w action = some w') : BoundInv engine w' := by
  cases loose_effect hstep with
  | quiet hq => exact h.quiet hq
  | take r run elapsedMs before haction hrun heffect =>
      subst haction
      have htake : w' = Pipeline.take engine w r run elapsedMs before := by
        simp only [looseStep, pipelineStep, hrun] at hstep
        split at hstep
        · exact (Option.some.inj hstep).symm
        · cases hstep
      exact htake ▸ h.take run elapsedMs before
  | started r n hwaits hs =>
      exact h.start hs (h.waiting r n hwaits) (h.fresh r n hwaits)
        fun r' hr hwaits' => hr (h.alone r' r n hwaits' hwaits)
  | blocked r n by_ hblocks hrun hwaits hb =>
      refine h.keep ?_ hb.count.ge fun r' m hm => ?_
      · rw [hb.log, startedNumbers_blocked]
      · rcases hb.waits r' m hm with ⟨rfl, rfl⟩ | ⟨-, hold⟩
        · exact hwaits
        · exact hold

/-- Different admitted numbers are at most as many as the bound says. -/
theorem BoundInv.length_le (h : BoundInv engine w) :
    (startedNumbers w.log).length ≤ (stepLimit engine).toNat := by
  have hsub : startedNumbers w.log ⊆ List.range' 1 (stepLimit engine).toNat := fun n hn => by
    obtain ⟨hpos, -, hwithin⟩ := h.started n hn
    rw [List.mem_range'_1]
    omega
  calc (startedNumbers w.log).length
      ≤ (List.range' 1 (stepLimit engine).toNat).length :=
        (List.subperm_of_subset h.nodup hsub).length_le
    _ = (stepLimit engine).toNat := List.length_range'

end Bound

/-- In one call of `executeAdfSteps`, whatever the control handlers and the recoveries do, at most
`maxSteps` handlers are started. -/
theorem handlers_within_step_bound {engine : Engine Ctx V Claim} {w : World Ctx V Claim}
    (h : (executeAdfStepsLoose engine).Reachable w) :
    (w.log.countP StepEvent.isStarted : ℤ) ≤
      max 0 (engine.maxSteps.getD DEFAULT_MAX_PIPELINE_STEPS) := by
  have hinv : BoundInv engine w := by
    refine h.invariant (fun w hinit => ?_) fun w a w' h _ hstep => h.step hstep
    obtain ⟨steps, ctx, rfl⟩ := hinit
    have hwaits (r n : ℕ) :
        ¬ ({ runs := [openRun engine steps ctx none] } : World Ctx V Claim).waitsAt r n := by
      rintro ⟨run, hrun, hn⟩
      rw [List.mem_singleton.mp (List.mem_of_getElem? hrun), openRun_waits] at hn
      cases hn
    exact ⟨fun r n hn => absurd hn (hwaits r n), fun r _ n hn => absurd hn (hwaits r n),
      fun r n hn => absurd hn (hwaits r n), fun n hn => (nomatch hn), List.nodup_nil⟩
  have hlength := hinv.length_le
  rw [length_startedNumbers, stepLimit] at hlength
  omega

/-- A loop that goes on after the bound has stopped a nested run. -/
theorem handlers_within_step_bound_two : ∃ w : World Unit String Unit,
    w.log.countP StepEvent.isStarted = 2 ∧ w.stepCount = 4 ∧
      (w.log.countP StepEvent.isStarted : ℤ) ≤ max 0 2 := by
  let engine : Engine Unit String Unit := { gatedEngine with maxSteps := some 2 }
  have hrun : ∃ w, (executeAdfStepsLoose engine).Reachable w ∧
      (w.log.countP StepEvent.isStarted = 2 ∧ w.stepCount = 4) :=
    System.exists_reachable_of_exec (S := executeAdfStepsLoose engine)
      (s := { runs := [openRun engine [plainStep .control "while"] () none] })
      ([.take 0 0 none, .nest 0 [plainStep .apply "send"] ()] ++ admits 1 ++
        [.returned 1 (.context ()), .observed 1 (.ok none), .take 1 0 none,
          .nest 0 [plainStep .apply "send"] (), .take 2 0 none,
          .nest 0 [plainStep .apply "send"] (), .take 3 0 none, .returned 0 (.context ())])
      (fun w => w.log.countP StepEvent.isStarted = 2 ∧ w.stepCount = 4) ⟨_, _, rfl⟩
      (by decide +kernel)
  obtain ⟨w, hw, hstarted, hcount⟩ := hrun
  exact ⟨w, hstarted, hcount, handlers_within_step_bound hw⟩

end Kyberion.Pipeline
