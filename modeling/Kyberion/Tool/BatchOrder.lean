import Kyberion.Dataflow
import Kyberion.Reorder
import Kyberion.Tool.Batch
import Mathlib.Logic.Relation

/-!
What a batch keeps: the phases of the calls agree with the log and with the results, a call starts
behind those that it waits for, and the steps of the calls are a run in which nobody overtakes a
call that is kept before it.
-/

namespace Kyberion.Tool

open Transition

variable {L P V R : Type} (calls : List (ScheduledCall L P V R))

/-- A chain of calls, each of which waits for the one before it. -/
def KeptInOrder (i j : ℕ) : Prop :=
  Relation.TransGen (fun i j => WaitsFor calls j i) i j

/-- A step of call `i`, on the local states and the store. -/
def worldStep (i : ℕ) (w : (ℕ → L) × (P → V)) : (ℕ → L) × (P → V) :=
  match calls[i]? with
  | none => w
  | some call =>
      (Function.update w.1 i (call.step (w.1 i) w.2).1, (call.step (w.1 i) w.2).2)

structure BatchInv [Inhabited L] (store : P → V) (b : Batch L P V R) : Prop where
  bound : b.next ≤ calls.length
  ahead : ∀ i, b.next ≤ i → b.phase i = .waiting
  order : ∀ i j, WaitsFor calls j i → b.phase j ≠ .waiting → b.phase i = .settled
  serial : strictlySerial calls = true → ∀ i < b.next, b.phase i ≠ .waiting
  started : ∀ i, b.log.count (.started i) = if b.phase i = .waiting then 0 else 1
  ended : ∀ i, b.log.count (.ended i) = if b.phase i = .settled then 1 else 0
  preceded : Preceded
    (fun pre event => ∀ i j, event = .started j → KeptInOrder calls i j → .ended i ∈ pre) b.log
  length : b.results.length = calls.length
  results : ∀ i call, calls[i]? = some call → b.phase i = .settled →
    ∃ outcome, call.outcome (b.locals i) = some outcome ∧ b.results[i]? = some (some outcome)
  world : (b.locals, b.store) = Reorder.run (worldStep calls) b.acts (initialLocals calls, store)
  acted : ∀ i ∈ b.acts, b.phase i ≠ .waiting
  overtaken : b.acts.Pairwise fun a c => c < a → ¬KeptInOrder calls c a
  returned : ∀ results, b.returned = some results →
    results = b.results ∧ ∀ i < calls.length, b.phase i = .settled

variable {calls} [Inhabited L] {store : P → V} {b t : Batch L P V R} {i j : ℕ}

theorem BatchInv.open : BatchInv calls store (openBatch calls store) where
  bound := Nat.zero_le _
  ahead _ _ := rfl
  order _ _ _ h := absurd rfl h
  serial _ _ h := absurd h (Nat.not_lt_zero _)
  started _ := rfl
  ended _ := rfl
  preceded := .nil
  length := List.length_replicate
  results _ _ _ h := nomatch h
  world := rfl
  acted _ h := nomatch h
  overtaken := .nil
  returned _ h := nomatch h

/-- What a call that has started is kept behind has settled. -/
theorem BatchInv.settled_of_kept (h : BatchInv calls store b) (hkept : KeptInOrder calls i j)
    (hj : b.phase j ≠ .waiting) : b.phase i = .settled := by
  induction hkept with
  | single hwaits => exact h.order i _ hwaits hj
  | tail _ hwaits ih =>
      have hmid := h.order _ _ hwaits hj
      exact ih (by simp [hmid])

theorem BatchInv.settled_of_gateOpen (h : BatchInv calls store b) (hgate : GateOpen calls b j)
    (hkept : KeptInOrder calls i j) : b.phase i = .settled := by
  cases hkept with
  | single hwaits => exact hgate i hwaits
  | tail hchain hwaits =>
      have hmid := hgate _ hwaits
      exact h.settled_of_kept hchain (by simp [hmid])

theorem BatchInv.advance (h : BatchInv calls store b) (hlt : b.next < calls.length)
    (hserial : strictlySerial calls = false) :
    BatchInv calls store { b with next := b.next + 1 } :=
  { h with
    bound := hlt
    ahead := fun i hi => h.ahead i (by dsimp only at hi; omega)
    serial := fun hs => by simp [hserial] at hs }

/-- A call that was waiting starts when those that it waits for have settled. -/
theorem BatchInv.start {next : ℕ} (h : BatchInv calls store b) (hnext : b.next ≤ next)
    (hbound : next ≤ calls.length) (hi : i < next) (hwaiting : b.phase i = .waiting)
    (hgate : GateOpen calls b i)
    (hserial : strictlySerial calls = true → ∀ j < next, j ≠ i → b.phase j ≠ .waiting) :
    BatchInv calls store (({ b with next := next } : Batch L P V R).start i) where
  bound := hbound
  ahead j hj := by
    rw [start_next] at hj
    rw [start_phase, Function.update_of_ne (by dsimp only at hj; omega)]
    exact h.ahead j (hnext.trans hj)
  order k j hwaits hj := by
    have hk : b.phase k = .settled := by
      rw [start_phase] at hj
      by_cases hsame : j = i
      · exact hgate k (hsame ▸ hwaits)
      · rw [Function.update_of_ne hsame] at hj
        exact h.order k j hwaits hj
    rw [start_phase, Function.update_of_ne (by rintro rfl; simp [hwaiting] at hk)]
    exact hk
  serial hs j hj := by
    rw [start_phase]
    by_cases hsame : j = i
    · simp [hsame]
    · rw [Function.update_of_ne hsame]
      exact hserial hs j hj hsame
  started j := by
    rw [start_log, start_phase, List.count_append, h.started j]
    by_cases hsame : j = i
    · subst hsame
      simp [hwaiting]
    · rw [Function.update_of_ne hsame]
      simp [Ne.symm hsame]
  ended j := by
    rw [start_log, start_phase, List.count_append, h.ended j]
    by_cases hsame : j = i
    · subst hsame
      simp [hwaiting]
    · rw [Function.update_of_ne hsame]
      simp
  preceded := h.preceded.snoc fun k j hevent hkept => by
    obtain rfl := BatchEvent.started.inj hevent
    have hended := h.ended k
    rw [if_pos (h.settled_of_gateOpen hgate hkept)] at hended
    exact List.count_pos_iff.mp (by omega)
  length := h.length
  results j call hcall hj := by
    rw [start_phase] at hj
    by_cases hsame : j = i
    · simp [hsame] at hj
    · rw [Function.update_of_ne hsame] at hj
      exact h.results j call hcall hj
  world := h.world
  acted j hj := by
    rw [start_phase]
    by_cases hsame : j = i
    · simp [hsame]
    · rw [Function.update_of_ne hsame]
      exact h.acted j hj
  overtaken := h.overtaken
  returned results hreturned := by
    obtain ⟨-, hall⟩ := h.returned results hreturned
    have hsettled := hall i (Nat.lt_of_lt_of_le hi hbound)
    simp [hwaiting] at hsettled

theorem BatchInv.act (h : BatchInv calls store b) {call : ScheduledCall L P V R}
    (hcall : calls[i]? = some call) (hrunning : b.phase i = .running) :
    BatchInv calls store (b.act i call) where
  bound := h.bound
  ahead := h.ahead
  order := h.order
  serial := h.serial
  started := h.started
  ended := h.ended
  preceded := h.preceded
  length := h.length
  results j other hother hj := by
    have hne : j ≠ i := by
      rintro rfl
      simp [hrunning] at hj
    rw [act_locals, Function.update_of_ne hne]
    exact h.results j other hother hj
  world := by
    rw [act_acts, Reorder.run_append, ← h.world]
    simp only [Reorder.run_cons, Reorder.run_nil, worldStep, hcall]
    rfl
  acted j hj := by
    rcases List.mem_append.mp hj with hj | hj
    · exact h.acted j hj
    · rw [List.mem_singleton.mp hj]
      simp [hrunning]
  overtaken := by
    refine List.pairwise_append.mpr ⟨h.overtaken, List.pairwise_singleton _ _, ?_⟩
    intro a ha c hc hlt hkept
    rw [List.mem_singleton.mp hc] at hkept
    have hsettled := h.settled_of_kept hkept (h.acted a ha)
    simp [hrunning] at hsettled
  returned := h.returned

theorem BatchInv.settle (h : BatchInv calls store b) {call : ScheduledCall L P V R} {outcome : R}
    (hcall : calls[i]? = some call) (houtcome : call.outcome (b.locals i) = some outcome)
    (hrunning : b.phase i = .running) :
    BatchInv calls store (b.settle i outcome) where
  bound := h.bound
  ahead j hj := by
    have hne : j ≠ i := by
      rintro rfl
      simp [h.ahead j hj] at hrunning
    rw [settle_phase, Function.update_of_ne hne]
    exact h.ahead j hj
  order k j hwaits hj := by
    by_cases hsame : k = i
    · simp [hsame]
    · rw [settle_phase, Function.update_of_ne hsame]
      refine h.order k j hwaits fun hwaiting => ?_
      by_cases hji : j = i
      · simp [hji, hrunning] at hwaiting
      · simp [Function.update_of_ne hji, hwaiting] at hj
  serial hs j hj := by
    by_cases hsame : j = i
    · simp [hsame]
    · rw [settle_phase, Function.update_of_ne hsame]
      exact h.serial hs j hj
  started j := by
    rw [settle_log, settle_phase, List.count_append, h.started j]
    by_cases hsame : j = i
    · subst hsame
      simp [hrunning]
    · rw [Function.update_of_ne hsame]
      simp
  ended j := by
    rw [settle_log, settle_phase, List.count_append, h.ended j]
    by_cases hsame : j = i
    · subst hsame
      simp [hrunning]
    · rw [Function.update_of_ne hsame]
      simp [Ne.symm hsame]
  preceded := h.preceded.snoc fun _ _ hevent => nomatch hevent
  length := by rw [settle_results, List.length_set, h.length]
  results j other hother hj := by
    by_cases hsame : j = i
    · subst hsame
      obtain rfl := Option.some.inj (hcall.symm.trans hother)
      refine ⟨outcome, houtcome, ?_⟩
      have hlt : j < b.results.length := by
        rw [h.length]
        exact (List.getElem?_eq_some_iff.mp hcall).1
      simp [hlt]
    · rw [settle_phase, Function.update_of_ne hsame] at hj
      rw [settle_results, List.getElem?_set_ne (Ne.symm hsame)]
      exact h.results j other hother hj
  world := h.world
  acted j hj := by
    by_cases hsame : j = i
    · simp [hsame]
    · rw [settle_phase, Function.update_of_ne hsame]
      exact h.acted j hj
  overtaken := h.overtaken
  returned results hreturned := by
    obtain ⟨-, hall⟩ := h.returned results hreturned
    have hsettled := hall i (List.getElem?_eq_some_iff.mp hcall).1
    simp [hrunning] at hsettled

theorem BatchInv.step {a : BatchAction} (h : BatchInv calls store b)
    (hstep : batchStep calls b a = some t) : BatchInv calls store t := by
  cases a with
  | launch =>
      obtain ⟨hlt, ⟨hgate, rfl⟩ | ⟨hserial, rfl⟩⟩ := launch_cases hstep
      · refine h.start (Nat.le_succ _) hlt (Nat.lt_succ_self _) (h.ahead _ le_rfl) hgate ?_
        intro hs j hj hne
        exact h.serial hs j (by omega)
      · exact h.advance hlt hserial
  | openGate i =>
      obtain ⟨hlt, hwaiting, hgate, rfl⟩ := openGate_cases hstep
      exact h.start le_rfl h.bound hlt hwaiting hgate fun hs j hj _ => h.serial hs j hj
  | act i =>
      obtain ⟨call, hcall, hrunning, rfl⟩ := actOnce_cases hstep
      exact h.act hcall hrunning
  | settle i =>
      obtain ⟨call, outcome, hcall, houtcome, hrunning, rfl⟩ := settle_cases hstep
      exact h.settle hcall houtcome hrunning
  | finish =>
      obtain ⟨hnext, hall, rfl⟩ := finish_cases hstep
      exact { h with returned := fun results hreturned =>
        ⟨(Option.some.inj hreturned).symm, fun i hi => hall i (hnext ▸ hi)⟩ }

theorem BatchInv.of_reachable (h : (runToolCallBatch calls store).Reachable b) :
    BatchInv calls store b :=
  h.invariant (fun _ h0 => h0 ▸ .open) fun _ _ _ hs _ hstep => hs.step hstep

/-- As long as no call is running, the scheduler goes on. -/
theorem BatchInv.progress (h : BatchInv calls store b) (hopen : b.returned = none)
    (hidle : ∀ i, b.phase i ≠ .running) :
    ∃ t, launch calls b = some t ∨ (∃ i, openGate calls b i = some t) ∨ finish calls b = some t := by
  by_cases hall : ∀ i < b.next, b.phase i = .settled
  · rcases h.bound.lt_or_eq with hlt | heq
    · exact (launch_of_settled hlt hall).imp fun _ => .inl
    · exact ⟨_, .inr (.inr (if_pos ⟨heq, fun j hj => hall j (List.mem_range.mp hj), hopen⟩))⟩
  · -- the first call that has not settled waits for calls that have
    push Not at hall
    obtain ⟨hlt, hopenCall⟩ := Nat.find_spec hall
    have hbefore : ∀ j < Nat.find hall, b.phase j = .settled := fun j hj => by
      by_contra hne
      exact Nat.find_min hall hj ⟨hj.trans hlt, hne⟩
    have hwaiting : b.phase (Nat.find hall) = .waiting := by
      cases hphase : b.phase (Nat.find hall) with
      | waiting => rfl
      | running => exact absurd hphase (hidle _)
      | settled => exact absurd hphase hopenCall
    have hserial : strictlySerial calls = false := by
      by_contra hs
      exact h.serial (by simpa using hs) _ hlt hwaiting
    exact ⟨_, .inr (.inl ⟨_, if_pos ⟨hserial, hlt, hwaiting, fun j hj =>
      hbefore j ((mem_deps calls).mp hj).1⟩⟩)⟩

end Kyberion.Tool
