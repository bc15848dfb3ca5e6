import Kyberion.Tool.BatchOrder
import Mathlib.Logic.Function.Iterate

/-!
A batch of calls that touch what their claims cover ends as the calls do one after another, when the
scheduler keeps the calls whose claims cover a common place in their order.
-/

namespace Kyberion.Tool

open Transition

variable {L N V R : Type}

section Coverage

-- how the file system reads a path: the names from its root on
variable (resolve : String → List N)

/-- What a claim stands for: a path, or the whole subtree under it. -/
def ResourceClaim.Covers : ResourceClaim → List N → Prop
  | .all, _ => True
  | .file claim, place =>
      place = resolve claim.path ∨ claim.recursive = true ∧ resolve claim.path <+: place

def ResourceClaim.Writes : ResourceClaim → Prop
  | .all => True
  | .file claim => claim.operation = .write

def Touches (claims : List ResourceClaim) (place : List N) : Prop :=
  ∃ claim ∈ claims, claim.Covers resolve place

def Changes (claims : List ResourceClaim) (place : List N) : Prop :=
  ∃ claim ∈ claims, claim.Writes ∧ claim.Covers resolve place

/-- The claims cover a common place that one of them writes. -/
def Clash (a b : List ResourceClaim) : Prop :=
  ∃ place, Changes resolve a place ∧ Touches resolve b place ∨
    Touches resolve a place ∧ Changes resolve b place

/-- The call reads only what its claims cover and writes only what they cover for writing. -/
structure ScheduledCall.RespectsClaims (call : ScheduledCall L (List N) V R) : Prop where
  local_eq : ∀ l store store', (∀ place, Touches resolve call.claims place →
    store place = store' place) → (call.act l store).1 = (call.act l store').1
  store_eq : ∀ l store store', (∀ place, Touches resolve call.claims place →
    store place = store' place) → ∀ place, Touches resolve call.claims place →
    (call.act l store).2 place = (call.act l store').2 place
  frame : ∀ l store place, ¬Changes resolve call.claims place →
    (call.act l store).2 place = store place

end Coverage

section Sequence

variable {P : Type}

/-- The call, run alone, settles with an outcome and leaves a store. -/
def ScheduledCall.Finishes (call : ScheduledCall L P V R) (store : P → V) (outcome : R)
    (store' : P → V) : Prop :=
  ∃ k l, (fun w : L × (P → V) => call.step w.1 w.2)^[k] (call.init, store) = (l, store') ∧
    call.outcome l = some outcome

/-- The calls one after another. -/
inductive Sequentially : List (ScheduledCall L P V R) → (P → V) → List R → (P → V) → Prop
  | nil (store : P → V) : Sequentially [] store [] store
  | snoc {calls : List (ScheduledCall L P V R)} {call : ScheduledCall L P V R}
      {store store' store'' : P → V} {outcomes : List R} {outcome : R} :
      Sequentially calls store outcomes store' → call.Finishes store' outcome store'' →
      Sequentially (calls ++ [call]) store (outcomes ++ [outcome]) store''

variable {call : ScheduledCall L P V R} {store s s' : P → V} {r r' : R} {rs rs' : List R}
  {calls : List (ScheduledCall L P V R)}

theorem ScheduledCall.step_of_settled {l : L} (h : (call.outcome l).isSome = true) :
    call.step l store = (l, store) := by
  rw [ScheduledCall.step, if_pos h]

theorem ScheduledCall.Finishes.le {w : L × (P → V)} {k m : ℕ} (hkm : k ≤ m)
    (h : (call.outcome ((fun w : L × (P → V) => call.step w.1 w.2)^[k] w).1).isSome = true) :
    (fun w : L × (P → V) => call.step w.1 w.2)^[m] w =
      (fun w : L × (P → V) => call.step w.1 w.2)^[k] w := by
  induction m, hkm using Nat.le_induction with
  | base => rfl
  | succ m _ ih =>
      rw [Function.iterate_succ_apply', ih, ScheduledCall.step_of_settled h]

theorem ScheduledCall.Finishes.unique (h : call.Finishes store r s)
    (h' : call.Finishes store r' s') : r = r' ∧ s = s' := by
  obtain ⟨k, l, hk, hl⟩ := h
  obtain ⟨m, l', hm, hl'⟩ := h'
  have heq : (l, s) = (l', s') := by
    rw [← hk, ← hm]
    rcases Nat.le_total k m with hle | hle
    · exact (ScheduledCall.Finishes.le hle (by rw [hk, hl]; rfl)).symm
    · exact ScheduledCall.Finishes.le hle (by rw [hm, hl']; rfl)
  obtain ⟨rfl, rfl⟩ := Prod.mk.inj heq
  exact ⟨Option.some.inj (hl.symm.trans hl'), rfl⟩

/-- Run one after another, the calls have one list of outcomes and leave one store. -/
theorem Sequentially.unique (h : Sequentially calls store rs s) (h' : Sequentially calls store rs' s') :
    rs = rs' ∧ s = s' := by
  induction h generalizing rs' s' with
  | nil store =>
      generalize hnil : ([] : List (ScheduledCall L P V R)) = calls at h'
      cases h' with
      | nil => exact ⟨rfl, rfl⟩
      | snoc => simp at hnil
  | snoc hrest hcall ih =>
      generalize hall : (_ ++ [_] : List (ScheduledCall L P V R)) = calls at h'
      cases h' with
      | nil => simp at hall
      | snoc hrest' hcall' =>
          obtain ⟨rfl, hlast⟩ := List.append_inj' hall rfl
          obtain rfl := List.singleton_inj.mp hlast
          obtain ⟨rfl, rfl⟩ := ih hrest'
          obtain ⟨rfl, rfl⟩ := hcall.unique hcall'
          exact ⟨rfl, rfl⟩

end Sequence

section Commutation

variable {resolve : String → List N} {ci cj call : ScheduledCall L (List N) V R} {l : L}
  {store store' : List N → V} {place : List N}

theorem Changes.touches {claims : List ResourceClaim} (h : Changes resolve claims place) :
    Touches resolve claims place := by
  obtain ⟨claim, hmem, -, hcovers⟩ := h
  exact ⟨claim, hmem, hcovers⟩

theorem Clash.symm {a b : List ResourceClaim} (h : Clash resolve a b) : Clash resolve b a := by
  obtain ⟨place, ⟨ha, hb⟩ | ⟨ha, hb⟩⟩ := h
  · exact ⟨place, .inr ⟨hb, ha⟩⟩
  · exact ⟨place, .inl ⟨hb, ha⟩⟩

theorem ScheduledCall.RespectsClaims.step_local (h : call.RespectsClaims resolve)
    (hagree : ∀ place, Touches resolve call.claims place → store place = store' place) :
    (call.step l store).1 = (call.step l store').1 := by
  unfold ScheduledCall.step
  split
  · rfl
  · exact h.local_eq l store store' hagree

theorem ScheduledCall.RespectsClaims.step_store (h : call.RespectsClaims resolve)
    (hagree : ∀ place, Touches resolve call.claims place → store place = store' place)
    (hplace : Touches resolve call.claims place) :
    (call.step l store).2 place = (call.step l store').2 place := by
  unfold ScheduledCall.step
  split
  · exact hagree place hplace
  · exact h.store_eq l store store' hagree place hplace

theorem ScheduledCall.RespectsClaims.step_frame (h : call.RespectsClaims resolve)
    (hplace : ¬Changes resolve call.claims place) : (call.step l store).2 place = store place := by
  unfold ScheduledCall.step
  split
  · rfl
  · exact h.frame l store place hplace

/-- What one call writes is out of the sight of a call that does not clash with it. -/
theorem agree_of_not_clash (hj : cj.RespectsClaims resolve)
    (hclash : ¬Clash resolve ci.claims cj.claims) (hplace : Touches resolve ci.claims place) :
    (cj.step l store).2 place = store place :=
  hj.step_frame fun hchange => hclash ⟨place, .inr ⟨hplace, hchange⟩⟩

theorem step_step_store (hi : ci.RespectsClaims resolve) (hj : cj.RespectsClaims resolve)
    (hclash : ¬Clash resolve ci.claims cj.claims) (store : List N → V) (li lj : L)
    (place : List N) :
    (Changes resolve ci.claims place →
      (ci.step li (cj.step lj store).2).2 place = (ci.step li store).2 place) ∧
    (¬Changes resolve ci.claims place →
      (ci.step li (cj.step lj store).2).2 place = (cj.step lj store).2 place) :=
  ⟨fun hchange => hi.step_store (fun _ => agree_of_not_clash hj hclash) hchange.touches,
    fun hchange => hi.step_frame hchange⟩

variable {calls : List (ScheduledCall L (List N) V R)} {i j : ℕ}

/-- Steps of calls that do not clash commute. -/
theorem commutes_of_not_clash (hrespect : ∀ call ∈ calls, call.RespectsClaims resolve)
    (hne : i ≠ j) (hclash : ¬Clash resolve (claimsOf calls i) (claimsOf calls j)) :
    Reorder.Commutes (worldStep calls) i j := by
  intro w
  cases hci : calls[i]? with
  | none => simp only [worldStep, hci]
  | some ci =>
      cases hcj : calls[j]? with
      | none => simp only [worldStep, hci, hcj]
      | some cj =>
          have hi := hrespect ci (List.mem_of_getElem? hci)
          have hj := hrespect cj (List.mem_of_getElem? hcj)
          simp only [claimsOf, hci, hcj, Option.map_some, Option.getD_some] at hclash
          have hclash' : ¬Clash resolve cj.claims ci.claims := fun h => hclash h.symm
          simp only [worldStep, hci, hcj, Function.update_of_ne hne, Function.update_of_ne hne.symm]
          refine Prod.ext ?_ (funext fun place => ?_)
          · dsimp only
            rw [Function.update_comm hne,
              hi.step_local fun _ => agree_of_not_clash hj hclash,
              hj.step_local fun _ => agree_of_not_clash hi hclash']
          · dsimp only
            obtain ⟨hij, hij'⟩ := step_step_store hi hj hclash w.2 (w.1 i) (w.1 j) place
            obtain ⟨hji, hji'⟩ := step_step_store hj hi hclash' w.2 (w.1 j) (w.1 i) place
            by_cases hchangei : Changes resolve ci.claims place
            · have hchangej : ¬Changes resolve cj.claims place :=
                fun h => hclash ⟨place, .inl ⟨hchangei, h.touches⟩⟩
              rw [hij hchangei, hji' hchangej]
            · rw [hij' hchangei]
              by_cases hchangej : Changes resolve cj.claims place
              · rw [hji hchangej]
              · rw [hji' hchangej, hi.step_frame hchangei, hj.step_frame hchangej]

end Commutation

section Blocks

variable {P : Type} {calls : List (ScheduledCall L P V R)} {w : (ℕ → L) × (P → V)} {i : ℕ}

theorem run_replicate_worldStep {call : ScheduledCall L P V R} (hcall : calls[i]? = some call)
    (k : ℕ) : Reorder.run (worldStep calls) (List.replicate k i) w =
      (Function.update w.1 i ((fun w : L × (P → V) => call.step w.1 w.2)^[k] (w.1 i, w.2)).1,
        ((fun w : L × (P → V) => call.step w.1 w.2)^[k] (w.1 i, w.2)).2) := by
  induction k generalizing w with
  | zero => simp
  | succ k ih =>
      rw [List.replicate_succ, Reorder.run_cons, ih]
      simp [worldStep, hcall, Function.iterate_succ_apply]

/-- The blocks of the first calls, each of which has settled by its block, are these calls one
after another. -/
theorem sequentially_blocks {locals : ℕ → L}
    (hlocals : ∀ i call, calls[i]? = some call → locals i = call.init) (store : P → V)
    (acts : List ℕ) (m : ℕ)
    (hm : m ≤ calls.length) (rs : List R) (hlength : rs.length = m)
    (hsettled : ∀ i call, calls[i]? = some call → i < m → call.outcome
      ((Reorder.run (worldStep calls) (Reorder.blocks acts m) (locals, store)).1 i) = rs[i]?) :
    Sequentially (calls.take m) store rs
      (Reorder.run (worldStep calls) (Reorder.blocks acts m) (locals, store)).2 ∧
    ∀ i, m ≤ i →
      (Reorder.run (worldStep calls) (Reorder.blocks acts m) (locals, store)).1 i = locals i := by
  induction m generalizing rs with
  | zero =>
      obtain rfl := List.length_eq_zero_iff.mp hlength
      exact ⟨.nil store, fun _ _ => rfl⟩
  | succ m ih =>
      obtain ⟨call, hcall⟩ : ∃ call, calls[m]? = some call := ⟨calls[m], by simp⟩
      obtain ⟨rest, r, rfl⟩ : ∃ rest r, rs = rest ++ [r] := by
        rcases List.eq_nil_or_concat rs with rfl | ⟨rest, r, rfl⟩
        · simp at hlength
        · exact ⟨rest, r, by simp⟩
      have hrest : rest.length = m := by simpa using hlength
      rw [Reorder.blocks_succ, Reorder.run_append, run_replicate_worldStep hcall] at hsettled ⊢
      dsimp only at hsettled ⊢
      obtain ⟨hseq, hlater⟩ := ih (by omega) rest hrest fun i other hother hi => by
        have h := hsettled i other hother (by omega)
        rwa [Function.update_of_ne (by omega), List.getElem?_append_left (by omega)] at h
      have hinit := (hlater m le_rfl).trans (hlocals m call hcall)
      have htake : calls.take (m + 1) = calls.take m ++ [call] := by
        rw [List.take_add_one, hcall]
        rfl
      refine ⟨?_, fun i hi => ?_⟩
      · rw [htake]
        refine hseq.snoc ⟨acts.count m, _, by rw [hinit], ?_⟩
        have h := hsettled m call hcall (Nat.lt_succ_self m)
        rw [Function.update_self, hinit] at h
        rw [h]
        simp [← hrest]
      · rw [Function.update_of_ne (by omega)]
        exact hlater i (by omega)

end Blocks

section Batches

variable (resolve : String → List N) (calls : List (ScheduledCall L (List N) V R))

/-- The claims of two calls conflict, by the places that they cover or by the test of the code. -/
def Conflicting (i j : ℕ) : Prop :=
  Clash resolve (claimsOf calls i) (claimsOf calls j) ∨
    callsConflict (claimsOf calls j) (claimsOf calls i) = true

/-- Calls whose claims cover a common place that one of them writes are kept in their order by the
conflicts that the code finds. -/
def ClashesKept : Prop :=
  ∀ i j, i < j → Clash resolve (claimsOf calls i) (claimsOf calls j) → KeptInOrder calls i j

structure SerialisableBatch (store : List N → V) (b : Batch L (List N) V R) : Prop where
  once : ∀ i, b.log.count (.started i) ≤ 1
  each : b.returned ≠ none →
    ∀ i < calls.length, b.log.count (.started i) = 1 ∧ b.log.count (.ended i) = 1
  apart : ∀ i j, i ≠ j → b.phase i = .running → b.phase j = .running →
    ¬Conflicting resolve calls i j
  inOrder : ∀ i j, i < j → Conflicting resolve calls i j →
    ∀ pre post, b.log = pre ++ .started j :: post → .ended i ∈ pre
  oneByOne : strictlySerial calls = true → ∀ i j, i < j →
    ∀ pre post, b.log = pre ++ .started j :: post → .ended i ∈ pre
  progress : b.returned = none → (∃ i, b.phase i = .running) ∨
    ∃ t, launch calls b = some t ∨ (∃ i, openGate calls b i = some t) ∨ finish calls b = some t
  outcomes : ∀ results, b.returned = some results → results.length = calls.length ∧
    ∀ i (call : ScheduledCall L (List N) V R), calls[i]? = some call →
      ∃ outcome, call.outcome (b.locals i) = some outcome ∧ results[i]? = some (some outcome)
  sequential : (∀ call ∈ calls, call.RespectsClaims resolve) →
    ∀ results, b.returned = some results → ∃ outcomes, results = outcomes.map some ∧
      Sequentially calls store outcomes b.store

variable {resolve calls} {store : List N → V} {b : Batch L (List N) V R} {i j : ℕ}

theorem kept_of_conflicting (hclashes : ClashesKept resolve calls) (hlt : i < j)
    (h : Conflicting resolve calls i j) : KeptInOrder calls i j := by
  rcases h with h | h
  · exact hclashes i j hlt h
  · exact .single ⟨hlt, .inr h⟩

theorem Conflicting.symm (h : Conflicting resolve calls i j) : Conflicting resolve calls j i :=
  h.imp Clash.symm fun h => by rwa [callsConflict_comm]

variable [Inhabited L]

theorem BatchInv.lt_of_acted (h : BatchInv calls store b) (hi : i ∈ b.acts) : i < calls.length := by
  by_contra hle
  exact h.acted i hi (h.ahead i (by have := h.bound; omega))

/-- The steps of the calls have the effect of the calls one after another. -/
theorem BatchInv.world_blocks (h : BatchInv calls store b) (hclashes : ClashesKept resolve calls)
    (hrespect : ∀ call ∈ calls, call.RespectsClaims resolve) :
    (b.locals, b.store) = Reorder.run (worldStep calls)
      (Reorder.blocks b.acts calls.length) (initialLocals calls, store) := by
  rw [h.world, Reorder.run_eq_blocks fun i hi => h.lt_of_acted hi]
  refine h.overtaken.imp fun {i j} hnot hlt => ?_
  refine commutes_of_not_clash hrespect hlt.ne' fun hclash => ?_
  exact hnot hlt (hclashes j i hlt hclash.symm)

theorem BatchInv.sequential (h : BatchInv calls store b) (hclashes : ClashesKept resolve calls)
    (hrespect : ∀ call ∈ calls, call.RespectsClaims resolve) {results : List (Option R)}
    (hreturned : b.returned = some results) :
    ∃ outcomes, results = outcomes.map some ∧ Sequentially calls store outcomes b.store := by
  obtain ⟨rfl, hall⟩ := h.returned results hreturned
  have hresult : ∀ i (hi : i < calls.length), ∃ outcome,
      calls[i].outcome (b.locals i) = some outcome ∧ b.results[i]? = some (some outcome) :=
    fun i hi => h.results i _ (List.getElem?_eq_getElem hi) (hall i hi)
  choose outcome hlocal hentry using hresult
  refine ⟨List.ofFn fun i : Fin calls.length => outcome i i.isLt, ?_, ?_⟩
  · refine List.ext_getElem? fun i => ?_
    by_cases hi : i < calls.length
    · rw [hentry i hi]
      simp [hi]
    · simp [hi, h.length]
  · have hworld := h.world_blocks hclashes hrespect
    have hinit : ∀ i call, calls[i]? = some call → initialLocals calls i = call.init :=
      fun i call hcall => by simp [initialLocals, hcall]
    generalize houtcomes : List.ofFn (fun i : Fin calls.length => outcome i i.isLt) = outcomes
    have hlength : outcomes.length = calls.length := by rw [← houtcomes, List.length_ofFn]
    have hseq := (sequentially_blocks hinit store b.acts calls.length le_rfl outcomes hlength ?_).1
    · rwa [List.take_length, ← hworld] at hseq
    · intro i call hcall hi
      obtain ⟨_, rfl⟩ := List.getElem?_eq_some_iff.mp hcall
      rw [← hworld, hlocal i hi, ← houtcomes]
      simp [hi]

/-- Batches whose clashing calls the conflict test keeps in order are serialisable, however the
calls interleave and settle. -/
theorem batches_serialisable (hclashes : ClashesKept resolve calls)
    (hb : (runToolCallBatch calls store).Reachable b) :
    SerialisableBatch resolve calls store b := by
  have h := BatchInv.of_reachable hb
  refine ⟨fun i => ?_, fun hreturned i hi => ?_, fun i j hne hi hj hconflict => ?_,
    fun i j hlt hconflict pre post hlog => ?_, fun hserial i j hlt pre post hlog => ?_,
    fun hopen => ?_, fun results hreturned => ?_, fun hrespect results hreturned => ?_⟩
  · rw [h.started i]
    split <;> omega
  · obtain ⟨results, hresults⟩ := Option.ne_none_iff_exists'.mp hreturned
    have hsettled := (h.returned results hresults).2 i hi
    rw [h.started i, h.ended i, hsettled]
    simp
  · rcases Nat.lt_or_gt_of_ne hne with hlt | hlt
    · have hkept := kept_of_conflicting hclashes hlt hconflict
      have hsettled := h.settled_of_kept hkept (by simp [hj])
      simp [hi] at hsettled
    · have hkept := kept_of_conflicting hclashes hlt hconflict.symm
      have hsettled := h.settled_of_kept hkept (by simp [hi])
      simp [hj] at hsettled
  · exact h.preceded pre _ post hlog i j rfl (kept_of_conflicting hclashes hlt hconflict)
  · exact h.preceded pre _ post hlog i j rfl (.single ⟨hlt, .inl hserial⟩)
  · by_cases hidle : ∀ i, b.phase i ≠ .running
    · exact .inr (h.progress hopen hidle)
    · push Not at hidle
      exact .inl hidle
  · obtain ⟨rfl, hall⟩ := h.returned results hreturned
    refine ⟨h.length, fun i call hcall => ?_⟩
    exact h.results i call hcall (hall i (List.getElem?_eq_some_iff.mp hcall).1)
  · exact h.sequential hclashes hrespect hreturned

end Batches

section Root

variable {resolve : String → List N} {claims : List ResourceClaim} {place : List N} 

/-- A call that writes a value in one step. -/
def writeCall [DecidableEq N] (claims : List ResourceClaim) (place : List N) (value : ℕ) :
    ScheduledCall (Option ℕ) (List N) ℕ ℕ where
  claims := claims
  init := none
  act _ store := (some value, Function.update store place value)
  outcome := id

/-- A call that reads a value in one step. -/
def readCall (claims : List ResourceClaim) (place : List N) :
    ScheduledCall (Option ℕ) (List N) ℕ ℕ where
  claims := claims
  init := none
  act _ store := (some (store place), store)
  outcome := id

theorem writeCall_respectsClaims [DecidableEq N] (h : Changes resolve claims place) (value : ℕ) :
    (writeCall claims place value).RespectsClaims resolve where
  local_eq _ _ _ _ := rfl
  store_eq l store store' hagree other hother := by
    by_cases hsame : other = place
    · simp [writeCall, hsame]
    · simp [writeCall, Function.update_of_ne hsame, hagree other hother]
  frame l store other hother := by
    have hne : other ≠ place := by
      rintro rfl
      exact hother h
    simp [writeCall, Function.update_of_ne hne]

theorem readCall_respectsClaims (h : Touches resolve claims place) :
    (readCall (N := N) claims place).RespectsClaims resolve where
  local_eq l store store' hagree := by
    simp [readCall, hagree place h]
  store_eq l store store' hagree other hother := hagree other hother
  frame _ _ _ _ := rfl

end Root

/-- The names of a path, read from the root. -/
def rootPlace (path : String) : List (List Char) :=
  (path.toList.splitOn '/').filter (· ≠ [])

/-- A write under the root, and a read below it. -/
def rootBatch : List (ScheduledCall (Option ℕ) (List (List Char)) ℕ ℕ) :=
  [writeCall [.file { operation := .write, path := "/", recursive := true }] [['x']] 1,
    readCall [.file { operation := .read, path := "/x" }] [['x']]]

theorem rootPlace_slash : rootPlace "/" = [] := by decide

theorem rootPlace_x : rootPlace "/x" = [['x']] := by decide

theorem changes_under_root : Changes rootPlace
    [.file { operation := .write, path := "/", recursive := true }] [['x']] := by
  refine ⟨_, List.mem_singleton_self _, rfl, .inr ⟨rfl, ?_⟩⟩
  rw [rootPlace_slash]
  exact List.nil_prefix

theorem touches_x : Touches rootPlace [.file { operation := .read, path := "/x" }] [['x']] :=
  ⟨_, List.mem_singleton_self _, .inl rootPlace_x.symm⟩

theorem rootBatch_respectsClaims : ∀ call ∈ rootBatch, call.RespectsClaims rootPlace := by
  simp only [rootBatch, List.forall_mem_cons]
  exact ⟨writeCall_respectsClaims changes_under_root 1, readCall_respectsClaims touches_x, by simp⟩

/-- One after another, the read comes behind the write. -/
theorem rootBatch_sequentially : Sequentially rootBatch (fun _ => 0) [1, 1]
    (Function.update (fun _ => 0) [['x']] 1) :=
  ((Sequentially.nil _).snoc ⟨1, some 1, rfl, rfl⟩).snoc ⟨1, some 1, rfl, rfl⟩

/-- A recursive claim on the root covers `/x`, but the code looks for the prefix `//`. -/
theorem root_claim_runs_beside_its_subtree :
    (∀ call ∈ rootBatch, call.RespectsClaims rootPlace) ∧ Conflicting rootPlace rootBatch 0 1 ∧
    (∃ b, (runToolCallBatch rootBatch fun _ => 0).Reachable b ∧
      b.phase 0 = .running ∧ b.phase 1 = .running) ∧
    ∃ b, (runToolCallBatch rootBatch fun _ => 0).Reachable b ∧
      b.returned = some [some 1, some 0] ∧
      ¬∃ store, Sequentially rootBatch (fun _ => 0) [1, 0] store := by
  refine ⟨rootBatch_respectsClaims,
    .inl ⟨[['x']], .inl ⟨changes_under_root, touches_x⟩⟩, ?_, ?_⟩
  · exact System.exists_reachable_of_exec (S := runToolCallBatch rootBatch fun _ => 0)
      (s := openBatch rootBatch fun _ => 0) [.launch, .launch]
      (fun b => b.phase 0 = .running ∧ b.phase 1 = .running) rfl (by decide +kernel)
  · obtain ⟨b, hb, hreturned⟩ := System.exists_reachable_of_exec
      (S := runToolCallBatch rootBatch fun _ => 0) (s := openBatch rootBatch fun _ => 0)
      [.launch, .launch, .act 1, .settle 1, .act 0, .settle 0, .finish]
      (fun b => b.returned = some [some 1, some 0]) rfl (by decide +kernel)
    refine ⟨b, hb, hreturned, fun ⟨store, hseq⟩ => ?_⟩
    have houtcomes := (hseq.unique rootBatch_sequentially).1
    simp at houtcomes

/-- A write under a directory, and a read below it. -/
def directoryBatch : List (ScheduledCall (Option ℕ) (List (List Char)) ℕ ℕ) :=
  [writeCall [.file { operation := .write, path := "a", recursive := true }] [['a'], ['x']] 1,
    readCall [.file { operation := .read, path := "a/x" }] [['a'], ['x']]]

theorem directoryBatch_clashesKept : ClashesKept rootPlace directoryBatch := by
  intro i j hlt hclash
  obtain ⟨rfl, rfl⟩ | hj : i = 0 ∧ j = 1 ∨ 2 ≤ j := by omega
  · exact .single ⟨hlt, .inr (by decide +kernel)⟩
  · have hnone : claimsOf directoryBatch j = [] := claimsOf_of_length_le hj
    obtain ⟨place, ⟨-, claim, hclaim, -⟩ | ⟨-, claim, hclaim, -⟩⟩ := hclash
    · exact absurd (hnone ▸ hclaim) List.not_mem_nil
    · exact absurd (hnone ▸ hclaim) List.not_mem_nil

theorem batches_serialisable_directory : ∃ b,
    (runToolCallBatch directoryBatch fun _ => 0).Reachable b ∧
      b.returned = some [some 1, some 1] ∧
      SerialisableBatch rootPlace directoryBatch (fun _ => 0) b := by
  obtain ⟨b, hb, hreturned⟩ := System.exists_reachable_of_exec
    (S := runToolCallBatch directoryBatch fun _ => 0) (s := openBatch directoryBatch fun _ => 0)
    [.launch, .launch, .act 0, .settle 0, .openGate 1, .act 1, .settle 1, .finish]
    (fun b => b.returned = some [some 1, some 1]) rfl (by decide +kernel)
  exact ⟨b, hb, hreturned, batches_serialisable directoryBatch_clashesKept hb⟩

end Kyberion.Tool
