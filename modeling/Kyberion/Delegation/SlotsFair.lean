import Kyberion.Census
import Kyberion.Delegation.Slots

/-!
No cap is ever exceeded, the counters are exact, places are given in the order they were asked for,
and as long as a call is not done some call can go on.
-/

namespace Kyberion.Delegation.Slots

open FifoSemaphore Census Transition

/-- Where a call stands towards one semaphore. -/
inductive Stage
  | away
  | waiting
  | granted
  | counted
  | leaving
  deriving DecidableEq

def Stage.holds : Stage → Bool
  | .granted | .counted | .leaving => true
  | _ => false

def Stage.isQueued : Stage → Bool
  | .waiting | .granted => true
  | _ => false

/-- What the state of a semaphore says of the calls. -/
structure SlotOk (state : SlotState) (stage : ℕ → Stage) : Prop where
  fair : Fair state.semaphore state.arrived state.served
  holders : census (fun s => Stage.holds s = true) stage = (state.semaphore.active : ℕ)
  active : census (fun s => s = .counted) stage = (state.active : ℕ)
  queued : census (fun s => Stage.isQueued s = true) stage = (state.queued : ℕ)
  queue : ∀ id, id ∈ state.semaphore.queue ↔ stage id = .waiting
  nodup : state.semaphore.queue.Nodup

namespace SlotOk

variable {state : SlotState} {stage : ℕ → Stage} {id : ℕ}

theorem initial (limit : ℕ) : SlotOk { semaphore := { limit } } fun _ => .away where
  fair := Fair.initial limit
  holders := by simp [census, Stage.holds]
  active := by simp [census]
  queued := by simp [census, Stage.isQueued]
  queue _ := iff_of_false (by rintro ⟨⟩) (by rintro ⟨⟩)
  nodup := List.nodup_nil

theorem queue_update {queue : List ℕ} {s : Stage}
    (h : ∀ id', id' ∈ state.semaphore.queue ↔ stage id' = .waiting)
    (hself : id ∈ queue ↔ s = .waiting)
    (hother : ∀ id', id' ≠ id → (id' ∈ queue ↔ id' ∈ state.semaphore.queue)) :
    ∀ id', id' ∈ queue ↔ Function.update stage id s id' = .waiting := by
  intro id'
  by_cases hid : id' = id
  · subst hid
    rw [hself, Function.update_self]
  · rw [hother id' hid, h id', Function.update_of_ne hid]

theorem enter_granted (h : SlotOk state stage) (haway : stage id = .away)
    (hgranted : (state.enter id).2 = true) :
    SlotOk (state.enter id).1 (Function.update stage id .granted) := by
  obtain ⟨hfair, hactive, hqueue⟩ :=
    h.fair.acquired (t := (state.semaphore.acquire id).1) (a := id) (Prod.ext rfl hgranted)
  have hserved : (state.enter id).1.served = state.served ++ [id] := if_pos hgranted
  refine ⟨hserved ▸ hfair, ?_, ?_, ?_, ?_, ?_⟩
  · exact (census_gain_eq h.holders (by rw [haway]; decide) rfl).trans
      (congrArg Nat.cast hactive.symm)
  · exact (census_keep (by simp [haway])).trans h.active
  · exact census_gain_eq h.queued (by rw [haway]; decide) rfl
  · refine queue_update h.queue (iff_of_false ?_ (by rintro ⟨⟩)) fun id' _ => by
      exact iff_of_eq (congrArg (id' ∈ ·) hqueue)
    intro hmem
    have hwaiting := (h.queue id).mp (hqueue ▸ hmem)
    rw [haway] at hwaiting
    cases hwaiting
  · exact hqueue.symm ▸ h.nodup

theorem enter_waiting (h : SlotOk state stage) (haway : stage id = .away)
    (hwaits : (state.enter id).2 = false) :
    SlotOk (state.enter id).1 (Function.update stage id .waiting) := by
  obtain ⟨hfair, hactive, hqueue⟩ :=
    h.fair.queued (t := (state.semaphore.acquire id).1) (a := id) (Prod.ext rfl hwaits)
  have hserved : (state.enter id).1.served = state.served :=
    if_neg (Bool.eq_false_iff.mp hwaits)
  have hnew : id ∉ state.semaphore.queue := by
    intro hmem
    rw [h.queue id, haway] at hmem
    cases hmem
  refine ⟨hserved ▸ hfair, ?_, ?_, ?_, ?_, ?_⟩
  · exact (census_keep (by simp [haway, Stage.holds])).trans
      (h.holders.trans (congrArg Nat.cast hactive.symm))
  · exact (census_keep (by simp [haway])).trans h.active
  · exact census_gain_eq h.queued (by rw [haway]; decide) rfl
  · refine queue_update h.queue (iff_of_true ?_ rfl) fun id' hid => ?_
    · exact hqueue.symm ▸ List.mem_append_right _ List.mem_cons_self
    · rw [show (state.enter id).1.semaphore.queue = state.semaphore.queue ++ [id] from hqueue]
      simp [hid]
  · exact hqueue.symm ▸ List.nodup_append.mpr ⟨h.nodup, List.nodup_singleton id,
      fun a ha b hb hab => hnew (List.mem_singleton.mp hb ▸ hab ▸ ha)⟩

/-- Only the place of one call changes, and it waits neither before nor after. -/
theorem queue_keep (id : ℕ) (s : Stage) (h : SlotOk state stage) (hold : stage id ≠ .waiting)
    (hnew : s ≠ .waiting) :
    ∀ id', id' ∈ state.semaphore.queue ↔ Function.update stage id s id' = .waiting :=
  queue_update h.queue (iff_of_false (fun hmem => hold ((h.queue id).mp hmem)) hnew)
    fun _ _ => Iff.rfl

theorem count_pos {P : Stage → Prop} {n : ℕ} (id : ℕ) (hn : census P stage = (n : ℕ))
    (h : P (stage id)) : ∃ m, n = m + 1 := by
  refine Nat.exists_eq_succ_of_ne_zero fun hzero => census_ne_zero (f := stage) h ?_
  rw [hn, hzero, Nat.cast_zero]

theorem begin_ (h : SlotOk state stage) (hgranted : stage id = .granted) :
    SlotOk state.begin_ (Function.update stage id .counted) := by
  obtain ⟨m, hm⟩ := count_pos id h.queued (by rw [hgranted]; rfl)
  have hqueued := h.queued
  rw [hm] at hqueued
  refine ⟨h.fair, ?_, ?_, ?_, h.queue_keep id _ (by simp [hgranted]) (by decide), h.nodup⟩
  · exact (census_keep (by simp [hgranted, Stage.holds])).trans h.holders
  · exact census_gain_eq h.active (by simp [hgranted]) rfl
  · refine (census_lose_eq hqueued (by rw [hgranted]; rfl) (by decide)).trans ?_
    simp [SlotState.begin_, hm]

theorem end_ (h : SlotOk state stage) (hcounted : stage id = .counted) :
    SlotOk state.end_ (Function.update stage id .leaving) := by
  obtain ⟨m, hm⟩ := count_pos id h.active hcounted
  have hactive := h.active
  rw [hm] at hactive
  refine ⟨h.fair, ?_, ?_, ?_, h.queue_keep id _ (by simp [hcounted]) (by decide), h.nodup⟩
  · exact (census_keep (by simp [hcounted, Stage.holds])).trans h.holders
  · refine (census_lose_eq hactive hcounted (by decide)).trans ?_
    simp [SlotState.end_, hm]
  · exact (census_keep (by simp [hcounted, Stage.isQueued])).trans h.queued

/-- The last holder leaves, or one whose place nobody waits for. -/
theorem release_none (h : SlotOk state stage) (hleaving : stage id = .leaving)
    (hnone : state.release.2 = none) :
    SlotOk state.release.1 (Function.update stage id .away) := by
  obtain ⟨hfair, hactive, hempty, hqueue⟩ :=
    h.fair.released (t := state.semaphore.release.1) (Prod.ext rfl hnone)
  obtain ⟨m, hm⟩ := count_pos id h.holders (by rw [hleaving]; rfl)
  have hholders := h.holders
  rw [hm] at hholders
  have hserved : state.release.1.served = state.served := by
    rw [SlotState.release, show state.semaphore.release.2 = none from hnone]
    exact List.append_nil _
  refine ⟨hserved ▸ hfair, ?_, ?_, ?_, ?_, ?_⟩
  · refine (census_lose_eq hholders (by rw [hleaving]; rfl) (by decide)).trans ?_
    rw [show state.release.1.semaphore.active = state.semaphore.active - 1 from hactive, hm]
    rfl
  · exact (census_keep (by simp [hleaving])).trans h.active
  · exact (census_keep (by simp [hleaving, Stage.isQueued])).trans h.queued
  · rw [show state.release.1.semaphore.queue = state.semaphore.queue from hqueue.trans hempty.symm]
    exact h.queue_keep id _ (by simp [hleaving]) (by decide)
  · rw [show state.release.1.semaphore.queue = [] from hqueue]
    exact List.nodup_nil

/-- A holder leaves, and its place goes to the call that has waited longest. -/
theorem release_some (h : SlotOk state stage) (hleaving : stage id = .leaving) {next : ℕ}
    (hnext : state.release.2 = some next) :
    stage next = .waiting ∧ SlotOk state.release.1
      (Function.update (Function.update stage id .away) next .granted) := by
  obtain ⟨m, hm⟩ := count_pos id h.holders (by rw [hleaving]; rfl)
  obtain ⟨hfair, hactive, hqueue⟩ := h.fair.passedOn (t := state.semaphore.release.1)
    (Prod.ext rfl hnext) (by omega)
  have hholders := h.holders
  rw [hm] at hholders
  have hserved : state.release.1.served = state.served ++ [next] := by
    rw [SlotState.release, show state.semaphore.release.2 = some next from hnext]
    rfl
  have hwaiting : stage next = .waiting := (h.queue next).mp (hqueue ▸ List.mem_cons_self)
  have hne : next ≠ id := by
    rintro rfl
    rw [hleaving] at hwaiting
    cases hwaiting
  have hwaiting' : Function.update stage id .away next = .waiting := by
    rwa [Function.update_of_ne hne]
  have hnodup := h.nodup
  rw [hqueue] at hnodup
  obtain ⟨hfirst, hrest⟩ := List.nodup_cons.mp hnodup
  refine ⟨hwaiting, hserved ▸ hfair, ?_, ?_, ?_, ?_, hrest⟩
  · have hlost := census_lose_eq (a := Stage.away) hholders (by rw [hleaving]; rfl) (by decide)
    refine (census_gain_eq hlost (by rw [hwaiting']; decide) rfl).trans ?_
    rw [show state.release.1.semaphore.active = state.semaphore.active from hactive, hm]
  · refine (census_keep (by simp [hwaiting'])).trans ?_
    exact (census_keep (by simp [hleaving])).trans h.active
  · refine (census_keep (by simp [hwaiting', Stage.isQueued])).trans ?_
    exact (census_keep (by simp [hleaving, Stage.isQueued])).trans h.queued
  · intro id'
    by_cases hid : id' = next
    · subst hid
      rw [Function.update_self]
      exact iff_of_false hfirst (by rintro ⟨⟩)
    · have hkeep := h.queue_keep id .away (by simp [hleaving]) (by decide) id'
      rw [Function.update_of_ne hid, ← hkeep, hqueue, List.mem_cons, or_iff_right hid]
      exact Iff.rfl

end SlotOk

section Stages

variable {w : World} {id : ℕ} {c : SlotCall} {phase : Phase} {name : String}

def Phase.globalStage : Phase → Stage
  | .waitingGlobal => .waiting
  | .grantedGlobal => .granted
  | .unwound => .leaving
  | .done => .away
  | _ => .counted

def Phase.providerStage : Phase → Stage
  | .waitingProvider => .waiting
  | .grantedProvider => .granted
  | .running | .settled => .counted
  | .ended => .leaving
  | _ => .away

def globalOf : Option SlotCall → Stage
  | none => .away
  | some c => c.phase.globalStage

def providerOf (name : String) : Option SlotCall → Stage
  | none => .away
  | some c => if c.provider = name then c.phase.providerStage else .away

def World.globalStage (w : World) (id : ℕ) : Stage :=
  globalOf (w.calls id)

def World.providerStage (w : World) (name : String) (id : ℕ) : Stage :=
  providerOf name (w.calls id)

theorem globalStage_goTo : (w.goTo id c phase).globalStage =
    Function.update w.globalStage id phase.globalStage := by
  funext id'
  by_cases hid : id' = id
  · subst hid
    simp [World.globalStage, World.goTo, globalOf]
  · simp [World.globalStage, World.goTo, hid]

theorem providerStage_goTo : (w.goTo id c phase).providerStage name =
    Function.update (w.providerStage name) id
      (if c.provider = name then phase.providerStage else .away) := by
  funext id'
  by_cases hid : id' = id
  · subst hid
    simp [World.providerStage, World.goTo, providerOf]
  · simp [World.providerStage, World.goTo, hid]

theorem globalStage_of (hc : w.calls id = some c) : w.globalStage id = c.phase.globalStage := by
  rw [World.globalStage, hc, globalOf]

theorem providerStage_of (hc : w.calls id = some c) :
    w.providerStage c.provider id = c.phase.providerStage := by
  rw [World.providerStage, hc, providerOf, if_pos rfl]

/-- A call is never on the books of a provider that is not its own. -/
theorem providerStage_other (hc : w.calls id = some c) (hname : c.provider ≠ name) :
    w.providerStage name id = .away := by
  rw [World.providerStage, hc, providerOf, if_neg hname]

/-- The move of a call within its stage. -/
theorem globalStage_same (phase : Phase) (hc : w.calls id = some c)
    (h : phase.globalStage = c.phase.globalStage) :
    (w.goTo id c phase).globalStage = w.globalStage := by
  rw [globalStage_goTo, h, ← globalStage_of hc, Function.update_eq_self]

theorem providerStage_same (name : String) (phase : Phase) (hc : w.calls id = some c)
    (h : c.provider = name → phase.providerStage = c.phase.providerStage) :
    (w.goTo id c phase).providerStage name = w.providerStage name := by
  rw [providerStage_goTo]
  refine Function.update_eq_self_iff.mpr ?_
  by_cases hname : c.provider = name
  · subst hname
    rw [if_pos rfl, h rfl, providerStage_of hc]
  · rw [if_neg hname, providerStage_other hc hname]

theorem waiting_global (h : w.globalStage id = .waiting) :
    ∃ c, w.calls id = some c ∧ c.phase = .waitingGlobal := by
  cases hc : w.calls id with
  | none =>
      rw [World.globalStage, hc] at h
      cases h
  | some c =>
      rw [globalStage_of hc] at h
      refine ⟨c, rfl, ?_⟩
      cases hphase : c.phase <;> rw [hphase] at h <;> first | rfl | cases h

theorem waiting_provider (h : w.providerStage name id = .waiting) :
    ∃ c, w.calls id = some c ∧ c.provider = name ∧ c.phase = .waitingProvider := by
  cases hc : w.calls id with
  | none =>
      rw [World.providerStage, hc] at h
      cases h
  | some c =>
      by_cases hname : c.provider = name
      · subst hname
        rw [providerStage_of hc] at h
        refine ⟨c, rfl, rfl, ?_⟩
        cases hphase : c.phase <;> rw [hphase] at h <;> first | rfl | cases h
      · rw [providerStage_other hc hname] at h
        cases h

end Stages

section Invariant

variable {caps : Caps} {w t : World} {id : ℕ} {c : SlotCall} {phase : Phase}

structure SlotsInv (caps : Caps) (w : World) : Prop where
  global : SlotOk w.global w.globalStage
  provider : ∀ name, SlotOk (w.providers name) (w.providerStage name)
  globalLimit : w.global.semaphore.limit = caps.global
  providerLimit : ∀ name, (w.providers name).semaphore.limit = caps.provider name

namespace SlotsInv

theorem initial (caps : Caps) : SlotsInv caps (Slots.initial caps) where
  global := SlotOk.initial caps.global
  provider name := SlotOk.initial (caps.provider name)
  globalLimit := rfl
  providerLimit _ := rfl

/-- A call moves, and nothing else; no stage is left or entered. -/
theorem goTo (h : SlotsInv caps w) (hc : w.calls id = some c)
    (hglobal : phase.globalStage = c.phase.globalStage)
    (hprovider : phase.providerStage = c.phase.providerStage) :
    SlotsInv caps (w.goTo id c phase) where
  global := by
    rw [globalStage_same _ hc hglobal]
    exact h.global
  provider name := by
    rw [providerStage_same _ _ hc fun _ => hprovider]
    exact h.provider name
  globalLimit := h.globalLimit
  providerLimit := h.providerLimit

/-- A step of a call at the place of the process only. -/
theorem setGlobal (h : SlotsInv caps w) (hc : w.calls id = some c) {state : SlotState}
    (hstate : SlotOk state (Function.update w.globalStage id phase.globalStage))
    (hlimit : state.semaphore.limit = w.global.semaphore.limit)
    (hprovider : phase.providerStage = c.phase.providerStage) :
    SlotsInv caps ({ w with global := state }.goTo id c phase) where
  global := by
    rw [globalStage_goTo]
    exact hstate
  provider name := by
    have hsame := providerStage_same name phase hc fun _ => hprovider
    exact (show ({ w with global := state }.goTo id c phase).providerStage name =
      w.providerStage name from hsame) ▸ h.provider name
  globalLimit := hlimit.trans h.globalLimit
  providerLimit := h.providerLimit

/-- A step of a call at the place of its provider only. -/
theorem setProvider (h : SlotsInv caps w) (hc : w.calls id = some c) {state : SlotState}
    (hstate : SlotOk state (Function.update (w.providerStage c.provider) id phase.providerStage))
    (hlimit : state.semaphore.limit = (w.providers c.provider).semaphore.limit)
    (hglobal : phase.globalStage = c.phase.globalStage) :
    SlotsInv caps ((w.setProvider c.provider state).goTo id c phase) where
  global := by
    have hsame := globalStage_same phase hc hglobal
    exact (show ((w.setProvider c.provider state).goTo id c phase).globalStage =
      w.globalStage from hsame) ▸ h.global
  provider name := by
    have hstage : ((w.setProvider c.provider state).goTo id c phase).providerStage name =
        (w.goTo id c phase).providerStage name := rfl
    rw [hstage]
    by_cases hname : c.provider = name
    · subst hname
      rw [providerStage_goTo, if_pos rfl]
      simpa [World.goTo, World.setProvider] using hstate
    · rw [providerStage_same _ _ hc fun heq => absurd heq hname]
      simpa [World.goTo, World.setProvider, Function.update_of_ne (Ne.symm hname)] using
        h.provider name
  globalLimit := h.globalLimit
  providerLimit name := by
    by_cases hname : name = c.provider
    · subst hname
      simpa [World.goTo, World.setProvider] using hlimit.trans (h.providerLimit c.provider)
    · simpa [World.goTo, World.setProvider, Function.update_of_ne hname] using h.providerLimit name

theorem enter (h : SlotsInv caps w) (hnew : w.calls id = none) (name : String) :
    SlotsInv caps ({ w with global := (w.global.enter id).1 }.goTo id ⟨name, .waitingGlobal⟩
      (if (w.global.enter id).2 then .grantedGlobal else .waitingGlobal)) := by
  have haway : w.globalStage id = .away := by rw [World.globalStage, hnew]; rfl
  have hprovider : ∀ other, w.providerStage other id = .away := by
    intro other
    rw [World.providerStage, hnew]
    rfl
  have hstage : ∀ phase other, phase.providerStage = .away →
      ({ w with global := (w.global.enter id).1 }.goTo id ⟨name, .waitingGlobal⟩
        phase).providerStage other = w.providerStage other := by
    intro phase other hphase
    rw [providerStage_goTo]
    refine Function.update_eq_self_iff.mpr ?_
    rw [hphase, ite_self]
    exact (hprovider other).symm
  cases hgranted : (w.global.enter id).2 with
  | true =>
      refine ⟨?_, fun other => ?_, ?_, h.providerLimit⟩
      · rw [globalStage_goTo]
        exact h.global.enter_granted haway hgranted
      · rw [hstage _ other rfl]
        exact h.provider other
      · exact (Semaphore.acquire_limit _ _).trans h.globalLimit
  | false =>
      refine ⟨?_, fun other => ?_, ?_, h.providerLimit⟩
      · rw [globalStage_goTo]
        exact h.global.enter_waiting haway hgranted
      · rw [hstage _ other rfl]
        exact h.provider other
      · exact (Semaphore.acquire_limit _ _).trans h.globalLimit

/-- A call goes on from the place of the process to that of its provider. -/
theorem enterProvider (h : SlotsInv caps w) (hc : w.calls id = some c)
    (hphase : c.phase = .grantedGlobal) :
    SlotsInv caps (({ w with global := w.global.begin_ }.setProvider c.provider
      ((w.providers c.provider).enter id).1).goTo id c
        (if ((w.providers c.provider).enter id).2 then .grantedProvider else .waitingProvider)) := by
  have hgranted : w.globalStage id = .granted := by rw [globalStage_of hc, hphase]; rfl
  -- `returned` stands for a call between its two places
  have hbetween : SlotsInv caps ({ w with global := w.global.begin_ }.goTo id c .returned) :=
    h.setGlobal hc (h.global.begin_ hgranted) rfl (by rw [hphase]; rfl)
  have hc' : ({ w with global := w.global.begin_ }.goTo id c .returned).calls id =
      some { c with phase := .returned } := Function.update_self _ _ _
  have haway := providerStage_of hc'
  have hjoin (state : SlotState) (phase : Phase) :
      (({ w with global := w.global.begin_ }.goTo id c .returned).setProvider c.provider
        state).goTo id { c with phase := .returned } phase =
      ({ w with global := w.global.begin_ }.setProvider c.provider state).goTo id c phase := by
    simp only [World.goTo, World.setProvider, Function.update_idem]
  rw [← hjoin]
  cases hentered : ((w.providers c.provider).enter id).2 with
  | true =>
      exact hbetween.setProvider hc' ((hbetween.provider c.provider).enter_granted haway hentered)
        (Semaphore.acquire_limit _ _) rfl
  | false =>
      exact hbetween.setProvider hc' ((hbetween.provider c.provider).enter_waiting haway hentered)
        (Semaphore.acquire_limit _ _) rfl

/-- A call leaves the place of its provider to the one that has waited longest. -/
theorem leaveProvider (h : SlotsInv caps w) (hc : w.calls id = some c) (hphase : c.phase = .ended) :
    SlotsInv caps (((w.setProvider c.provider (w.providers c.provider).release.1).goTo id c
      .returned).wake .grantedProvider (w.providers c.provider).release.2) := by
  have hleaving : w.providerStage c.provider id = .leaving := by
    rw [providerStage_of hc, hphase]
    rfl
  have hglobal : Phase.returned.globalStage = c.phase.globalStage := by rw [hphase]; rfl
  cases hnext : (w.providers c.provider).release.2 with
  | none =>
      exact h.setProvider hc ((h.provider c.provider).release_none hleaving hnext)
        (Semaphore.release_limit _) hglobal
  | some next =>
      obtain ⟨hwaiting, hok⟩ := (h.provider c.provider).release_some hleaving hnext
      obtain ⟨c', hc', hname, hphase'⟩ := waiting_provider hwaiting
      have hne : next ≠ id := by
        rintro rfl
        rw [hc] at hc'
        obtain rfl := Option.some.inj hc'
        rw [hphase] at hphase'
        cases hphase'
      have hcalls : ((w.setProvider c.provider (w.providers c.provider).release.1).goTo id c
          .returned).calls next = some c' := by
        simpa [World.goTo, World.setProvider, Function.update_of_ne hne] using hc'
      simp only [World.wake, hcalls]
      have hstages (name : String) : (((w.setProvider c.provider
          (w.providers c.provider).release.1).goTo id c .returned).goTo next c'
            .grantedProvider).providerStage name =
          Function.update (Function.update (w.providerStage name) id .away) next
            (if c.provider = name then .granted else .away) := by
        rw [providerStage_goTo, providerStage_goTo, hname]
        simp only [Phase.providerStage, ite_self]
        rfl
      refine ⟨?_, fun name => ?_, h.globalLimit, fun name => ?_⟩
      · have hsame := globalStage_same _ hc hglobal
        have hsame' := globalStage_same .grantedProvider hcalls (by rw [hphase']; rfl)
        rw [hsame']
        exact (show ((w.setProvider c.provider (w.providers c.provider).release.1).goTo id c
          .returned).globalStage = w.globalStage from hsame) ▸ h.global
      · rw [hstages]
        by_cases hown : c.provider = name
        · subst hown
          rw [if_pos rfl]
          simpa [World.goTo, World.setProvider] using hok
        · rw [if_neg hown, ← providerStage_other hc hown, Function.update_eq_self,
            providerStage_other hc hown, ← providerStage_other hc' (hname ▸ hown),
            Function.update_eq_self]
          simpa [World.goTo, World.setProvider, Function.update_of_ne (Ne.symm hown)] using
            h.provider name
      · by_cases hown : name = c.provider
        · subst hown
          simpa [World.goTo, World.setProvider, SlotState.release] using
            h.providerLimit c.provider
        · simpa [World.goTo, World.setProvider, Function.update_of_ne hown] using
            h.providerLimit name

/-- A call leaves the place of the process to the one that has waited longest. -/
theorem leaveGlobal (h : SlotsInv caps w) (hc : w.calls id = some c) (hphase : c.phase = .unwound) :
    SlotsInv caps (({ w with global := w.global.release.1 }.goTo id c .done).wake .grantedGlobal
      w.global.release.2) := by
  have hleaving : w.globalStage id = .leaving := by
    rw [globalStage_of hc, hphase]
    rfl
  have hprovider : Phase.done.providerStage = c.phase.providerStage := by rw [hphase]; rfl
  cases hnext : w.global.release.2 with
  | none =>
      exact h.setGlobal hc (h.global.release_none hleaving hnext) (Semaphore.release_limit _)
        hprovider
  | some next =>
      obtain ⟨hwaiting, hok⟩ := h.global.release_some hleaving hnext
      obtain ⟨c', hc', hphase'⟩ := waiting_global hwaiting
      have hne : next ≠ id := by
        rintro rfl
        rw [hc] at hc'
        obtain rfl := Option.some.inj hc'
        rw [hphase] at hphase'
        cases hphase'
      have hcalls : ({ w with global := w.global.release.1 }.goTo id c .done).calls next =
          some c' := by
        simpa [World.goTo, Function.update_of_ne hne] using hc'
      simp only [World.wake, hcalls]
      refine ⟨?_, fun name => ?_, (Semaphore.release_limit _).trans h.globalLimit, h.providerLimit⟩
      · rw [globalStage_goTo, globalStage_goTo]
        exact hok
      · have hsame := providerStage_same name _ hc fun _ => hprovider
        have hsame' := providerStage_same name .grantedGlobal hcalls
          fun _ => by rw [hphase']; rfl
        rw [hsame']
        exact (show ({ w with global := w.global.release.1 }.goTo id c .done).providerStage name =
          w.providerStage name from hsame) ▸ h.provider name

theorem advance (h : SlotsInv caps w) (hc : w.calls id = some c)
    (ht : callStep w id c c.phase = some t) : SlotsInv caps t := by
  cases hphase : c.phase with
  | grantedGlobal =>
      rw [hphase] at ht
      obtain rfl := Option.some.inj ht
      exact h.enterProvider hc hphase
  | grantedProvider =>
      rw [hphase] at ht
      obtain rfl := Option.some.inj ht
      have hgranted : w.providerStage c.provider id = .granted := by
        rw [providerStage_of hc, hphase]
        rfl
      exact h.setProvider hc ((h.provider c.provider).begin_ hgranted) rfl (by rw [hphase]; rfl)
  | settled =>
      rw [hphase] at ht
      obtain rfl := Option.some.inj ht
      have hcounted : w.providerStage c.provider id = .counted := by
        rw [providerStage_of hc, hphase]
        rfl
      exact h.setProvider hc ((h.provider c.provider).end_ hcounted) rfl (by rw [hphase]; rfl)
  | ended =>
      rw [hphase] at ht
      obtain rfl := Option.some.inj ht
      exact h.leaveProvider hc hphase
  | returned =>
      rw [hphase] at ht
      obtain rfl := Option.some.inj ht
      have hcounted : w.globalStage id = .counted := by
        rw [globalStage_of hc, hphase]
        rfl
      exact h.setGlobal hc (h.global.end_ hcounted) rfl (by rw [hphase]; rfl)
  | unwound =>
      rw [hphase] at ht
      obtain rfl := Option.some.inj ht
      exact h.leaveGlobal hc hphase
  | waitingGlobal => rw [hphase] at ht; cases ht
  | waitingProvider => rw [hphase] at ht; cases ht
  | running => rw [hphase] at ht; cases ht
  | done => rw [hphase] at ht; cases ht

theorem step {a : Action} (h : SlotsInv caps w) (ht : (slots caps).step w a = some t) :
    SlotsInv caps t := by
  cases a with
  | enter id provider =>
      simp only [slots] at ht
      split at ht
      · rename_i hnew
        obtain rfl := Option.some.inj ht
        exact h.enter hnew _
      · cases ht
  | settle id =>
      simp only [slots] at ht
      split at ht
      · rename_i c hc
        split at ht
        · rename_i hphase
          obtain rfl := Option.some.inj ht
          exact h.goTo hc (by rw [hphase]; rfl) (by rw [hphase]; rfl)
        · cases ht
      · cases ht
  | advance id =>
      obtain ⟨c, hc, ht⟩ := Option.bind_eq_some_iff.mp ht
      exact h.advance hc ht

theorem of_reach (hw : (slots caps).Reachable w) : SlotsInv caps w :=
  hw.invariant (by rintro _ rfl; exact initial caps) fun _ _ _ h _ ht => h.step ht

/-- Some call runs, or has a continuation to run. -/
def Goes (w : World) : Prop :=
  ∃ id c, w.calls id = some c ∧ (c.phase = .running ∨ (callStep w id c c.phase).isSome)

theorem exists_holder {state : SlotState} {stage : ℕ → Stage} (h : SlotOk state stage) {id : ℕ}
    (hwaiting : stage id = .waiting) (hpos : 0 < state.semaphore.limit) :
    ∃ holder, (stage holder).holds = true := by
  have hmem := (h.queue id).mpr hwaiting
  have hfull := h.fair.full (List.ne_nil_of_mem hmem)
  refine census_pos (P := fun s => Stage.holds s = true) ?_
  rw [h.holders, hfull]
  exact_mod_cast hpos

theorem goes_of_waitingProvider (h : SlotsInv caps w) (hc : w.calls id = some c)
    (hphase : c.phase = .waitingProvider) : Goes w := by
  have hwaiting : w.providerStage c.provider id = .waiting := by
    rw [providerStage_of hc, hphase]
    rfl
  obtain ⟨holder, hholds⟩ := exists_holder (h.provider c.provider) hwaiting
    (h.providerLimit c.provider ▸ caps.provider_pos c.provider)
  cases hc' : w.calls holder with
  | none =>
      rw [World.providerStage, hc'] at hholds
      cases hholds
  | some c' =>
      refine ⟨holder, c', hc', ?_⟩
      by_cases hname : c'.provider = c.provider
      · rw [← hname, providerStage_of hc'] at hholds
        cases hphase' : c'.phase <;> rw [hphase'] at hholds <;>
          first | exact .inl rfl | exact .inr rfl | cases hholds
      · rw [providerStage_other hc' hname] at hholds
        cases hholds

theorem goes (h : SlotsInv caps w) (hc : w.calls id = some c) (hdone : c.phase ≠ .done) :
    Goes w := by
  cases hphase : c.phase with
  | waitingGlobal =>
      have hwaiting : w.globalStage id = .waiting := by
        rw [globalStage_of hc, hphase]
        rfl
      obtain ⟨holder, hholds⟩ := exists_holder h.global hwaiting
        (h.globalLimit ▸ caps.global_pos)
      cases hc' : w.calls holder with
      | none =>
          rw [World.globalStage, hc'] at hholds
          cases hholds
      | some c' =>
          rw [globalStage_of hc'] at hholds
          cases hphase' : c'.phase with
          | waitingProvider => exact h.goes_of_waitingProvider hc' hphase'
          | running => exact ⟨holder, c', hc', .inl hphase'⟩
          | waitingGlobal => rw [hphase'] at hholds; cases hholds
          | done => rw [hphase'] at hholds; cases hholds
          | _ => exact ⟨holder, c', hc', .inr (by rw [hphase']; rfl)⟩
  | waitingProvider => exact h.goes_of_waitingProvider hc hphase
  | running => exact ⟨id, c, hc, .inl hphase⟩
  | done => exact absurd hphase hdone
  | _ => exact ⟨id, c, hc, .inr (by rw [hphase]; rfl)⟩

end SlotsInv

/-- What the statistics of a semaphore show, and the order in which its places were given. -/
structure Exact (state : SlotState) (stage : ℕ → Stage) : Prop where
  active : {id | stage id = .counted}.encard = (state.active : ℕ)
  queued : {id | (stage id).isQueued = true}.encard = (state.queued : ℕ)
  fifo : state.served <+: state.arrived

/-- At no moment do more calls have a place than there are, and no call waits for ever as long as
those that run end. -/
structure SlotsSafe (caps : Caps) (w : World) : Prop where
  globalCap : {id | (w.globalStage id).holds = true}.encard ≤ (caps.global : ℕ)
  providerCap : ∀ name, {id | (w.providerStage name id).holds = true}.encard ≤
    (caps.provider name : ℕ)
  global : Exact w.global w.globalStage
  provider : ∀ name, Exact (w.providers name) (w.providerStage name)
  progress : ∀ id c, w.calls id = some c → c.phase ≠ .done → SlotsInv.Goes w

theorem SlotOk.exact {state : SlotState} {stage : ℕ → Stage} (h : SlotOk state stage) :
    Exact state stage :=
  ⟨h.active, h.queued, h.fair.order ▸ List.prefix_append _ _⟩

theorem SlotOk.holders_le {state : SlotState} {stage : ℕ → Stage} (h : SlotOk state stage) :
    {id | (stage id).holds = true}.encard ≤ (state.semaphore.limit : ℕ) :=
  (le_of_eq h.holders).trans (by exact_mod_cast h.fair.bounded)

theorem delegation_slots_safe (hw : (slots caps).Reachable w) : SlotsSafe caps w := by
  have h := SlotsInv.of_reach hw
  refine ⟨?_, fun name => ?_, h.global.exact, fun name => (h.provider name).exact,
    fun id c hc hdone => h.goes hc hdone⟩
  · exact h.globalLimit ▸ h.global.holders_le
  · exact h.providerLimit name ▸ (h.provider name).holders_le

end Invariant

section Example

def exampleCaps : Caps where
  global := 2
  provider _ := 1
  global_pos := Nat.succ_pos 1
  provider_pos _ := Nat.succ_pos 0

/-- Two calls of one provider, and one of another that waits for the process. -/
def exampleSlots : List Action :=
  [.enter 0 (some " claude "), .enter 1 (some "claude"), .enter 2 none, .advance 0, .advance 1,
    .advance 0, .settle 0, .advance 0, .advance 0, .advance 0, .advance 0]

theorem delegation_slots_safe_queue : ∃ w,
    (w.calls 1 = some ⟨"claude", .grantedProvider⟩ ∧
      w.calls 2 = some ⟨"unknown", .grantedGlobal⟩ ∧ w.global.served = [0, 1, 2]) ∧
    SlotsSafe exampleCaps w := by
  obtain ⟨w, hw, hp⟩ := System.exists_reachable_of_exec (S := slots exampleCaps)
    (s := initial exampleCaps) exampleSlots (fun w =>
      w.calls 1 = some ⟨"claude", .grantedProvider⟩ ∧
        w.calls 2 = some ⟨"unknown", .grantedGlobal⟩ ∧ w.global.served = [0, 1, 2]) rfl
    (by decide +kernel)
  exact ⟨w, hp, delegation_slots_safe hw⟩

end Example

end Kyberion.Delegation.Slots
