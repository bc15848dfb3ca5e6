import Kyberion.Approval.VetoWindow
import Mathlib.Algebra.Order.BigOperators.Group.Finset
import Mathlib.Order.Interval.Finset.Basic
import Mathlib.Data.Int.ConditionallyCompleteOrder
import Mathlib.Data.Int.Interval
import Mathlib.Tactic.Linarith

/-!
A window that elapses has its minutes. Active time is the measure of the active
minutes between two instants; the scan for the deadline counts no more than that,
and from the delivery on nothing moves the deadline, so a tick that decides has
the whole window of silence behind it. A fallback is never taken back.
-/

namespace Kyberion.Approval

variable (host : VetoHost)

/-- Whether the minute of `ms` is active. -/
def isActive (activeHours : Option ActiveHours) (ms : ℤ) : Bool :=
  match isWithinActiveHours host (ms / 60000 * 60000) activeHours with
  | .ok active => active
  | .error _ => false

/-- The active milliseconds from `start` to `stop`. -/
noncomputable def activeMs (activeHours : Option ActiveHours) (start stop : ℤ) : ℕ :=
  ((Finset.Ico start stop).filter fun ms => isActive host activeHours ms).card

section ActiveTime

variable {host} {activeHours : Option ActiveHours} {start stop : ℤ}

theorem activeMs_add {middle : ℤ} (h : start ≤ middle) (h' : middle ≤ stop) :
    activeMs host activeHours start middle + activeMs host activeHours middle stop =
      activeMs host activeHours start stop := by
  unfold activeMs
  rw [← Finset.Ico_union_Ico_eq_Ico h h', Finset.filter_union]
  refine (Finset.card_union_of_disjoint ?_).symm
  exact Finset.disjoint_filter_filter (Finset.Ico_disjoint_Ico_consecutive start middle stop)

theorem activeMs_mono {start' stop' : ℤ} (h : start' ≤ start) (h' : stop ≤ stop') :
    activeMs host activeHours start stop ≤ activeMs host activeHours start' stop' :=
  Finset.card_le_card (Finset.filter_subset_filter _ (Finset.Ico_subset_Ico h h'))

theorem activeMs_of_forall (h : ∀ ms, start ≤ ms → ms < stop →
    isActive host activeHours ms = true) :
    activeMs host activeHours start stop = (stop - start).toNat := by
  unfold activeMs
  rw [Finset.filter_true_of_mem, Int.card_Ico]
  intro ms hms
  rw [Finset.mem_Ico] at hms
  exact h ms hms.1 hms.2

theorem activeMs_none : activeMs host none start stop = (stop - start).toNat :=
  activeMs_of_forall fun _ _ _ => rfl

/-- An active minute is active throughout. -/
theorem activeMs_minute (hstart : 60000 ∣ start)
    (h : isWithinActiveHours host start activeHours = .ok true) :
    activeMs host activeHours start (start + 60000) = 60000 := by
  rw [activeMs_of_forall]
  · omega
  · intro ms hlo hhi
    have hminute : ms / 60000 * 60000 = start := by omega
    simp only [isActive, hminute, h]

theorem scanMinutes_le {minutes scans counted : ℕ} {cursor : ℤ} (hcursor : 60000 ∣ cursor)
    (h : scanMinutes host activeHours minutes scans counted cursor = .ok (some stop)) :
    cursor ≤ stop ∧ minutes * 60000 ≤ counted * 60000 + activeMs host activeHours cursor stop := by
  induction scans generalizing counted cursor with
  | zero =>
      unfold scanMinutes at h
      split at h
      · rename_i hcounted
        cases h
        exact ⟨le_rfl, by omega⟩
      · cases h
  | succ scans ih =>
      unfold scanMinutes at h
      split at h
      · rename_i hcounted
        cases h
        exact ⟨le_rfl, by omega⟩
      · obtain ⟨active, hactive, hrest⟩ := Js.except_bind_ok h
        have hnext := ih (by omega) hrest
        have hadd : activeMs host activeHours cursor (cursor + 60000) +
            activeMs host activeHours (cursor + 60000) stop =
              activeMs host activeHours cursor stop := activeMs_add (by omega) hnext.1
        refine ⟨by omega, ?_⟩
        cases active with
        | false =>
            have hcount := hnext.2
            simp only [Bool.false_eq_true, if_false] at hcount
            omega
        | true =>
            have hcount := hnext.2
            simp only [if_true] at hcount
            rw [activeMs_minute hcursor hactive] at hadd
            linarith

/-- Up to the deadline there is the whole window of active time. -/
theorem computeVetoDeadline_le {windowMinutes : ℚ}
    (h : computeVetoDeadline host start windowMinutes activeHours = .ok (some stop)) :
    windowMinutes * 60000 ≤ activeMs host activeHours start stop := by
  suffices hminutes : ⌈windowMinutes⌉.toNat * 60000 ≤ activeMs host activeHours start stop by
    calc windowMinutes * 60000
        ≤ (⌈windowMinutes⌉.toNat : ℚ) * 60000 := by
          refine mul_le_mul_of_nonneg_right ?_ (by norm_num)
          refine (Int.le_ceil windowMinutes).trans ?_
          exact_mod_cast Int.self_le_toNat _
      _ ≤ activeMs host activeHours start stop := by exact_mod_cast hminutes
  cases activeHours with
  | none =>
      obtain rfl := Option.some.inj (Except.ok.inj h)
      rw [activeMs_none]
      omega
  | some hours =>
      have hscan := scanMinutes_le (show 60000 ∣ nextMinute start by unfold nextMinute; omega) h
      have hfirst : start ≤ nextMinute start := by
        unfold nextMinute
        omega
      have hmono : activeMs host (some hours) (nextMinute start) stop ≤
          activeMs host (some hours) start stop := activeMs_mono hfirst le_rfl
      omega

end ActiveTime

/-- What the window of a request tells of the marks of delivery so far. -/
structure WindowKept (delivered : List ℤ) (veto : ApprovalVetoWindow) : Prop where
  delivered : ∀ ms, veto.deliveredAt = some ms →
    ms ∈ delivered ∧ ∃ deadline, veto.deliveryDeadlineAt = some deadline ∧ ms < deadline
  proceeds : ∀ stop, veto.proceedsAt = some stop → ∃ ms, veto.deliveredAt = some ms ∧
    veto.windowMinutes * 60000 ≤ activeMs host veto.activeHours ms stop

structure VetoInv (halted : ℤ → Bool) (s : VetoState) : Prop where
  ticks : ∀ tick ∈ s.ticks, halted tick.now = false
  fallback : s.fellBack = true → s.request.veto.any (·.fallback) = true
  window : ∀ veto, s.request.veto = some veto → WindowKept host s.delivered veto

/-- What a write may do to the window: it keeps a fallback, and the new window is as good. -/
def WindowStep (delivered : List ℤ) (request next : VetoRequest) : Prop :=
  (request.veto.any (·.fallback) = true → next.veto.any (·.fallback) = true) ∧
    ((∀ veto, request.veto = some veto → WindowKept host delivered veto) →
      ∀ veto, next.veto = some veto → WindowKept host delivered veto)

section Steps

variable {host} {halted : ℤ → Bool} {delivered : List ℤ} {request next : VetoRequest}
  {veto : ApprovalVetoWindow} {s t : VetoState}

theorem evaluate_awaiting {now : ℤ} (h : evaluateVetoWindow veto now ≠ .undelivered)
    (hnew : veto.deliveredAt = none) :
    ∃ deadline, veto.deliveryDeadlineAt = some deadline ∧ now < deadline := by
  unfold evaluateVetoWindow at h
  rw [hnew] at h
  cases hdeadline : veto.deliveryDeadlineAt with
  | none => simp [hdeadline] at h
  | some deadline =>
      refine ⟨deadline, rfl, ?_⟩
      by_contra hlate
      apply h
      simp only [hdeadline, Option.all_some, decide_eq_true (not_lt.mp hlate), if_true, ite_self]

theorem evaluate_elapsed {now : ℤ} (h : evaluateVetoWindow veto now = .elapsed) :
    veto.fallback = false ∧ veto.shadow = false ∧
      ∃ stop, veto.proceedsAt = some stop ∧ stop ≤ now := by
  unfold evaluateVetoWindow at h
  cases hfallback : veto.fallback with
  | true => simp [hfallback] at h
  | false =>
      cases hdelivered : veto.deliveredAt with
      | none =>
          simp only [hfallback, hdelivered, Bool.false_eq_true, if_false] at h
          split at h <;> cases h
      | some ms =>
          cases hproceeds : veto.proceedsAt with
          | none => simp [hfallback, hdelivered, hproceeds] at h
          | some stop =>
              simp only [hfallback, hdelivered, hproceeds, Bool.false_eq_true, if_false,
                Option.all_some, decide_eq_true_eq] at h
              split at h
              · cases h
              · rename_i hnow
                split at h
                · cases h
                · rename_i hshadow
                  exact ⟨rfl, by simpa using hshadow, stop, rfl, not_lt.mp hnow⟩

theorem WindowKept.mono {delivered' : List ℤ} (h : WindowKept host delivered veto)
    (hsub : ∀ ms ∈ delivered, ms ∈ delivered') : WindowKept host delivered' veto :=
  ⟨fun ms hms => ⟨hsub ms (h.delivered ms hms).1, (h.delivered ms hms).2⟩, h.proceeds⟩

theorem WindowStep.refl : WindowStep host delivered request request :=
  ⟨id, id⟩

theorem WindowStep.of_veto (h : next.veto = request.veto) :
    WindowStep host delivered request next := by
  unfold WindowStep
  rw [h]
  exact ⟨id, id⟩

theorem WindowStep.trans {last : VetoRequest} (h : WindowStep host delivered request next)
    (h' : WindowStep host delivered next last) : WindowStep host delivered request last :=
  ⟨h'.1 ∘ h.1, h'.2 ∘ h.2⟩

theorem isoInstant_eq {ms at_ : ℤ} (h : isoInstant ms = .ok at_) : ms = at_ :=
  Except.ok.inj (Js.throwIf_eq_ok.mp h).2

theorem fallBack_step :
    WindowStep host delivered request (fallBackToDecisionUnlocked request) := by
  unfold fallBackToDecisionUnlocked
  split
  · exact .refl
  · rename_i veto hveto
    split
    · exact .refl
    · refine ⟨fun _ => rfl, fun hkept veto' hveto' => ?_⟩
      obtain rfl := Option.some.inj hveto'
      exact ⟨(hkept veto hveto).delivered, (hkept veto hveto).proceeds⟩

theorem mark_step {deliveredMs : Option ℤ}
    (h : markApprovalNotificationDelivered host deliveredMs request = .ok next) :
    WindowStep host (deliveredMs.toList ++ delivered) request next := by
  unfold markApprovalNotificationDelivered at h
  split at h
  · exact Except.ok.inj h ▸ .refl
  · exact Except.ok.inj h ▸ .refl
  · rename_i veto ms hveto
    split at h
    · exact Except.ok.inj h ▸ .refl
    · rename_i hnew
      have hnone : veto.deliveredAt = none := by
        rw [not_or, Bool.not_eq_true, Option.isSome_eq_false_iff, Option.isNone_iff_eq_none] at hnew
        exact hnew.2
      split at h
      · exact Except.ok.inj h ▸ fallBack_step
      · rename_i hawaiting
        obtain ⟨deadline, hdeadline, hbefore⟩ := evaluate_awaiting hawaiting hnone
        obtain ⟨proceedsAt, hproceeds, hrest⟩ := Js.except_bind_ok h
        obtain ⟨deliveredAt, hdelivered, hlast⟩ := Js.except_bind_ok hrest
        obtain rfl := isoInstant_eq hdelivered
        have hmem : ms ∈ (some ms).toList ++ delivered := by simp
        cases proceedsAt with
        | none =>
            have hwindow : WindowStep host ((some ms).toList ++ delivered) request
                { request with veto := some { veto with deliveredAt := some ms } } := by
              refine ⟨fun hfallback => by simpa [hveto] using hfallback, fun hkept veto' hveto' => ?_⟩
              obtain rfl := Option.some.inj hveto'
              refine ⟨fun _ hms => ?_, fun stop hstop => ?_⟩
              · obtain rfl := Option.some.inj hms
                exact ⟨hmem, deadline, hdeadline, hbefore⟩
              · obtain ⟨_, hms, -⟩ := (hkept veto hveto).proceeds stop hstop
                cases hnone.symm.trans hms
            exact Except.ok.inj hlast ▸ hwindow.trans fallBack_step
        | some proceedsAt =>
            obtain ⟨stop, hstop, hlast⟩ := Js.except_bind_ok hlast
            obtain rfl := isoInstant_eq hstop
            obtain rfl := Except.ok.inj hlast
            refine ⟨fun hfallback => by simpa [hveto] using hfallback, fun hkept veto' hveto' => ?_⟩
            obtain rfl := Option.some.inj hveto'
            refine ⟨fun _ hms => ?_, fun later hlater => ?_⟩
            · obtain rfl := Option.some.inj hms
              exact ⟨hmem, deadline, hdeadline, hbefore⟩
            · obtain rfl := Option.some.inj hlater
              exact ⟨ms, rfl, computeVetoDeadline_le hproceeds⟩

theorem tickLocked_step {env : DecideEnv} {note : String} {now : ℤ} :
    WindowStep host delivered request (tickLocked host env note now request) := by
  unfold tickLocked
  split
  · exact .refl
  · rename_i veto hveto
    split
    · exact .refl
    · cases evaluateVetoWindow veto now with
      | undelivered => exact fallBack_step
      | elapsedShadow =>
          dsimp only
          split
          · refine ⟨fun hfallback => by simpa [hveto] using hfallback, fun hkept veto' hveto' => ?_⟩
            obtain rfl := Option.some.inj hveto'
            exact ⟨(hkept veto hveto).delivered, (hkept veto hveto).proceeds⟩
          · exact .refl
      | elapsed => exact .of_veto rfl
      | awaitingDelivery => exact .refl
      | counting => exact .refl

/-- Only an elapsed window is decided by the tick. -/
theorem tickLocked_approves {env : DecideEnv} {note : String} {now : ℤ}
    (hbefore : request.record.status ≠ .approved)
    (h : (tickLocked host env note now request).record.status = .approved) :
    request.record.status = .pending ∧
      ∃ veto, request.veto = some veto ∧ evaluateVetoWindow veto now = .elapsed := by
  have hfallBack : (fallBackToDecisionUnlocked request).record = request.record := by
    unfold fallBackToDecisionUnlocked
    split
    · rfl
    · split <;> rfl
  unfold tickLocked at h
  split at h
  · exact absurd h hbefore
  · rename_i veto hveto
    split at h
    · exact absurd h hbefore
    · rename_i hpending
      refine ⟨not_not.mp hpending, veto, hveto, ?_⟩
      cases hstate : evaluateVetoWindow veto now with
      | elapsed => rfl
      | undelivered =>
          rw [hstate] at h
          exact absurd (hfallBack ▸ h) hbefore
      | elapsedShadow =>
          rw [hstate] at h
          dsimp only at h
          split at h
          · exact absurd h hbefore
          · exact absurd h hbefore
      | awaitingDelivery =>
          rw [hstate] at h
          exact absurd h hbefore
      | counting =>
          rw [hstate] at h
          exact absurd h hbefore

end Steps

section Runs

variable {host} {halted : ℤ → Bool} {s t : VetoState}

variable (host halted) in
/-- The tick finds the request undecided and leaves it approved. -/
def AutoApproves (s : VetoState) (tick : TickRun) (env : DecideEnv) (note : String) : Prop :=
  s.request.record.status ≠ .approved ∧
    ∃ t, (vetoWindow host halted).step s (.settleTick tick env note) = some t ∧
      t.request.record.status = .approved

theorem VetoInv.write {s : VetoState} {next : VetoRequest} (h : VetoInv host halted s)
    (hstep : WindowStep host s.delivered s.request next) :
    VetoInv host halted (s.write next) := by
  refine ⟨h.ticks, fun hfallback => ?_, hstep.2 h.window⟩
  rcases Bool.or_eq_true_iff.mp hfallback with hbefore | hnow
  · exact hstep.1 (h.fallback hbefore)
  · exact hnow

theorem VetoInv.with_ticks {ticks : List TickRun} (h : VetoInv host halted s)
    (hticks : ∀ tick ∈ ticks, halted tick.now = false) :
    VetoInv host halted { s with ticks := ticks } :=
  ⟨hticks, h.fallback, h.window⟩

theorem step_vetoInv {a : VetoAction} (h : VetoInv host halted s)
    (hstep : (vetoWindow host halted).step s a = some t) : VetoInv host halted t := by
  cases a with
  | beginTick now =>
      obtain rfl := Option.some.inj hstep
      split
      · exact h
      · rename_i hnow
        refine h.with_ticks fun tick htick => ?_
        rcases List.mem_cons.mp htick with rfl | htick
        · exact Bool.eq_false_of_not_eq_true hnow
        · exact h.ticks tick htick
  | listTick tick =>
      obtain ⟨⟨htick, -⟩, rfl⟩ := Option.ite_some_none_eq_some.mp hstep
      refine h.with_ticks fun tick' htick' => ?_
      split at htick'
      · rcases List.mem_cons.mp htick' with rfl | htick'
        · exact h.ticks tick htick
        · exact h.ticks tick' (List.mem_of_mem_erase htick')
      · exact h.ticks tick' (List.mem_of_mem_erase htick')
  | settleTick tick env note =>
      obtain ⟨-, rfl⟩ := Option.ite_some_none_eq_some.mp hstep
      have hticks : ∀ tick' ∈ s.ticks.erase tick, halted tick'.now = false :=
        fun tick' htick' => h.ticks tick' (List.mem_of_mem_erase htick')
      exact (h.with_ticks hticks).write tickLocked_step
  | mark deliveredMs =>
      dsimp only [vetoWindow] at hstep
      split at hstep
      · exact Option.some.inj hstep ▸ h
      · rename_i next hmark
        obtain rfl := Option.some.inj hstep
        have hmore : VetoInv host halted
            { s with delivered := deliveredMs.toList ++ s.delivered } :=
          ⟨h.ticks, h.fallback, fun veto hveto =>
            (h.window veto hveto).mono fun _ => List.mem_append_right _⟩
        exact hmore.write (mark_step hmark)
  | decide env params =>
      obtain rfl := Option.some.inj hstep
      exact ⟨h.ticks, h.fallback, h.window⟩

theorem vetoInv_of_reachable (hs : (vetoWindow host halted).Reachable s) :
    VetoInv host halted s := by
  refine hs.invariant (fun s ⟨_, hticks, _, hfellBack, hnew⟩ => ⟨?_, ?_, ?_⟩)
    fun s a t h _ hstep => step_vetoInv h hstep
  · rw [hticks]
    exact fun _ htick => absurd htick List.not_mem_nil
  · rw [hfellBack]
    nofun
  · intro veto hveto
    obtain ⟨hdelivered, hproceeds, -⟩ := hnew veto hveto
    refine ⟨fun ms hms => ?_, fun stop hstop => ?_⟩
    · cases hdelivered.symm.trans hms
    · cases hproceeds.symm.trans hstop

/-- A fallback stays on record. -/
theorem step_fellBack {a : VetoAction} (h : s.fellBack = true)
    (hstep : (vetoWindow host halted).step s a = some t) : t.fellBack = true := by
  cases a with
  | beginTick now =>
      obtain rfl := Option.some.inj hstep
      split <;> exact h
  | listTick tick =>
      obtain ⟨-, rfl⟩ := Option.ite_some_none_eq_some.mp hstep
      exact h
  | settleTick tick env note =>
      obtain ⟨-, rfl⟩ := Option.ite_some_none_eq_some.mp hstep
      exact Bool.or_eq_true_iff.mpr (.inl h)
  | mark deliveredMs =>
      dsimp only [vetoWindow] at hstep
      split at hstep
      · exact Option.some.inj hstep ▸ h
      · obtain rfl := Option.some.inj hstep
        exact Bool.or_eq_true_iff.mpr (.inl h)
  | decide env params =>
      obtain rfl := Option.some.inj hstep
      exact h

theorem autoApproves_cases {tick : TickRun} {env : DecideEnv} {note : String}
    (h : VetoInv host halted s)
    (happroves : AutoApproves host halted s tick env note) :
    halted tick.now = false ∧ s.request.record.status = .pending ∧ s.fellBack = false ∧
      ∃ veto, s.request.veto = some veto ∧ veto.shadow = false ∧
        ∃ ms ∈ s.delivered, veto.deliveredAt = some ms ∧
          (∃ deadline, veto.deliveryDeadlineAt = some deadline ∧ ms < deadline) ∧
          veto.windowMinutes * 60000 ≤ activeMs host veto.activeHours ms tick.now := by
  obtain ⟨hbefore, t, hstep, hafter⟩ := happroves
  obtain ⟨⟨htick, -⟩, rfl⟩ := Option.ite_some_none_eq_some.mp hstep
  obtain ⟨hpending, veto, hveto, helapsed⟩ := tickLocked_approves hbefore hafter
  obtain ⟨hfallback, hshadow, stop, hstop, hnow⟩ := evaluate_elapsed helapsed
  obtain ⟨ms, hms, hwindow⟩ := (h.window veto hveto).proceeds stop hstop
  obtain ⟨hmem, hdeadline⟩ := (h.window veto hveto).delivered ms hms
  have hfellBack : s.fellBack = false := by
    refine Bool.eq_false_of_not_eq_true fun hfell => ?_
    have hrecorded := h.fallback hfell
    rw [hveto, Option.any_some, hfallback] at hrecorded
    cases hrecorded
  have hactive : activeMs host veto.activeHours ms stop ≤
      activeMs host veto.activeHours ms tick.now := activeMs_mono le_rfl hnow
  exact ⟨h.ticks tick htick, hpending, hfellBack, veto, hveto, hshadow, ms, hmem, hms, hdeadline,
    hwindow.trans (by exact_mod_cast hactive)⟩

/-- A tick approves a request only after its whole window of silence, heard in time, and never
after a fallback. -/
theorem veto_window_safe (hs : (vetoWindow host halted).Reachable s) (tick : TickRun)
    (env : DecideEnv) (note : String) :
    (AutoApproves host halted s tick env note →
      halted tick.now = false ∧ s.request.record.status = .pending ∧ s.fellBack = false ∧
        ∃ veto, s.request.veto = some veto ∧ veto.shadow = false ∧
          ∃ ms ∈ s.delivered, veto.deliveredAt = some ms ∧
            (∃ deadline, veto.deliveryDeadlineAt = some deadline ∧ ms < deadline) ∧
            veto.windowMinutes * 60000 ≤ activeMs host veto.activeHours ms tick.now) ∧
      (s.fellBack = true → ∀ as t, (vetoWindow host halted).exec s as = some t →
        ¬ AutoApproves host halted t tick env note) := by
  refine ⟨autoApproves_cases (vetoInv_of_reachable hs), fun hfell as => ?_⟩
  induction as generalizing s with
  | nil =>
      intro t ht happroves
      obtain rfl := Option.some.inj ht
      have hnot := (autoApproves_cases (vetoInv_of_reachable hs) happroves).2.2.1
      cases hnot.symm.trans hfell
  | cons a as ih =>
      intro t ht
      obtain ⟨u, hu, ht⟩ := Option.bind_eq_some_iff.mp ht
      exact ih (.next hs trivial hu) (step_fellBack hfell hu) t ht

/-- A new window makes an initial state. -/
theorem init_of_buildVetoWindow {record : DecisionRecord} {windowMinutes : ℚ}
    {activeHours : Option ActiveHours} {shadow : Bool} {grace : Option ℚ} {now : ℤ}
    {veto : ApprovalVetoWindow} (hpending : record.status = .pending)
    (h : buildVetoWindow windowMinutes activeHours shadow grace now = .ok veto) :
    (vetoWindow host halted).init ⟨⟨record, some veto⟩, [], [], false⟩ := by
  obtain ⟨-, hbuild⟩ := Js.throwIf_eq_ok.mp h
  obtain ⟨deadline, -, hveto⟩ := Js.except_bind_ok hbuild
  obtain rfl := Except.ok.inj hveto
  refine ⟨hpending, rfl, rfl, rfl, fun veto' hveto' => ?_⟩
  obtain rfl := Option.some.inj hveto'
  exact ⟨rfl, rfl, rfl⟩

def plainVetoHost : VetoHost where
  unicode := ⟨id, id⟩
  dateParse := fun _ => none
  isoString := fun _ => ""
  payloadHash := fun _ => ""
  recordHash := fun _ => ""
  presentedDigest := fun _ => ""
  localMinuteOfDay := fun ms _ => .ok (ms / 60000 % 1440).toNat

def silentEnv : DecideEnv :=
  ⟨0, ⟨.warn, fun _ _ => none, false⟩, none, "", .error ""⟩

/-- One minute of silence is asked for, between midnight and noon. -/
def silentRequest : VetoRequest where
  record :=
    { id := "r", kind := .missionGate, storageChannel := "c", channel := "c", status := .pending }
  veto := some
    { windowMinutes := 1
      activeHours := some ⟨"00:00", "12:00", "UTC"⟩
      deliveryDeadlineAt := some 1800000 }

theorem veto_window_safe_after_minute : ∃ s tick env note,
    AutoApproves plainVetoHost (fun ms => 900000 < ms) s tick env note ∧
      s.request.record.status = .pending ∧ s.fellBack = false := by
  obtain ⟨s, hs, happroves⟩ := Transition.System.exists_reachable_of_exec
    (S := vetoWindow plainVetoHost fun ms => 900000 < ms)
    (s := ⟨silentRequest, [], [], false⟩)
    [.mark (some 1000), .beginTick 120000, .listTick ⟨120000, false⟩]
    (fun s => s.request.record.status ≠ .approved ∧
      ((vetoWindow plainVetoHost fun ms => 900000 < ms).step s
        (.settleTick ⟨120000, true⟩ silentEnv "")).any
        (fun t => t.request.record.status = .approved) = true)
    ⟨rfl, rfl, rfl, rfl, fun _ hveto => Option.some.inj hveto ▸ ⟨rfl, rfl, rfl⟩⟩
    (by decide +kernel)
  obtain ⟨t, hstep, hafter⟩ := (Option.any_eq_true ..).mp happroves.2
  have hsettle : AutoApproves plainVetoHost (fun ms => 900000 < ms) s ⟨120000, true⟩
      silentEnv "" := ⟨happroves.1, t, hstep, of_decide_eq_true hafter⟩
  have hsafe := (veto_window_safe hs ⟨120000, true⟩ silentEnv "").1 hsettle
  exact ⟨s, _, _, _, hsettle, hsafe.2.1, hsafe.2.2.1⟩

end Runs

end Kyberion.Approval
