import Kyberion.Work.Attended
import Kyberion.Work.Targets

/-!
After a reap without a filter every attempt that is said to run is that of a live lease, in the runs
in which no claim takes an item whose last attempt was never closed.
-/

namespace Kyberion.Work

open Js (isBlank trim)

/-- Every running attempt of the item is that of a lease which is active and unexpired. -/
def CoherentItem (now : ℤ) (s : Store) (item : WorkItem) : Prop :=
  ∀ a ∈ item.attemptList, a.status = .running →
    ∃ lease ∈ s.currentLeaseRecords, a.leaseId = some lease.leaseId ∧ lease.live now = true

def Coherent (now : ℤ) (s : Store) : Prop :=
  ∀ item ∈ s.currentWorkItems, CoherentItem now s item

/-- No active lease has lapsed. -/
def Swept (now : ℤ) (s : Store) : Prop :=
  ∀ lease ∈ s.currentLeaseRecords, lease.status = .active → lease.live now = true

theorem expireWorkItemLeases_swept (now : ℤ) (s : Store) :
    (expireWorkItemLeases now).wp (fun _ => Swept now) (fun _ => True) s := by
  simp only [expireWorkItemLeases, Call.wp_bind, Call.wp_read, Call.wp_pure]
  -- what has lapsed and is still active is still to be written
  refine Call.wp_mono (fun _ t ht => ?_) (fun _ _ => trivial)
    (Call.wp_each_rest (I := fun rest t => (∀ r ∈ rest, r.leaseId ≠ "" ∧ r.status ≠ .active) ∧
      ∀ lease ∈ t.currentLeaseRecords, lease.lapsed now = true →
        { lease with status := .expired } ∈ rest)
      (E := fun _ => True) (fun r rest t hrest => ?_) ⟨?_, ?_⟩)
  · intro lease hmem hactive
    cases hlapsed : lease.lapsed now with
    | true => exact absurd (ht.2 lease hmem hlapsed) List.not_mem_nil
    | false =>
        simp only [WorkLease.lapsed, hactive, decide_true, Bool.true_and,
          decide_eq_false_iff_not, not_le] at hlapsed
        simp [WorkLease.live, hactive, hlapsed]
  · obtain ⟨hids, hrest⟩ := hrest
    rw [wp_appendLeaseSnapshot]
    obtain ⟨hne, hended⟩ := hids r List.mem_cons_self
    refine ⟨fun r' hr' => hids r' (List.mem_cons_of_mem r hr'), fun lease hmem hlapsed => ?_⟩
    rcases (Store.mem_append_lease hne).mp hmem with rfl | ⟨hold, hother⟩
    · simp [WorkLease.lapsed, hended] at hlapsed
    · rcases List.mem_cons.mp (hrest lease hold hlapsed) with heq | hlater
      · exact absurd (congrArg WorkLease.leaseId heq) hother
      · exact hlater
  · intro r hr
    obtain ⟨lease, hlease, rfl⟩ := List.mem_map.mp hr
    exact ⟨(Store.mem_currentLeaseRecords.mp (List.mem_filter.mp hlease).1).1, by simp⟩
  · exact fun lease hmem hlapsed =>
      List.mem_map_of_mem (List.mem_filter.mpr ⟨hmem, hlapsed⟩)

/-- A loop of the reaper over a store with these leases: what it has visited is in order. -/
structure Sweeping (now : ℤ) (leases : List WorkLease) (L D : WorkItem → Prop)
    (rest : List WorkItem) (s : Store) : Prop where
  visiting : Visiting (fun s => Attended now s ∧ s.leases = leases) L rest s
  visited : ∀ item ∈ s.currentWorkItems, item ∈ rest ∨ D item

section Loops

variable {env : Env} {s : Store} {now at_ : ℤ} {leases : List WorkLease} {L D : WorkItem → Prop}
  {item x : WorkItem} {rest : List WorkItem} {options : ReapWorkLeasesOptions}

theorem Sweeping.start (h : Attended now s) (hL : ∀ item ∈ s.currentWorkItems, L item) :
    Sweeping now s.leases L D s.currentWorkItems s where
  visiting := Visiting.all ⟨h, rfl⟩ hL
  visited _ hitem := .inl hitem

theorem Sweeping.attended (h : Sweeping now leases L D rest s) : Attended now s :=
  h.visiting.kept.1

theorem Sweeping.current (h : Sweeping now leases L D (item :: rest) s) :
    item ∈ s.currentWorkItems := by
  obtain ⟨hne, hlast⟩ := h.visiting.current item List.mem_cons_self
  exact Store.mem_current hne hlast

theorem Sweeping.skip (h : Sweeping now leases L D (item :: rest) s) (hitem : D item) :
    Sweeping now leases L D rest s where
  visiting := h.visiting.skip
  visited other hother := by
    rcases h.visited other hother with hrest | hdone
    · rcases List.mem_cons.mp hrest with rfl | hrest
      · exact .inr hitem
      · exact .inl hrest
    · exact .inr hdone

/-- The visited item with its attempts ended. -/
theorem Sweeping.write (h : Sweeping now leases L D (item :: rest) s)
    (hid : x.itemId = item.itemId) (hended : x.runIds = item.runIds ∧ Stopped x) (hx : D x.line) :
    (appendItemSnapshot x).wp (fun _ => Sweeping now leases L D rest) (Attended now) s := by
  have hsingle := h.attended.single item h.current
  refine wp_appendItemSnapshot.mpr ⟨fun hok => ⟨?_, fun other hother => ?_⟩, fun _ => h.attended⟩
  · refine (wp_appendItemSnapshot.mp (h.visiting.write hid fun hgov => ⟨?_, ?_⟩)).1 hok
    · refine h.attended.appendItem hgov (hended.2.oneRunning ?_ ?_)
        fun a ha hrun => absurd hrun (hended.2 a ha)
      · rw [hended.1]
        exact hsingle.named
      · rw [hended.1]
        exact hsingle.distinct
    · exact h.visiting.kept.2
  · have hne : x.line.itemId ≠ "" := by
      rw [line_itemId]
      exact isGovernedWorkItem_itemId hok.1
    rcases (Store.mem_append_item hne).mp hother with rfl | ⟨hold, hdiffers⟩
    · exact .inr hx
    · rcases h.visited other hold with hrest | hdone
      · rcases List.mem_cons.mp hrest with rfl | hrest
        · exact absurd (hid.symm.trans (line_itemId x).symm) hdiffers
        · exact .inl hrest
      · exact .inr hdone

/-- An item in progress has a live lease. -/
def Held (now : ℤ) (s : Store) (item : WorkItem) : Prop :=
  item.status = .inProgress →
    ∃ lease ∈ s.currentLeaseRecords, lease.itemId = item.itemId ∧ lease.live now = true

theorem Stopped.coherentItem (h : Stopped x) : CoherentItem now s x :=
  fun a ha hrun => absurd hrun (h a ha)

section Congr

variable {t : Store} (h : t.leases = s.leases)

include h

theorem Store.currentLeaseRecords_congr : t.currentLeaseRecords = s.currentLeaseRecords := by
  rw [Store.currentLeaseRecords, h, Store.currentLeaseRecords]

theorem Swept.congr (hs : Swept now s) : Swept now t := by
  rw [Swept, Store.currentLeaseRecords_congr h]
  exact hs

theorem Held.congr (hs : Held now s item) : Held now t item := by
  rw [Held, Store.currentLeaseRecords_congr h]
  exact hs

theorem CoherentItem.congr (hs : CoherentItem now s item) : CoherentItem now t item := by
  rw [CoherentItem, Store.currentLeaseRecords_congr h]
  exact hs

end Congr

theorem reaped_status {next : WorkItem} (h : (if options.completedEvidence item then
      replayedItem env at_ item else recoveredItem env at_ options item) = .ok next) :
    next.status ≠ .inProgress := by
  split at h
  · unfold replayedItem at h
    obtain ⟨hold, -, h⟩ := Js.except_bind_ok h
    obtain rfl := Except.ok.inj h
    simp
  · unfold recoveredItem at h
    obtain ⟨hold, -, h⟩ := Js.except_bind_ok h
    obtain rfl := Except.ok.inj h
    show (if _ then WorkItemStatus.blocked else WorkItemStatus.ready) ≠ .inProgress
    split <;> decide

theorem reapStranded_sweeps (hwritten : ∀ x : WorkItem, x.status ≠ .inProgress → D x)
    (hskipped : ¬ (item.status = .inProgress ∧ options.itemFilter item ∧
      s.currentLeaseForItem env.now item.itemId = none) → D item)
    (h : Sweeping env.now leases L D (item :: rest) s) :
    (reapStranded env at_ options item).wp (fun _ => Sweeping env.now leases L D rest)
      (Attended env.now) s := by
  have hsingle := h.attended.single item h.current
  simp only [reapStranded, Call.wp_bind, Call.wp_read, Call.wp_ite, Call.wp_lift, Call.wp_pure]
  refine ⟨fun _ => ⟨fun next hnext => ?_, fun _ _ => h.attended⟩, fun hif => h.skip (hskipped hif)⟩
  have hstatus := reaped_status hnext
  rw [← line_status] at hstatus
  split at hnext
  · exact h.write (replayedItem_itemId hnext) (replayedItem_ended hsingle hnext)
      (hwritten _ hstatus)
  · exact h.write (recoveredItem_itemId hnext) (recoveredItem_ended hsingle hnext)
      (hwritten _ hstatus)

theorem reapOrphanedAttempt_sweeps (hstopped : ∀ x, Stopped x → D x)
    (hskipped : ∀ running, runningAttempt item = some running →
      ¬ (item.status ≠ .inProgress ∧ options.itemFilter item ∧
        s.currentLeaseForItem env.now item.itemId = none ∧
        ¬ (s.currentLeaseById (running.leaseId.getD "")).any (·.live at_)) → D item)
    (h : Sweeping env.now leases L D (item :: rest) s) :
    (reapOrphanedAttempt env at_ options item).wp (fun _ => Sweeping env.now leases L D rest)
      (Attended env.now) s := by
  have hsingle := h.attended.single item h.current
  simp only [reapOrphanedAttempt, Call.wp_bind, Call.wp_read]
  cases hrunning : runningAttempt item with
  | none =>
      simp only [Call.wp_pure]
      refine h.skip (hstopped item fun a ha hrun => ?_)
      have hnone := List.find?_eq_none.mp hrunning a ha
      simp [hrun, (hsingle.running a ha hrun).2.1] at hnone
  | some running =>
      simp only [Call.wp_ite, Call.wp_bind, Call.wp_pure]
      refine ⟨fun _ => ?_, fun hif => h.skip (hskipped running hrunning hif)⟩
      have hended : (reconciledItem at_ item running).runIds = item.runIds ∧
          Stopped (reconciledItem at_ item running) := reconciledItem_ended hsingle hrunning
      exact h.write (x := reconciledItem at_ item running) rfl hended (hstopped _ hended.2.line)

theorem held_of_skipped (hall : options.itemFilter = fun _ => true)
    (hif : ¬ (item.status = .inProgress ∧ options.itemFilter item ∧
      s.currentLeaseForItem now item.itemId = none)) : Held now s item := by
  intro hstatus
  simp only [hstatus, hall, true_and] at hif
  obtain ⟨lease, hlease⟩ := Option.ne_none_iff_exists'.mp hif
  obtain ⟨hmem, hitem, hlive⟩ := Store.currentLeaseForItem_some hlease
  exact ⟨lease, hmem, hitem, hlive⟩

/-- The lease that is live for an item is that of its running attempt. -/
theorem coherentItem_of_live {lease : WorkLease} (h : Attended now s) (hswept : Swept at_ s)
    (hitem : item ∈ s.currentWorkItems) (hmem : lease ∈ s.currentLeaseRecords)
    (hsame : lease.itemId = item.itemId) (hlive : lease.live now = true) :
    CoherentItem at_ s item := by
  intro a ha hrun
  have hactive : lease.status = .active := by
    simp only [WorkLease.live, Bool.and_eq_true, decide_eq_true_eq] at hlive
    exact hlive.1
  exact ⟨lease, hmem, h.leased item hitem a ha hrun lease hmem hsame hlive,
    hswept lease hmem hactive⟩

/-- What the second loop skips is held, or its running attempt has a live lease. -/
theorem coherentItem_of_skipped {running : WorkItemAttempt} (h : Attended now s)
    (hswept : Swept at_ s) (hitem : item ∈ s.currentWorkItems) (hheld : Held now s item)
    (hall : options.itemFilter = fun _ => true) (hrunning : runningAttempt item = some running)
    (hif : ¬ (item.status ≠ .inProgress ∧ options.itemFilter item ∧
      s.currentLeaseForItem now item.itemId = none ∧
      ¬ (s.currentLeaseById (running.leaseId.getD "")).any (·.live at_))) :
    CoherentItem at_ s item := by
  have hsingle := h.single item hitem
  by_cases hprogress : item.status = .inProgress
  · obtain ⟨lease, hmem, hsame, hlive⟩ := hheld hprogress
    exact coherentItem_of_live h hswept hitem hmem hsame hlive
  · cases hlease : s.currentLeaseForItem now item.itemId with
    | some lease =>
        obtain ⟨hmem, hsame, hlive⟩ := Store.currentLeaseForItem_some hlease
        exact coherentItem_of_live h hswept hitem hmem hsame hlive
    | none =>
        simp only [ne_eq, hprogress, not_false_eq_true, hall, hlease, true_and, not_not,
          Option.any_eq_true] at hif
        obtain ⟨lease, hfound, hlive⟩ := hif
        obtain ⟨hmem, hid⟩ := Store.currentLeaseById_some hfound
        obtain ⟨hrunMem, hrunStatus⟩ := runningAttempt_some hrunning
        intro a ha hrun
        have hcurrent := (hsingle.running a ha hrun).1
        rw [(hsingle.running running hrunMem hrunStatus).1] at hcurrent
        obtain rfl := hsingle.eq ha hrunMem (Option.some.inj hcurrent).symm
        obtain ⟨-, -, id, hleaseId, hisId⟩ := hsingle.running a ha hrun
        rw [hleaseId, Option.getD_some, hisId.1] at hid
        exact ⟨lease, hmem, hleaseId.trans (congrArg some hid.symm), hlive⟩

theorem reapExpiredWorkLeases_attended (options : ReapWorkLeasesOptions)
    (h : Attended env.now s) :
    (reapExpiredWorkLeases env options).wp (fun _ => Attended env.now) (Attended env.now) s := by
  simp only [reapExpiredWorkLeases, Call.wp_bind]
  refine Call.wp_mono (fun _ t ht => ?_) (fun _ ht => ht) (expireWorkItemLeases_attended h)
  simp only [Call.wp_read]
  refine Call.wp_mono (fun _ u hu => ?_) (fun _ hu => hu)
    (Call.wp_each_rest (I := Sweeping env.now t.leases (fun _ => True) fun _ => True)
      (fun item rest v hv => reapStranded_sweeps (fun _ _ => trivial) (fun _ => trivial) hv)
      (.start ht fun _ _ => trivial))
  exact Call.wp_mono (fun _ v hv => hv.attended) (fun _ hv => hv)
    (Call.wp_each_rest (I := Sweeping env.now u.leases (fun _ => True) fun _ => True)
      (fun item rest v hv => reapOrphanedAttempt_sweeps (fun _ _ => trivial)
        (fun _ _ _ => trivial) hv)
      (.start hu.attended fun _ _ => trivial))

theorem reapExpiredWorkLeases_coherent (hall : options.itemFilter = fun _ => true)
    (h : Attended env.now s) :
    (reapExpiredWorkLeases env options).wp (fun _ => Coherent (options.now.getD env.now))
      (fun _ => True) s := by
  simp only [reapExpiredWorkLeases, Call.wp_bind]
  refine Call.wp_mono (fun _ t ht => ?_) (fun _ _ => trivial)
    (Call.wp_and (expireWorkItemLeases_attended h) (expireWorkItemLeases_swept _ s))
  obtain ⟨ht, hswept⟩ := ht
  simp only [Call.wp_read]
  refine Call.wp_mono (fun _ u hu => ?_) (fun _ _ => trivial)
    (Call.wp_each_rest (I := Sweeping env.now t.leases (fun _ => True) (Held env.now t))
      (E := Attended env.now) (fun item rest v hv => reapStranded_sweeps
        (fun x hx hstatus => absurd hstatus hx)
        (fun hif => (held_of_skipped hall hif).congr hv.visiting.kept.2.symm) hv)
      (.start ht fun _ _ => trivial))
  have hheld : ∀ item ∈ u.currentWorkItems, Held env.now u item := fun item hitem =>
    ((hu.visited item hitem).resolve_left List.not_mem_nil).congr hu.visiting.kept.2
  refine Call.wp_mono (fun _ v hv => ?_) (fun _ _ => trivial)
    (Call.wp_each_rest (I := Sweeping env.now u.leases (Held env.now u)
        (CoherentItem (options.now.getD env.now) u))
      (E := Attended env.now) (fun item rest v hv => reapOrphanedAttempt_sweeps
        (fun x hx => hx.coherentItem) (fun running hrunning hif => ?_) hv)
      (.start hu.attended hheld))
  · exact fun item hitem =>
      ((hv.visited item hitem).resolve_left List.not_mem_nil).congr hv.visiting.kept.2
  · have hleases := hv.visiting.kept.2
    refine (coherentItem_of_skipped hv.attended (hswept.congr ?_) hv.current
      ((hv.visiting.listed item List.mem_cons_self).congr hleases) hall hrunning hif).congr
      hleases.symm
    exact hleases.trans hu.visiting.kept.2

end Loops

section Runs

theorem operation_attended {s : CoordState} {a : Action} (h : Attended a.env.now s.store)
    (hwell : attemptsWell s a = true) :
    Attended a.env.now ((a.operation.call a.env).run s.store).1 := by
  rw [← Call.wp_fst (m := a.operation.call a.env) (I := Attended a.env.now)]
  obtain ⟨env, op⟩ := a
  cases op with
  | create input =>
      rw [Operation.call, Call.wp_void]
      exact createWorkItem_attended input hwell h
  | update input =>
      rw [Operation.call, Call.wp_void]
      exact updateWorkItem_attended input h
  | claim input =>
      rw [Operation.call, Call.wp_void]
      refine claimWorkItem_attended input h fun current hcurrent hproceeds => ?_
      simp only [attemptsWell, hcurrent, Option.all_some, hproceeds, Bool.not_true, Bool.false_or,
        Bool.and_eq_true, List.all_eq_true, decide_eq_true_eq] at hwell
      exact hwell
  | release input =>
      rw [Operation.call, Call.wp_void]
      exact releaseWorkItem_attended input h
  | quarantine input =>
      rw [Operation.call, Call.wp_void]
      exact quarantineWorkItemExecution_attended input h
  | effectRelease input =>
      rw [Operation.call, Call.wp_void]
      exact releaseWorkItemEffectOwnership_attended input h
  | renew input =>
      rw [Operation.call, Call.wp_void]
      exact renewWorkItemLease_attended input h
  | expire now =>
      rw [Operation.call, Call.wp_void]
      exact expireWorkItemLeases_attended h
  | reap options =>
      rw [Operation.call]
      exact reapExpiredWorkLeases_attended options h
  | handoff input =>
      rw [Operation.call, Call.wp_void]
      refine handoffWorkItem_attended input h fun current hcurrent => ?_
      simpa only [attemptsWell, hcurrent, Option.all_some] using hwell
  | createIfAbsent input =>
      rw [Operation.call, Call.wp_void]
      exact createWorkItemIfAbsent_attended input hwell h
  | importExternal input =>
      rw [Operation.call, Call.wp_void]
      exact importExternalWorkItem_attended input h
  | continuePipeline evidence action input =>
      rw [Operation.call, Call.wp_void]
      exact continueSuspendedPipelineWorkItem_attended input h

theorem attended_reach {s : CoordState}
    (hs : coordination.Reach (fun s a => attemptsWell s a = true) s) : Attended s.clock s.store := by
  refine hs.invariant (I := fun s => Attended s.clock s.store) (fun s hs => ?_)
    fun s a t h hok hstep => ?_
  · rw [show s.store = .empty from hs]
    exact .initial s.clock
  · obtain ⟨hclock, rfl⟩ := Option.ite_some_none_eq_some.mp hstep
    exact operation_attended (h.advance hclock) hok

/-- After a reap without a filter, in runs whose claims take only items without a running attempt,
every attempt that is said to run is that of a live lease. -/
theorem reap_coherent {s : CoordState}
    (hs : coordination.Reach (fun s a => attemptsWell s a = true) s) {env : Env}
    (hclock : s.clock ≤ env.now) {options : ReapWorkLeasesOptions}
    (hall : options.itemFilter = fun _ => true) {t : Store}
    (hreap : (reapExpiredWorkLeases env options).run s.store = (t, .ok ())) :
    Coherent (options.now.getD env.now) t := by
  have hcoherent := Call.wp_ok (reapExpiredWorkLeases_coherent hall
    ((attended_reach hs).advance hclock)) (congrArg Prod.snd hreap)
  rwa [hreap] at hcoherent

def claimFor (peer : String) (now ttlMs : ℕ) : Action where
  env := drawingEnv now
  operation := .claim { itemId := "w", actorPeerId := peer, purpose := "x", ttlMs := some ttlMs }

/-- An attempt is said to run whose lease is not live. -/
def orphanedAttempt (now : ℤ) (s : Store) : Bool :=
  s.currentWorkItems.any fun item => item.attemptList.any fun a => a.status = .running &&
    !s.currentLeaseRecords.any fun lease => a.leaseId = some lease.leaseId && lease.live now

theorem reap_coherent_after_claim :
    ∃ t : Store, (t.currentWorkItems.any fun item => item.attemptList.any (·.status = .running)) =
      true ∧ Coherent 3 t := by
  obtain ⟨s, hs, hclock, hrunning, hok⟩ := coordination.exists_reach_of_execOk attemptsWell
    (s := ⟨.empty, 0⟩) [createAction, claimFor "p" 1 60000]
    (fun s => s.clock ≤ 3 ∧
      (((reapExpiredWorkLeases (openEnv 3) {}).run s.store).1.currentWorkItems.any fun item =>
        item.attemptList.any (·.status = .running)) = true ∧
      ((reapExpiredWorkLeases (openEnv 3) {}).run s.store).2.isOk = true) rfl (by decide +kernel)
  cases hreap : (reapExpiredWorkLeases (openEnv 3) {}).run s.store with
  | mk t result =>
      rw [hreap] at hrunning hok
      cases result with
      | error e => cases hok
      | ok _ =>
          have hnow : s.clock ≤ (openEnv 3).now := hclock
          exact ⟨t, hrunning, reap_coherent hs hnow rfl hreap⟩

/-- A second claim over a lapsed lease leaves the attempt of the first one running. -/
theorem reap_leaves_orphan :
    ¬ ∀ s, coordination.Reachable s → ∀ env options t, s.clock ≤ env.now →
      options.itemFilter = (fun _ => true) →
      (reapExpiredWorkLeases env options).run s.store = (t, .ok ()) →
      Coherent (options.now.getD env.now) t := by
  intro h
  obtain ⟨s, hs, hclock, horphaned, hok⟩ := Transition.System.exists_reachable_of_exec
    (S := coordination) (s := ⟨.empty, 0⟩) [createAction, claimFor "p" 1 10, claimFor "q" 20 60000]
    (fun s => s.clock ≤ 30 ∧
      orphanedAttempt 30 ((reapExpiredWorkLeases (openEnv 30) {}).run s.store).1 = true ∧
      ((reapExpiredWorkLeases (openEnv 30) {}).run s.store).2.isOk = true) rfl (by decide +kernel)
  cases hreap : (reapExpiredWorkLeases (openEnv 30) {}).run s.store with
  | mk t result =>
      rw [hreap] at horphaned hok
      cases result with
      | error e => cases hok
      | ok _ =>
          obtain ⟨item, hitem, hattempts⟩ := List.any_eq_true.mp horphaned
          obtain ⟨a, ha, hrun⟩ := List.any_eq_true.mp hattempts
          simp only [Bool.and_eq_true, decide_eq_true_eq, Bool.not_eq_true', List.any_eq_false,
            not_and] at hrun
          obtain ⟨lease, hmem, hleaseId, hlive⟩ :=
            h s hs (openEnv 30) {} t hclock rfl hreap item hitem a ha hrun.1
          exact hrun.2 lease hmem hleaseId hlive

end Runs

end Kyberion.Work
