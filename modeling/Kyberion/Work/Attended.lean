import Kyberion.Work.Attempts
import Kyberion.Work.HandoffAtomic
import Kyberion.Work.Settlement

/-!
Every operation keeps the running attempts attended, a claim only when the item it takes has none.
-/

namespace Kyberion.Work

open Js (isBlank trim)

/-- Attempts a new item may bring along: they have ended, under distinct ids. -/
def creationWell (attempts : Option (List WorkItemAttempt)) : Bool :=
  let attempts := attempts.getD []
  attempts.all (fun a => a.status ≠ .running && a.runId ≠ "") &&
    decide (attempts.map (·.runId)).Nodup

/-- The id that a claim draws for its attempt names none of the item's. -/
def freshRun (env : Env) (current : WorkItem) : Bool :=
  current.attemptList.all fun a => a.runId ≠ env.randomId "wrun" 2

/-- The checks of a claim, up to its first write. -/
def claimProceeds (env : Env) (s : Store) (input : ClaimWorkItemInput) (current : WorkItem) :
    Bool :=
  env.halt.isNone && !env.refusesActor input.actorPeerId &&
    (assertVersion current input.expectedVersion).isOk &&
    (s.currentLeaseForItem env.now current.itemId).isNone && !isTerminalStatus current.status &&
    (assertEffectClaimable env.host current s.currentWorkItems).isOk &&
    (leaseExpiry env.now input.ttlMs).isOk

/-- A claim that proceeds takes an item of which no attempt runs, and draws a new run id; what a
creation brings along has ended. -/
def attemptsWell (s : CoordState) (a : Action) : Bool :=
  match a.operation with
  | .create input => creationWell input.attempts
  | .createIfAbsent input => creationWell input.attempts
  | .claim input => (s.store.currentWorkItem input.itemId).all fun current =>
      !claimProceeds a.env s.store input current ||
        (current.attemptList.all (fun attempt => attempt.status ≠ .running) &&
          freshRun a.env current)
  | .handoff input => (s.store.currentWorkItem input.itemId).all (freshRun a.env)
  | _ => true

variable {env : Env} {s : Store} {current x : WorkItem}

theorem Store.currentWorkItem_mem {id : String} (h : s.currentWorkItem id = some current) :
    current ∈ s.currentWorkItems := by
  obtain ⟨hid, hlast⟩ := Store.currentWorkItem_some h
  exact Store.mem_current hid.2 hlast

theorem createWorkItemInternal_attended (input : CreateWorkItemInput)
    (hwell : creationWell input.attempts = true) (h : Attended env.now s) :
    (createWorkItemInternal env input).wp (fun _ => Attended env.now) (Attended env.now) s := by
  simp only [createWorkItemInternal, Call.wp_bind, Call.wp_refuse, Call.wp_lift, Call.wp_read,
    Call.wp_pure]
  refine ⟨fun item hitem => ⟨fun _ => h, fun _ => ?_⟩, fun _ _ => h⟩
  unfold buildWorkItemCreation at hitem
  simp only [Js.throwIf_eq_ok] at hitem
  obtain ⟨-, -, hitem⟩ := hitem
  obtain rfl := Except.ok.inj hitem
  simp only [creationWell, Bool.and_eq_true, List.all_eq_true, decide_eq_true_eq] at hwell
  refine h.appendStopped (fun a ha => (hwell.1 a ha).1) (fun id hid => ?_) hwell.2
  obtain ⟨a, ha, rfl⟩ := List.mem_map.mp hid
  exact (hwell.1 a ha).2

theorem createWorkItem_attended (input : CreateWorkItemInput)
    (hwell : creationWell input.attempts = true) (h : Attended env.now s) :
    (createWorkItem env input).wp (fun _ => Attended env.now) (Attended env.now) s := by
  simp only [createWorkItem, assertWorkItemTenantRegistered, Call.wp_bind, Call.wp_refuse]
  exact ⟨fun _ => h, fun _ => createWorkItemInternal_attended input hwell h⟩

theorem createWorkItemIfAbsent_attended (input : CreateWorkItemInput)
    (hwell : creationWell input.attempts = true) (h : Attended env.now s) :
    (createWorkItemIfAbsent env input).wp (fun _ => Attended env.now) (Attended env.now) s := by
  simp only [createWorkItemIfAbsent, assertWorkItemTenantRegistered, Call.wp_bind,
    Call.wp_refuse, Call.wp_lift, Call.wp_read]
  refine ⟨fun _ => h, fun _ => ⟨fun _ => h, fun _ => ⟨fun candidate _ => ?_, fun _ _ => h⟩⟩⟩
  split
  · exact createWorkItemInternal_attended input hwell h
  · simp only [Call.wp_bind, Call.wp_lift, Call.wp_pure]
    exact ⟨fun _ _ => h, fun _ _ => h⟩

theorem updateWorkItem_attended (input : UpdateWorkItemInput) (h : Attended env.now s) :
    (updateWorkItem env input).wp (fun _ => Attended env.now) (Attended env.now) s := by
  simp only [updateWorkItem, Call.wp_bind, Call.wp_read]
  cases hcur : s.currentWorkItem input.itemId with
  | none => simpa only [Call.wp_fail] using h
  | some current =>
      have hmem := Store.currentWorkItem_mem hcur
      simp only [Call.wp_bind, Call.wp_lift]
      refine ⟨fun _ _ => ⟨fun hold _ => ?_, fun _ _ => h⟩, fun _ _ => h⟩
      cases hclear : updateClearsLease input (input.status.getD current.status) with
      | true =>
          obtain ⟨ending, hattempts⟩ := updated_cleared env current hold
            (s.currentLeaseForItem env.now current.itemId) hclear
          obtain ⟨hids, hstopped⟩ := ended_of_finalized (h.single current hmem)
            (closingStatus_ne _) hattempts
          cases hlease : s.currentLeaseForItem env.now current.itemId with
          | some lease =>
              rw [hlease] at hids hstopped
              simp only [wp_appendLeaseSnapshot, Call.wp_bind, Call.wp_pure]
              refine Call.wp_mono (fun _ t ht => ?_) (fun _ ht => ht)
                (h.appendEnded hmem hids hstopped)
              have hne := (Store.mem_currentLeaseRecords.mp
                (Store.currentLeaseForItem_some hlease).1).1
              exact ht.endLease (r := lease.released env.now) hne (by simp [WorkLease.released])
          | none =>
              rw [hlease] at hids hstopped
              simp only [Call.wp_pure]
              exact h.appendEnded hmem hids hstopped
      | false =>
          obtain ⟨hattempts, hid⟩ := updated_same env current hold
            (s.currentLeaseForItem env.now current.itemId) hclear
          simp only [Call.wp_pure]
          refine h.appendSame hmem ?_ hattempts hid
          rw [nextItemSnapshot_itemId, patchWorkItem_itemId]

theorem importExternalWorkItem_attended (input : ImportExternalWorkItemInput)
    (h : Attended env.now s) :
    (importExternalWorkItem env input).wp (fun _ => Attended env.now) (Attended env.now) s := by
  simp only [importExternalWorkItem, assertWorkItemTenantRegistered, Call.wp_bind, Call.wp_read,
    Call.wp_ite, Call.wp_refuse]
  cases s.importedItem input with
  | some existing =>
      have hwrite : (updateWorkItem env (importedUpdate existing input)).wp
          (fun _ => Attended env.now) (Attended env.now) s := updateWorkItem_attended _ h
      exact ⟨fun _ => ⟨fun _ => h, fun _ => hwrite⟩, fun _ => hwrite⟩
  | none =>
      have hwrite : (createWorkItemInternal env (importedCreation input)).wp
          (fun _ => Attended env.now) (Attended env.now) s := createWorkItemInternal_attended _ rfl h
      exact ⟨fun _ => ⟨fun _ => h, fun _ => hwrite⟩, fun _ => hwrite⟩

theorem releaseWorkItem_attended (input : ReleaseWorkItemInput) (h : Attended env.now s) :
    (releaseWorkItem env input).wp (fun _ => Attended env.now) (Attended env.now) s := by
  simp only [releaseWorkItem, Call.wp_bind, Call.wp_read]
  cases hcur : s.currentWorkItem input.itemId with
  | none => simpa only [Call.wp_fail] using h
  | some current =>
      have hmem := Store.currentWorkItem_mem hcur
      simp only [Call.wp_bind, Call.wp_lift]
      refine ⟨fun _ _ => ?_, fun _ _ => h⟩
      cases hlease : s.currentLeaseForItem env.now current.itemId with
      | none => simpa only [Call.wp_fail] using h
      | some lease =>
          have hne := (Store.mem_currentLeaseRecords.mp
            (Store.currentLeaseForItem_some hlease).1).1
          simp only [Call.wp_bind, Call.wp_refuse, Call.wp_lift, wp_appendLeaseSnapshot,
            Call.wp_pure]
          refine ⟨fun _ => h, fun _ => ⟨fun _ => h, fun _ => ⟨fun hold _ => ?_, fun _ _ => h⟩⟩⟩
          have hended := h.endLease (r := lease.released env.now) hne (by simp [WorkLease.released])
          have hnext := ended_of_finalized (x := releasedItem env current input hold)
            (h.single current hmem) (show WorkItemAttemptStatus.released ≠ .running by decide) rfl
          exact hended.appendEnded hmem hnext.1 hnext.2

/-- The id that is drawn for a lease or an attempt is an id. -/
theorem drawn_ne (env : Env) (name : String) (n : ℕ)
    (hname : name.toList.any Js.isWhiteSpace = false) : env.randomId name n ≠ "" :=
  (env.randomId_isId name n hname).2

theorem claimedItem_oneRunning {input : ClaimWorkItemInput} {lease : WorkLease}
    {target : Option String} (hone : OneRunning current) (hstopped : Stopped current)
    (hfresh : freshRun env current = true) (hid : IsId lease.leaseId) :
    OneRunning (claimedItem env current input lease target) := by
  have hids : (claimedItem env current input lease target).runIds =
      current.runIds ++ [env.randomId "wrun" 2] := by
    show (current.attemptList ++ [_]).map _ = _
    rw [List.map_append]
    rfl
  simp only [freshRun, List.all_eq_true, decide_eq_true_eq] at hfresh
  constructor
  · rw [hids]
    intro id hmem
    rcases List.mem_append.mp hmem with hold | hnew
    · exact hone.named id hold
    · rw [List.mem_singleton.mp hnew]
      exact drawn_ne env "wrun" 2 (by decide)
  · rw [hids]
    refine List.nodup_append.mpr ⟨hone.distinct, List.nodup_singleton _, ?_⟩
    intro id hid' drawn hdrawn heq
    obtain ⟨a, ha, rfl⟩ := List.mem_map.mp hid'
    exact hfresh a ha (heq.trans (List.mem_singleton.mp hdrawn))
  · intro a ha hrun
    rcases List.mem_append.mp ha with hold | hnew
    · exact absurd hrun (hstopped a hold)
    · rw [List.mem_singleton.mp hnew]
      exact ⟨rfl, rfl, lease.leaseId, rfl, hid⟩

theorem claimWorkItem_attended (input : ClaimWorkItemInput) (h : Attended env.now s)
    (hwell : ∀ current, s.currentWorkItem input.itemId = some current →
      claimProceeds env s input current = true → Stopped current ∧ freshRun env current = true) :
    (claimWorkItem env input).wp (fun _ => Attended env.now) (Attended env.now) s := by
  simp only [claimWorkItem, assertWorkClaimsAllowed, Call.wp_bind, Call.wp_refuse, Call.wp_read]
  cases hhalt : env.halt with
  | some halt => simpa only [Call.wp_fail] using h
  | none =>
      simp only [Call.wp_pure]
      refine ⟨fun _ => h, fun hactor => ?_⟩
      cases hcur : s.currentWorkItem input.itemId with
      | none => simpa only [Call.wp_fail] using h
      | some current =>
          have hmem := Store.currentWorkItem_mem hcur
          simp only [Call.wp_bind, Call.wp_lift]
          refine ⟨fun _ hversion => ?_, fun _ _ => h⟩
          cases hlease : s.currentLeaseForItem env.now current.itemId with
          | some lease =>
              simp only [Call.wp_bind, Call.wp_refuse, Call.wp_pure]
              exact ⟨fun _ => h, fun _ => ⟨fun _ => h, fun _ => h⟩⟩
          | none =>
              simp only [Call.wp_bind, Call.wp_refuse, Call.wp_lift, wp_appendLeaseSnapshot,
                Call.wp_pure]
              refine ⟨fun _ => h, fun hopen => ⟨fun target htarget => ⟨fun expiresAt hexpires => ?_,
                fun _ _ => h⟩, fun _ _ => h⟩⟩
              obtain ⟨hstopped, hfresh⟩ := hwell current hcur (by
                simp [claimProceeds, hhalt, hactor, hversion, hlease, hopen, htarget, hexpires,
                  Except.isOk, Except.toBool])
              have hid : IsId (claimedLease env current input expiresAt).leaseId :=
                env.randomId_isId "wlease" 0 (by decide)
              have hgranted := h.grantLease (r := claimedLease env current input expiresAt) hid.2
                fun item hitem hsame => Store.current_item_unique hitem hmem hsame ▸ hstopped
              refine wp_appendItemSnapshot.mpr ⟨fun hok => hgranted.appendItem hok.1
                (claimedItem_oneRunning (h.single current hmem) hstopped hfresh hid) ?_,
                fun _ => hgranted⟩
              intro a ha hrun lease hlease' hsame hlive
              rcases List.mem_append.mp ha with hold | hnew
              · exact absurd hrun (hstopped a hold)
              · rcases (Store.mem_append_lease hid.2).mp hlease' with rfl | ⟨hbefore, -⟩
                · rw [List.mem_singleton.mp hnew]
                  rfl
                · rw [Store.idle_of_none hlease lease hbefore hsame] at hlive
                  cases hlive

theorem Stopped.line (h : Stopped x) : Stopped x.line := by
  intro a ha
  obtain ⟨b, hb, rfl⟩ := mem_line_attemptList ha
  exact h b hb

theorem freshRun_iff : freshRun env current = true ↔ env.randomId "wrun" 2 ∉ current.runIds := by
  simp only [freshRun, WorkItem.runIds, List.all_eq_true, decide_eq_true_eq, List.mem_map,
    not_exists, not_and]

/-- The claim half takes what the release half left, in which no attempt runs. -/
theorem handoffWorkItem_attended (input : HandoffWorkItemInput) (h : Attended env.now s)
    (hfresh : ∀ current, s.currentWorkItem input.itemId = some current →
      freshRun env current = true) :
    (handoffWorkItem env input).wp (fun _ => Attended env.now) (Attended env.now) s := by
  simp only [handoffWorkItem, Call.wp_bind, Call.wp_refuse]
  refine ⟨fun _ => h, fun _ => ?_⟩
  refine Call.wp_mono ?_ (fun _ ht => ht.1)
    (Call.wp_and (releaseWorkItem_attended (handoffRelease input) h)
      (releaseWorkItem_cases (handoffRelease input)))
  rintro released t ⟨ht, current, lease, hold, hadmitted, -, -, rfl⟩
  have hmem := Store.currentWorkItem_mem hadmitted.found
  obtain ⟨hids, hstopped⟩ := ended_of_finalized
    (x := releasedItem env current (handoffRelease input) hold) (h.single current hmem)
    (show WorkItemAttemptStatus.released ≠ .running by decide) rfl
  have hitem : (releasedItem env current (handoffRelease input) hold).line.itemId =
      current.itemId := line_itemId _
  generalize releasedItem env current (handoffRelease input) hold = x at *
  simp only [Call.wp_pure]
  refine claimWorkItem_attended (handoffClaim input released.1.version) ht fun next hnext _ => ?_
  obtain rfl : x.line = next :=
    Option.some.inj ((Store.currentWorkItem_stored hadmitted.found hitem).symm.trans hnext)
  refine ⟨hstopped.line, freshRun_iff.mpr fun hdrawn => ?_⟩
  have hbefore := (line_runIds_sublist x).subset hdrawn
  rw [hids] at hbefore
  exact freshRun_iff.mp (hfresh current hadmitted.found) hbefore

theorem quarantineWorkItemExecution_attended (input : QuarantineInput) (h : Attended env.now s) :
    (quarantineWorkItemExecution env input).wp (fun _ => Attended env.now) (Attended env.now) s := by
  simp only [quarantineWorkItemExecution, Call.wp_bind, Call.wp_read]
  cases hcur : s.currentWorkItem input.itemId with
  | none => simpa only [Call.wp_fail] using h
  | some current =>
      cases s.currentLeaseById input.leaseId with
      | none => simpa only [Call.wp_fail] using h
      | some lease =>
          simp only [Call.wp_bind, Call.wp_refuse, Call.wp_lift]
          refine ⟨fun _ => h, fun _ => ⟨fun hold _ => ?_, fun _ _ => h⟩⟩
          exact h.appendSame (Store.currentWorkItem_mem hcur) rfl rfl rfl

/-- A human release leaves the attempts alone. -/
theorem prepareHumanEffectRelease_attempts {host : Approval.Host} {separationEnabled : Bool}
    {approval : Option WorkEffectReleaseApproval} {item next : WorkItem}
    {input : EffectReleaseInput} {at_ : ℤ}
    (h : prepareHumanEffectRelease host separationEnabled approval (some item) input at_ =
      .ok next) :
    next.attemptList = item.attemptList ∧ next.currentAttemptId = item.currentAttemptId := by
  unfold prepareHumanEffectRelease at h
  obtain ⟨-, -, h⟩ := Js.except_bind_ok h
  obtain ⟨hold, -, h⟩ := Js.except_bind_ok h
  cases hold with
  | none => cases h
  | some hold =>
      obtain ⟨-, h⟩ := Js.throwIf_eq_ok.mp h
      obtain ⟨approval', -, h⟩ := Js.except_bind_ok h
      obtain rfl := Except.ok.inj h
      exact ⟨rfl, rfl⟩

theorem Store.lapsedLease_mem {now : ℤ} {input : EffectReleaseInput} {item : Option WorkItem}
    {lease : WorkLease} (h : s.lapsedLease now input item = some lease) :
    lease ∈ s.currentLeaseRecords := by
  unfold Store.lapsedLease at h
  split at h
  · cases h
  · split at h
    · cases h
    · exact (Store.currentLeaseById_some h).1

theorem releaseWorkItemEffectOwnership_attended (input : EffectReleaseInput)
    (h : Attended env.now s) :
    (releaseWorkItemEffectOwnership env input).wp (fun _ => Attended env.now)
      (Attended env.now) s := by
  simp only [releaseWorkItemEffectOwnership, Call.wp_bind, Call.wp_read]
  cases hcur : s.currentWorkItem input.itemId with
  | none =>
      simp only [Call.wp_bind, Call.wp_lift]
      exact ⟨by rintro next ⟨⟩, fun _ _ => h⟩
  | some item =>
      have hmem := Store.currentWorkItem_mem hcur
      cases hlapsed : s.lapsedLease env.now input (some item) with
      | none =>
          simp only [Call.wp_bind, Call.wp_lift]
          refine ⟨fun next hnext => ?_, fun _ _ => h⟩
          obtain ⟨hattempts, hid⟩ := prepareHumanEffectRelease_attempts hnext
          exact h.appendSame hmem (prepareHumanEffectRelease_ok hnext).2 hattempts hid
      | some lapsed =>
          have hne := (Store.mem_currentLeaseRecords.mp (Store.lapsedLease_mem hlapsed)).1
          simp only [Call.wp_bind, Call.wp_lift, wp_appendLeaseSnapshot]
          refine ⟨fun next _ => ?_, fun _ _ => h⟩
          have hended := h.endLease
            (r := { lapsed with status := .expired, releasedAt := some env.now }) hne (by simp)
          obtain ⟨hids, hstopped⟩ := ended_of_finalized (x := { next with
            claimedAt := none
            claimedByPeerId := none
            claimedByUserId := none
            releasedAt := some env.now
            attempts := some (finalizeWorkItemAttempt env.now item .released
              { summary := some "Authenticated human reconciled the expired uncertain attempt"
                }).attempts
            currentAttemptId := none }) (h.single item hmem)
            (show WorkItemAttemptStatus.released ≠ .running by decide) rfl
          exact hended.appendEnded hmem hids hstopped

theorem renewWorkItemLease_attended (input : RenewWorkItemLeaseInput) (h : Attended env.now s) :
    (renewWorkItemLease env input).wp (fun _ => Attended env.now) (Attended env.now) s := by
  simp only [renewWorkItemLease, Call.wp_bind, Call.wp_read]
  cases hlease : s.currentLeaseById input.leaseId with
  | none => simpa only [Call.wp_fail] using h
  | some lease =>
      obtain ⟨hmem, -⟩ := Store.currentLeaseById_some hlease
      simp only [Call.wp_bind, Call.wp_refuse, Call.wp_lift, wp_appendLeaseSnapshot, Call.wp_pure]
      refine ⟨fun _ => h, fun hactive => ⟨fun _ => h, fun _ => ⟨fun _ => h, fun hlapsed => ?_⟩⟩⟩
      refine ⟨fun expiresAt _ => h.renewLease hmem ?_, fun _ _ => h⟩
      simp only [ne_eq, Decidable.not_not] at hactive
      simpa [WorkLease.live, hactive] using hlapsed

theorem expireWorkItemLeases_attended {clock now : ℤ} (h : Attended clock s) :
    (expireWorkItemLeases now).wp (fun _ => Attended clock) (Attended clock) s := by
  simp only [expireWorkItemLeases, Call.wp_bind, Call.wp_read, Call.wp_pure]
  refine Call.wp_each (fun r hr t ht => ?_) h
  rw [wp_appendLeaseSnapshot]
  obtain ⟨lease, hlease, rfl⟩ := List.mem_map.mp hr
  exact ht.endLease (r := { lease with status := .expired })
    (Store.mem_currentLeaseRecords.mp (List.mem_filter.mp hlease).1).1 (by simp)

/-- The suspended attempt is the last one, and no other is current. -/
theorem suspendedHold_current {input : ResumeSuspendedPipelineWorkItemInput}
    {original : WorkItemAttempt} {hold : WorkEffectOwnership}
    (h : suspendedHold env input current = .ok (original, hold)) :
    (truthy current.currentAttemptId).all fun runId => runId = original.runId := by
  have hlast := (suspendedHold_ok h).1
  unfold suspendedHold at h
  obtain ⟨-, h⟩ := Js.throwIf_eq_ok.mp h
  rw [hlast] at h
  obtain ⟨hchecks, -⟩ := Js.throwIf_eq_ok.mp h
  rw [not_or] at hchecks
  cases hcurrent : truthy current.currentAttemptId with
  | none => rfl
  | some runId => simpa [hcurrent] using hchecks.2

/-- The last attempt of an item with another status. -/
theorem continued_runIds {original next : WorkItemAttempt}
    (hlast : current.attemptList.getLast? = some original) (hid : next.runId = original.runId) :
    (current.attemptList.dropLast ++ [next]).map (·.runId) = current.runIds := by
  obtain ⟨front, hfront⟩ := List.getLast?_eq_some_iff.mp hlast
  simp [WorkItem.runIds, hfront, hid]

/-- Every running attempt of a suspended item is the suspended one. -/
theorem running_original {original : WorkItemAttempt} (hone : OneRunning current)
    (hcurrent : (truthy current.currentAttemptId).all fun runId => runId = original.runId)
    {a : WorkItemAttempt} (ha : a ∈ current.attemptList) (hrun : a.status = .running) :
    a.runId = original.runId := by
  have hne : a.runId ≠ "" := hone.named _ (List.mem_map_of_mem ha)
  simpa [truthy, (hone.running a ha hrun).1, hne] using hcurrent

theorem deniedItem_ended {input : ResumeSuspendedPipelineWorkItemInput} {c : Continuation}
    (hone : OneRunning current) (hsuspended : suspendedHold env input current =
      .ok (c.original, c.hold)) :
    (deniedItem env input current c).runIds = current.runIds ∧
      Stopped (deniedItem env input current c) := by
  have hlast := (suspendedHold_ok hsuspended).1
  have hids : (deniedItem env input current c).runIds = current.runIds := continued_runIds hlast rfl
  refine ⟨hids, fun a ha hrun => ?_⟩
  have hdistinct := hone.distinct
  rw [← hids] at hdistinct
  rcases List.mem_append.mp ha with hold | hnew
  · have hid := running_original hone (suspendedHold_current hsuspended)
      (List.dropLast_subset _ hold) hrun
    have heq := List.inj_on_of_nodup_map hdistinct ha
      (List.mem_append_right _ (List.mem_singleton_self _)) hid
    rw [heq] at hrun
    cases hrun
  · rw [List.mem_singleton.mp hnew] at hrun
    cases hrun

theorem resumedItem_oneRunning {input : ResumeSuspendedPipelineWorkItemInput} {c : Continuation}
    {lease : WorkLease} (hone : OneRunning current) (hsuspended : suspendedHold env input current =
      .ok (c.original, c.hold)) (hid : IsId lease.leaseId) :
    OneRunning (resumedItem env input current c lease) ∧
      ∀ a ∈ (resumedItem env input current c lease).attemptList, a.status = .running →
        a.leaseId = some lease.leaseId := by
  have hlast := (suspendedHold_ok hsuspended).1
  have hids : (resumedItem env input current c lease).runIds = current.runIds :=
    continued_runIds hlast rfl
  have hdistinct := hone.distinct
  rw [← hids] at hdistinct
  have hnew {a : WorkItemAttempt} (ha : a ∈ (resumedItem env input current c lease).attemptList)
      (hrun : a.status = .running) : (resumedItem env input current c lease).currentAttemptId =
        some a.runId ∧ a.endedAt = none ∧ a.leaseId = some lease.leaseId := by
    rcases List.mem_append.mp ha with hold | hnew
    · have hsame := running_original hone (suspendedHold_current hsuspended)
        (List.dropLast_subset _ hold) hrun
      rw [List.inj_on_of_nodup_map hdistinct ha
        (List.mem_append_right _ (List.mem_singleton_self _)) hsame]
      exact ⟨rfl, rfl, rfl⟩
    · rw [List.mem_singleton.mp hnew]
      exact ⟨rfl, rfl, rfl⟩
  refine ⟨⟨?_, hdistinct, fun a ha hrun => ?_⟩, fun a ha hrun => (hnew ha hrun).2.2⟩
  · rw [hids]
    exact hone.named
  · obtain ⟨hcurrent, hended, hlease⟩ := hnew ha hrun
    exact ⟨hcurrent, hended, lease.leaseId, hlease, hid⟩

/-- The last part of a continuation, on a store in which no lease of the item is live. -/
theorem continueTail_attended {action : ContinuationAction}
    {input : ResumeSuspendedPipelineWorkItemInput} {c : Continuation} {oldLease : WorkLease}
    (h : Attended env.now s) (hmem : current ∈ s.currentWorkItems)
    (hsuspended : suspendedHold env input current = .ok (c.original, c.hold))
    (hidle : s.Idle env.now current.itemId) :
    (match action with
      | .deny => appendItemSnapshot (deniedItem env input current c)
      | .resume => do
          let expiresAt ← Call.lift (printableInstant (env.now + continuationTtl input.ttlMs))
          appendLeaseSnapshot (resumedLease env input current c oldLease expiresAt)
          appendItemSnapshot (resumedItem env input current c
            (resumedLease env input current c oldLease expiresAt))).wp
      (fun _ => Attended env.now) (Attended env.now) s := by
  have hone := h.single current hmem
  cases action with
  | deny =>
      obtain ⟨hids, hstopped⟩ := deniedItem_ended hone hsuspended
      exact h.appendEnded hmem hids hstopped
  | resume =>
      simp only [Call.wp_bind, Call.wp_lift, wp_appendLeaseSnapshot]
      refine ⟨fun expiresAt _ => ?_, fun _ _ => h⟩
      have hid : IsId (resumedLease env input current c oldLease expiresAt).leaseId :=
        env.randomId_isId "wlease" 0 (by decide)
      have horiginal := List.mem_of_getLast? (suspendedHold_ok hsuspended).1
      have hstored := resumedItem_stored env input
        (resumedLease env input current c oldLease expiresAt) (h.stored current hmem) horiginal
      obtain ⟨hresumed, hleased⟩ := resumedItem_oneRunning hone hsuspended hid
      refine wp_appendItemSnapshot.mpr ⟨fun hok => ?_, fun hfail => ?_⟩
      · -- the item first: no lease of it is live
        have hitem := h.appendItem hok.1 hresumed fun a ha hrun lease hlease hsame hlive => by
          rw [hidle lease hlease hsame] at hlive
          cases hlive
        refine hitem.appendLease (r := resumedLease env input current c oldLease expiresAt) hid.2
          fun _ item hcurrent hsame a ha hrun => ?_
        have hne : (resumedItem env input current c
            (resumedLease env input current c oldLease expiresAt)).line.itemId ≠ "" := by
          rw [line_itemId]
          exact isGovernedWorkItem_itemId hok.1
        have hline : (resumedItem env input current c
            (resumedLease env input current c oldLease expiresAt)).line.itemId = current.itemId :=
          line_itemId _
        rcases (Store.mem_append_item hne).mp hcurrent with rfl | ⟨-, hother⟩
        · obtain ⟨b, hb, rfl⟩ := mem_line_attemptList ha
          exact hleased b hb hrun
        · exact absurd (hsame.trans hline.symm) hother
      · exact absurd ⟨hstored.1, boundItemAttempts_serializable hstored.2⟩ hfail

theorem continueSuspendedPipelineWorkItem_attended {evidence : PipelineEvidence}
    {action : ContinuationAction} (input : ResumeSuspendedPipelineWorkItemInput)
    (h : Attended env.now s) :
    (continueSuspendedPipelineWorkItem env evidence action input).wp
      (fun _ => Attended env.now) (Attended env.now) s := by
  simp only [continueSuspendedPipelineWorkItem, assertWorkClaimsAllowed, Call.wp_bind,
    Call.wp_refuse, Call.wp_read]
  cases env.halt with
  | some halt => simpa only [Call.wp_fail] using h
  | none =>
      simp only [Call.wp_pure]
      refine ⟨fun _ => h, fun _ => ?_⟩
      cases hcur : s.currentWorkItem input.itemId with
      | none => simpa only [Call.wp_fail] using h
      | some current =>
          have hmem := Store.currentWorkItem_mem hcur
          simp only [Call.wp_bind, Call.wp_lift, Call.wp_refuse]
          refine ⟨fun c hc => ⟨fun _ => h, fun hnolease => ⟨fun _ => h, fun _ => ?_⟩⟩, fun _ _ => h⟩
          have hsuspended := prepareContinuation_ok hc
          have hidle : s.Idle env.now current.itemId :=
            Store.idle_of_none (by simpa using hnolease)
          cases hold : s.originalLease input current c.original with
          | none => simpa only [Call.wp_fail] using h
          | some oldLease =>
              obtain ⟨leaseId, -, hfound⟩ :=
                Option.bind_eq_some_iff.mp (Option.eq_some_of_filter_eq_some hold)
              have hne := (Store.mem_currentLeaseRecords.mp
                (Store.currentLeaseById_some hfound).1).1
              simp only [Call.wp_bind, Call.wp_ite, wp_appendLeaseSnapshot]
              refine ⟨fun _ => ?_, fun _ => ?_⟩
              · have hended := h.endLease
                  (r := { oldLease with status := .expired, releasedAt := some env.now }) hne
                  (by simp)
                refine continueTail_attended hended hmem hsuspended ?_
                refine Store.idle_endLease hne (by simp) fun lease hlease hsame hlive => ?_
                rw [hidle lease hlease hsame] at hlive
                cases hlive
              · exact continueTail_attended h hmem hsuspended hidle

end Kyberion.Work
