import Kyberion.Work.Agreement

/-!
Every operation keeps the logs in agreement, a claim only when its metadata can
be written and its lease id is new. From there the exclusivity of leases over
whole runs, and the run that strands a lease.
-/

namespace Kyberion.Work

open Js (isBlank trim)

section Snapshots

theorem boundItemAttempts_eq (x : WorkItem) :
    ∃ attempts, boundItemAttempts x = { x with attempts := attempts } := by
  unfold boundItemAttempts
  split
  · exact ⟨x.attempts, rfl⟩
  · split
    · exact ⟨x.attempts, rfl⟩
    · exact ⟨_, rfl⟩

theorem boundItemAttempts_governed (x : WorkItem) :
    isGovernedWorkItem (boundItemAttempts x) = isGovernedWorkItem x := by
  obtain ⟨attempts, h⟩ := boundItemAttempts_eq x
  rw [h]
  rfl

theorem boundItemAttempts_itemId (x : WorkItem) : (boundItemAttempts x).itemId = x.itemId := by
  obtain ⟨attempts, h⟩ := boundItemAttempts_eq x
  rw [h]

theorem boundItemAttempts_serializable {x : WorkItem} (h : x.serializable = true) :
    (boundItemAttempts x).serializable = true := by
  unfold boundItemAttempts
  split
  · exact h
  · rename_i attempts hattempts
    split
    · exact h
    · simp only [WorkItem.serializable, WorkItem.attemptList, hattempts, Option.getD_some,
        Bool.and_eq_true, List.all_eq_true] at h ⊢
      exact ⟨h.1, fun a ha => h.2 a (List.mem_of_mem_drop ha)⟩

theorem Agrees.written {x : WorkItem} {lease : WorkLease} (h : Agrees x lease) :
    Agrees (boundItemAttempts x).persisted lease := by
  obtain ⟨attempts, hx⟩ := boundItemAttempts_eq x
  rw [hx]
  exact ⟨h.leaseId, h.holder, h.open_⟩

/-- What a line reads back to can be written again. -/
theorem stored_persisted {x : WorkItem} (h : isGovernedWorkItem x = true) : Stored x.persisted := by
  refine ⟨h, ?_⟩
  simp only [WorkItem.serializable, WorkItem.persisted, WorkItem.attemptList, Bool.and_eq_true]
  constructor
  · cases x.metadata <;> rfl
  · cases x.attempts with
    | none => rfl
    | some attempts =>
        simp only [Option.map_some, Option.getD_some, List.all_eq_true, List.mem_map]
        rintro _ ⟨a, -, rfl⟩
        simp only [WorkItemAttempt.persisted]
        cases a.metadata <;> rfl

variable {s : Store} {now : ℤ} {x : WorkItem}

theorem wp_appendItemSnapshot {Q : WorkItem → Store → Prop} {E : Store → Prop} :
    (appendItemSnapshot x).wp Q E s ↔
      (isGovernedWorkItem x = true ∧ (boundItemAttempts x).serializable = true →
        Q (boundItemAttempts x) { s with items := s.items ++ [(boundItemAttempts x).persisted] }) ∧
      (¬ (isGovernedWorkItem x = true ∧ (boundItemAttempts x).serializable = true) → E s) := by
  simp only [appendItemSnapshot, validateWorkItem, boundItemAttempts_governed, Call.wp_bind,
    Call.wp_lift, Call.wp_refuse, Call.wp_write, Call.wp_pure, Js.throwIf]
  cases isGovernedWorkItem x <;> cases (boundItemAttempts x).serializable <;> simp

@[simp] theorem wp_appendLeaseSnapshot {lease : WorkLease} {Q : Unit → Store → Prop}
    {E : Store → Prop} :
    (appendLeaseSnapshot lease).wp Q E = fun s => Q () { s with leases := s.leases ++ [lease] } :=
  Call.wp_write _

theorem Inv.appendSnapshot (h : Inv now s)
    (hagree : ∀ lease ∈ s.currentLeaseRecords, lease.live now = true →
      lease.itemId = x.itemId → Agrees x lease) :
    (appendItemSnapshot x).wp (fun _ => Inv now) (Inv now) s := by
  refine wp_appendItemSnapshot.mpr ⟨fun hok => ?_, fun _ => h⟩
  refine h.appendItem (stored_persisted ((boundItemAttempts_governed x).trans hok.1)) ?_
  intro lease hmem hlive hitem
  exact (hagree lease hmem hlive (hitem.trans (boundItemAttempts_itemId x))).written

theorem Inv.appendIdle (h : Inv now s) (hidle : s.Idle now x.itemId) :
    (appendItemSnapshot x).wp (fun _ => Inv now) (Inv now) s := by
  refine h.appendSnapshot fun lease hmem hlive hitem => ?_
  rw [hidle lease hmem hitem] at hlive
  cases hlive

end Snapshots

section Operations

variable {env : Env} {s : Store}

theorem createWorkItemInternal_keeps (input : CreateWorkItemInput) (h : Inv env.now s) :
    (createWorkItemInternal env input).wp (fun _ => Inv env.now) (Inv env.now) s := by
  simp only [createWorkItemInternal, Call.wp_bind, Call.wp_refuse, Call.wp_lift, Call.wp_read,
    Call.wp_pure]
  refine ⟨fun item _ => ⟨fun _ => h, fun hnone => ?_⟩, fun _ _ => h⟩
  refine h.appendSnapshot fun lease hmem hlive hitem => ?_
  -- an item with a live lease would have been found
  obtain ⟨item', hlast, -⟩ := h.agree lease hmem hlive
  rw [← Store.currentWorkItem_of_id (h.ids lease (Store.mem_leases hmem)).2, hitem] at hlast
  simp [hlast] at hnone

theorem createWorkItem_keeps (input : CreateWorkItemInput) (h : Inv env.now s) :
    (createWorkItem env input).wp (fun _ => Inv env.now) (Inv env.now) s := by
  simp only [createWorkItem, assertWorkItemTenantRegistered, Call.wp_bind, Call.wp_refuse]
  exact ⟨fun _ => h, fun _ => createWorkItemInternal_keeps input h⟩

theorem createWorkItemIfAbsent_keeps (input : CreateWorkItemInput) (h : Inv env.now s) :
    (createWorkItemIfAbsent env input).wp (fun _ => Inv env.now) (Inv env.now) s := by
  simp only [createWorkItemIfAbsent, assertWorkItemTenantRegistered, Call.wp_bind,
    Call.wp_refuse, Call.wp_lift, Call.wp_read]
  refine ⟨fun _ => h, fun _ => ⟨fun _ => h, fun _ => ⟨fun candidate _ => ?_, fun _ _ => h⟩⟩⟩
  split
  · exact createWorkItemInternal_keeps input h
  · simp only [Call.wp_bind, Call.wp_lift, Call.wp_pure]
    exact ⟨fun _ _ => h, fun _ _ => h⟩

theorem patchWorkItem_itemId (env : Env) (current : WorkItem) (input : UpdateWorkItemInput)
    (hold : Option WorkEffectOwnership) :
    (patchWorkItem env current input hold).itemId = current.itemId := by
  unfold patchWorkItem
  dsimp only
  split <;> rfl

theorem patchWorkItem_status (env : Env) (current : WorkItem) (input : UpdateWorkItemInput)
    (hold : Option WorkEffectOwnership) :
    (patchWorkItem env current input hold).status = input.status.getD current.status := by
  unfold patchWorkItem
  dsimp only
  split <;> rfl

theorem nextItemSnapshot_itemId (current patched : WorkItem) (lease : Option WorkLease)
    (clear : Bool) : (nextItemSnapshot env current patched lease clear).itemId = patched.itemId := by
  unfold nextItemSnapshot
  dsimp only
  split
  · rfl
  · split <;> rfl

/-- The end of the live lease of an item, and any snapshot of the item. -/
theorem Inv.endAndAppend {now : ℤ} {lease : WorkLease} {x : WorkItem} (h : Inv now s)
    (hlease : s.currentLeaseForItem now x.itemId = some lease) (hx : Stored x) :
    Inv now ⟨s.items ++ [x], s.leases ++ [lease.released now]⟩ := by
  obtain ⟨hmem, hitem, hlive⟩ := Store.currentLeaseForItem_some hlease
  have hids := h.ids lease (Store.mem_leases hmem)
  have hended : (lease.released now).status ≠ .active := by simp [WorkLease.released]
  have hidle : Store.Idle { s with leases := s.leases ++ [lease.released now] } now x.itemId := by
    refine Store.idle_endLease hids.1.2 hended fun other hother hsame hlive' => ?_
    rw [h.exclusive hother hlive' hmem hlive (hsame.trans hitem.symm)]
    rfl
  refine (h.endLease (r := lease.released now) hids hended).appendItem hx ?_
  intro other hother hlive' hsame
  rw [hidle other hother hsame] at hlive'
  cases hlive'

theorem updateWorkItem_keeps (input : UpdateWorkItemInput) (h : Inv env.now s) :
    (updateWorkItem env input).wp (fun _ => Inv env.now) (Inv env.now) s := by
  simp only [updateWorkItem, Call.wp_bind, Call.wp_read]
  cases hcur : s.currentWorkItem input.itemId with
  | none => simpa only [Call.wp_fail] using h
  | some current =>
      obtain ⟨-, hlast⟩ := Store.currentWorkItem_some hcur
      simp only [Call.wp_bind, Call.wp_lift]
      refine ⟨fun _ _ => ⟨fun hold _ => ?_, fun _ _ => h⟩, fun _ _ => h⟩
      have hstatus := patchWorkItem_status env current input hold
      have hitem := patchWorkItem_itemId env current input hold
      generalize patchWorkItem env current input hold = patched at hstatus hitem
      cases hclear : updateClearsLease input (input.status.getD current.status) with
      | true =>
          cases hlease : s.currentLeaseForItem env.now current.itemId with
          | some lease =>
              simp only [wp_appendLeaseSnapshot, Call.wp_bind, Call.wp_pure]
              refine wp_appendItemSnapshot.mpr ⟨fun hok => ?_, fun _ => h⟩
              refine h.endAndAppend ?_ (stored_persisted ?_)
              · have hid : (boundItemAttempts
                    (nextItemSnapshot env current patched (some lease) true)).itemId =
                    current.itemId := by
                  rw [boundItemAttempts_itemId, nextItemSnapshot_itemId, hitem]
                rw [← hid] at hlease
                exact hlease
              · rw [boundItemAttempts_governed]
                exact hok.1
          | none =>
              simp only [Call.wp_pure]
              refine h.appendIdle ?_
              rw [nextItemSnapshot_itemId, hitem]
              exact Store.idle_of_none hlease
      | false =>
          simp only [Call.wp_pure]
          refine h.appendSnapshot fun lease hmem hlive hsame => ?_
          rw [nextItemSnapshot_itemId, hitem] at hsame
          cases hlease : s.currentLeaseForItem env.now current.itemId with
          | none =>
              rw [Store.idle_of_none hlease lease hmem hsame] at hlive
              cases hlive
          | some active =>
              obtain ⟨hmem', hsame', hlive'⟩ := Store.currentLeaseForItem_some hlease
              obtain rfl := h.exclusive hmem hlive hmem' hlive' (hsame.trans hsame'.symm)
              refine ⟨rfl, rfl, ?_⟩
              simp only [updateClearsLease, Bool.or_eq_false_iff] at hclear
              show isTerminalStatus patched.status = false
              rw [hstatus]
              exact hclear.1

theorem importExternalWorkItem_keeps (input : ImportExternalWorkItemInput) (h : Inv env.now s) :
    (importExternalWorkItem env input).wp (fun _ => Inv env.now) (Inv env.now) s := by
  simp only [importExternalWorkItem, assertWorkItemTenantRegistered, Call.wp_bind, Call.wp_read,
    Call.wp_ite, Call.wp_refuse]
  cases s.importedItem input with
  | some existing =>
      have hwrite : (updateWorkItem env (importedUpdate existing input)).wp
          (fun _ => Inv env.now) (Inv env.now) s := updateWorkItem_keeps _ h
      exact ⟨fun _ => ⟨fun _ => h, fun _ => hwrite⟩, fun _ => hwrite⟩
  | none =>
      have hwrite : (createWorkItemInternal env (importedCreation input)).wp
          (fun _ => Inv env.now) (Inv env.now) s := createWorkItemInternal_keeps _ h
      exact ⟨fun _ => ⟨fun _ => h, fun _ => hwrite⟩, fun _ => hwrite⟩

theorem releasedItem_itemId (current : WorkItem) (input : ReleaseWorkItemInput)
    (hold : Option WorkEffectOwnership) :
    (releasedItem env current input hold).itemId = current.itemId := rfl

theorem releaseWorkItem_keeps (input : ReleaseWorkItemInput) (h : Inv env.now s) :
    (releaseWorkItem env input).wp (fun _ => Inv env.now) (Inv env.now) s := by
  simp only [releaseWorkItem, Call.wp_bind, Call.wp_read]
  cases hcur : s.currentWorkItem input.itemId with
  | none => simpa only [Call.wp_fail] using h
  | some current =>
      simp only [Call.wp_bind, Call.wp_lift]
      refine ⟨fun _ _ => ?_, fun _ _ => h⟩
      cases hlease : s.currentLeaseForItem env.now current.itemId with
      | none => simpa only [Call.wp_fail] using h
      | some lease =>
          obtain ⟨hmem, -, -⟩ := Store.currentLeaseForItem_some hlease
          simp only [Call.wp_bind, Call.wp_refuse, Call.wp_lift, wp_appendLeaseSnapshot,
            Call.wp_pure]
          refine ⟨fun _ => h, fun _ => ⟨fun _ => h, fun _ => ⟨fun hold _ => ?_, fun _ _ => h⟩⟩⟩
          refine wp_appendItemSnapshot.mpr ⟨fun hok => ?_, fun _ => ?_⟩
          · refine h.endAndAppend ?_ (stored_persisted ?_)
            · have hid : (boundItemAttempts (releasedItem env current input hold)).itemId =
                  current.itemId := by
                rw [boundItemAttempts_itemId, releasedItem_itemId]
              rw [← hid] at hlease
              exact hlease
            · rw [boundItemAttempts_governed]
              exact hok.1
          · exact h.endLease (r := lease.released env.now) (h.ids lease (Store.mem_leases hmem))
              (by simp [WorkLease.released])

theorem quarantineWorkItemExecution_keeps (input : QuarantineInput) (h : Inv env.now s) :
    (quarantineWorkItemExecution env input).wp (fun _ => Inv env.now) (Inv env.now) s := by
  simp only [quarantineWorkItemExecution, Call.wp_bind, Call.wp_read]
  cases hcur : s.currentWorkItem input.itemId with
  | none => simpa only [Call.wp_fail] using h
  | some current =>
      cases s.currentLeaseById input.leaseId with
      | none => simpa only [Call.wp_fail] using h
      | some lease =>
          obtain ⟨-, hlast⟩ := Store.currentWorkItem_some hcur
          simp only [Call.wp_bind, Call.wp_refuse, Call.wp_lift]
          refine ⟨fun _ => h, fun _ => ⟨fun hold _ => ?_, fun _ _ => h⟩⟩
          refine h.appendSnapshot fun lease hmem hlive hsame => ?_
          have hagree := h.agrees hmem hlive hlast hsame
          exact ⟨hagree.leaseId, hagree.holder, rfl⟩

/-- A human release passes only on an item without a lease, and stays on it. -/
theorem prepareHumanEffectRelease_ok {host : Approval.Host} {separationEnabled : Bool}
    {approval : Option WorkEffectReleaseApproval} {item next : WorkItem}
    {input : EffectReleaseInput} {at_ : ℤ}
    (h : prepareHumanEffectRelease host separationEnabled approval (some item) input at_ =
      .ok next) : truthy item.leaseId = none ∧ next.itemId = item.itemId := by
  unfold prepareHumanEffectRelease at h
  obtain ⟨-, -, h⟩ := Js.except_bind_ok h
  obtain ⟨hold, -, h⟩ := Js.except_bind_ok h
  cases hold with
  | none => cases h
  | some hold =>
      obtain ⟨hchecks, h⟩ := Js.throwIf_eq_ok.mp h
      obtain ⟨approval', -, h⟩ := Js.except_bind_ok h
      obtain rfl := Except.ok.inj h
      simp only [not_or, Option.not_isSome_iff_eq_none] at hchecks
      exact ⟨hchecks.2.1, rfl⟩

theorem releaseWorkItemEffectOwnership_keeps (input : EffectReleaseInput) (h : Inv env.now s) :
    (releaseWorkItemEffectOwnership env input).wp (fun _ => Inv env.now) (Inv env.now) s := by
  simp only [releaseWorkItemEffectOwnership, Call.wp_bind, Call.wp_read]
  cases hcur : s.currentWorkItem input.itemId with
  | none =>
      simp only [Call.wp_bind, Call.wp_lift]
      exact ⟨fun next hnext => (nomatch hnext), fun _ _ => h⟩
  | some item =>
      obtain ⟨-, hlast⟩ := Store.currentWorkItem_some hcur
      cases hlapsed : s.lapsedLease env.now input (some item) with
      | none =>
          simp only [Call.wp_bind, Call.wp_lift]
          refine ⟨fun next hnext => ?_, fun _ _ => h⟩
          obtain ⟨hnone, hid⟩ := prepareHumanEffectRelease_ok hnext
          refine h.appendSnapshot fun lease hmem hlive hsame => ?_
          -- the item of a live lease names it
          have hagree := h.agrees hmem hlive hlast (hsame.trans hid)
          have hne := (h.ids lease (Store.mem_leases hmem)).1.2
          simp [truthy, hagree.leaseId, hne] at hnone
      | some lapsed =>
          simp only [Call.wp_bind, Call.wp_lift, wp_appendLeaseSnapshot]
          refine ⟨fun next hnext => ?_, fun _ _ => h⟩
          have hid := (prepareHumanEffectRelease_ok hnext).2
          obtain ⟨leaseId, hleaseId, hmem', heq⟩ : ∃ leaseId, item.leaseId = some leaseId ∧
              lapsed ∈ s.currentLeaseRecords ∧ lapsed.leaseId = trim leaseId := by
            unfold Store.lapsedLease at hlapsed
            simp only [Option.bind_some] at hlapsed
            split at hlapsed
            · cases hlapsed
            · rename_i leaseId hleaseId
              split at hlapsed
              · cases hlapsed
              · obtain ⟨hmem', heq⟩ := Store.currentLeaseById_some hlapsed
                exact ⟨leaseId, Option.eq_some_of_filter_eq_some hleaseId, hmem', heq⟩
          have hids := h.ids lapsed (Store.mem_leases hmem')
          refine Inv.appendIdle (h.endLease hids (by simp)) ?_
          refine Store.idle_endLease hids.1.2 (by simp) fun lease hmem hsame hlive => ?_
          have hagree := h.agrees hmem hlive hlast (hsame.trans hid)
          have hown := hagree.leaseId.symm.trans hleaseId
          rw [heq, ← Option.some.inj hown]
          exact (h.ids lease (Store.mem_leases hmem)).1.1.symm

theorem renewWorkItemLease_keeps (input : RenewWorkItemLeaseInput) (h : Inv env.now s) :
    (renewWorkItemLease env input).wp (fun _ => Inv env.now) (Inv env.now) s := by
  simp only [renewWorkItemLease, Call.wp_bind, Call.wp_read]
  cases hlease : s.currentLeaseById input.leaseId with
  | none => simpa only [Call.wp_fail] using h
  | some lease =>
      obtain ⟨hmem, -⟩ := Store.currentLeaseById_some hlease
      simp only [Call.wp_bind, Call.wp_refuse, Call.wp_lift, wp_appendLeaseSnapshot, Call.wp_pure]
      refine ⟨fun _ => h, fun hactive => ⟨fun _ => h, fun _ => ⟨fun _ => h, fun hlapsed => ?_⟩⟩⟩
      refine ⟨fun expiresAt _ => h.renewLease hmem ?_, fun _ _ => h⟩
      simp only [ne_eq, Decidable.not_not] at hactive
      simpa [WorkLease.live, hactive] using hlapsed

theorem expireWorkItemLeases_keeps {clock now : ℤ} (h : Inv clock s) :
    (expireWorkItemLeases now).wp (fun _ => Inv clock) (Inv clock) s := by
  simp only [expireWorkItemLeases, Call.wp_bind, Call.wp_read, Call.wp_pure]
  -- the records that end are ended copies of records of the log
  have hkeep : ∀ r ∈ (s.currentLeaseRecords.filter fun lease => lease.lapsed now).map
      (fun lease => { lease with status := WorkLeaseStatus.expired }),
      (IsId r.leaseId ∧ IsId r.itemId) ∧ r.status ≠ .active := by
    intro r hr
    obtain ⟨lease, hlease, rfl⟩ := List.mem_map.mp hr
    exact ⟨h.ids lease (Store.mem_leases (List.mem_filter.mp hlease).1), by simp⟩
  refine Call.wp_each (fun r hr t ht => ?_) h
  rw [wp_appendLeaseSnapshot]
  exact ht.endLease (hkeep r hr).1 (hkeep r hr).2

theorem replayedItem_itemId {at_ : ℤ} {item next : WorkItem}
    (h : replayedItem env at_ item = .ok next) : next.itemId = item.itemId := by
  unfold replayedItem at h
  obtain ⟨hold, -, h⟩ := Js.except_bind_ok h
  obtain rfl := Except.ok.inj h
  rfl

theorem recoveredItem_itemId {at_ : ℤ} {options : ReapWorkLeasesOptions} {item next : WorkItem}
    (h : recoveredItem env at_ options item = .ok next) : next.itemId = item.itemId := by
  unfold recoveredItem at h
  obtain ⟨hold, -, h⟩ := Js.except_bind_ok h
  obtain rfl := Except.ok.inj h
  rfl

theorem reapStranded_keeps {at_ : ℤ} {options : ReapWorkLeasesOptions} {item : WorkItem}
    (h : Inv env.now s) :
    (reapStranded env at_ options item).wp (fun _ => Inv env.now) (Inv env.now) s := by
  simp only [reapStranded, Call.wp_bind, Call.wp_read, Call.wp_ite, Call.wp_lift, Call.wp_pure]
  refine ⟨fun hif => ⟨fun next hnext => ?_, fun _ _ => h⟩, fun _ => h⟩
  have hid : next.itemId = item.itemId := by
    split at hnext
    · exact replayedItem_itemId hnext
    · exact recoveredItem_itemId hnext
  refine h.appendIdle ?_
  rw [hid]
  exact Store.idle_of_none hif.2.2

theorem reapOrphanedAttempt_keeps {at_ : ℤ} {options : ReapWorkLeasesOptions} {item : WorkItem}
    (h : Inv env.now s) :
    (reapOrphanedAttempt env at_ options item).wp (fun _ => Inv env.now) (Inv env.now) s := by
  simp only [reapOrphanedAttempt, Call.wp_bind, Call.wp_read]
  cases runningAttempt item with
  | none => simpa only [Call.wp_pure] using h
  | some running =>
      simp only [Call.wp_ite, Call.wp_bind, Call.wp_pure]
      exact ⟨fun hif => h.appendIdle (Store.idle_of_none hif.2.2.1), fun _ => h⟩

theorem reapExpiredWorkLeases_keeps (options : ReapWorkLeasesOptions) (h : Inv env.now s) :
    (reapExpiredWorkLeases env options).wp (fun _ => Inv env.now) (Inv env.now) s := by
  simp only [reapExpiredWorkLeases, Call.wp_bind]
  refine Call.wp_mono (fun _ t ht => ?_) (fun _ ht => ht) (expireWorkItemLeases_keeps h)
  simp only [Call.wp_read]
  refine Call.wp_mono (fun _ u hu => ?_) (fun _ hu => hu)
    (Call.wp_each (fun item _ v hv => reapStranded_keeps hv) ht)
  exact Call.wp_each (fun item _ v hv => reapOrphanedAttempt_keeps hv) hu

theorem Env.randomId_isId (env : Env) (name : String) (n : ℕ)
    (hname : name.toList.any Js.isWhiteSpace = false) : IsId (env.randomId name n) := by
  have hchars : ∀ c ∈ (env.uuids n).chars.take 8, Js.isWhiteSpace c = false := by
    intro c hc
    have hall := List.all_eq_true.mp (env.uuids n).wellFormed c (List.mem_of_mem_take hc)
    exact Js.idChar_notWhiteSpace hall
  constructor
  · refine Js.trim_ofList fun c hc => ?_
    rcases List.mem_append.mp hc with hc | hc
    · simpa using List.any_eq_false.mp hname c hc
    · rcases List.mem_cons.mp hc with rfl | hc
      · decide
      · exact hchars c hc
  · intro hempty
    have hlist := congrArg String.toList hempty
    simp [Env.randomId] at hlist

/-- The id that a claim draws for its lease is not in the log. -/
def freshLease (env : Env) (s : Store) : Bool :=
  s.leases.all fun lease => lease.leaseId ≠ env.randomId "wlease" 0

/-- A further record of a lease leaves a new id new. -/
theorem freshLease_append {lease r : WorkLease} (hfresh : freshLease env s = true)
    (hmem : lease ∈ s.leases) (hr : r.leaseId = lease.leaseId) :
    freshLease env { s with leases := s.leases ++ [r] } = true := by
  rw [freshLease, List.all_append, Bool.and_eq_true, List.all_cons, Bool.and_eq_true, hr]
  exact ⟨hfresh, List.all_eq_true.mp hfresh lease hmem, rfl⟩

theorem claimedItem_stored {current : WorkItem} {input : ClaimWorkItemInput} (env : Env)
    (lease : WorkLease) (target : Option String) (h : Stored current)
    (hmeta : input.metadata.all (·.serializable) = true) :
    Stored (claimedItem env current input lease target) := by
  obtain ⟨hgov, hser⟩ := h
  constructor
  · simp only [isGovernedWorkItem, claimedItem, Bool.and_eq_true, decide_eq_true_eq] at hgov ⊢
    exact ⟨⟨hgov.1.1, decide_eq_true (Nat.le_add_left 1 _)⟩, hgov.2⟩
  · simp only [WorkItem.serializable, Bool.and_eq_true] at hser ⊢
    refine ⟨hser.1, ?_⟩
    show ((current.attemptList ++ [createWorkItemAttempt env input lease.leaseId]).all _) = true
    rw [List.all_append, hser.2]
    simpa [createWorkItemAttempt] using hmeta

theorem claimWorkItem_keeps (input : ClaimWorkItemInput) (h : Inv env.now s)
    (hmeta : input.metadata.all (·.serializable) = true) (hfresh : freshLease env s = true) :
    (claimWorkItem env input).wp (fun _ => Inv env.now) (Inv env.now) s := by
  simp only [claimWorkItem, assertWorkClaimsAllowed, Call.wp_bind, Call.wp_refuse, Call.wp_read]
  cases env.halt with
  | some halt => simpa only [Call.wp_fail] using h
  | none =>
      simp only [Call.wp_pure]
      refine ⟨fun _ => h, fun _ => ?_⟩
      cases hcur : s.currentWorkItem input.itemId with
      | none => simpa only [Call.wp_fail] using h
      | some current =>
          obtain ⟨hid, hlast⟩ := Store.currentWorkItem_some hcur
          simp only [Call.wp_bind, Call.wp_lift]
          refine ⟨fun _ _ => ?_, fun _ _ => h⟩
          cases hlease : s.currentLeaseForItem env.now current.itemId with
          | some lease =>
              simp only [Call.wp_bind, Call.wp_refuse, Call.wp_pure]
              exact ⟨fun _ => h, fun _ => ⟨fun _ => h, fun _ => h⟩⟩
          | none =>
              simp only [Call.wp_bind, Call.wp_refuse, Call.wp_lift, wp_appendLeaseSnapshot,
                Call.wp_pure]
              refine ⟨fun _ => h, fun _ => ⟨fun target _ => ⟨fun expiresAt _ => ?_, fun _ _ => h⟩,
                fun _ _ => h⟩⟩
              have hstored := claimedItem_stored env (claimedLease env current input expiresAt) target
                (h.stored current (mem_of_lastFor hlast).1) hmeta
              refine wp_appendItemSnapshot.mpr ⟨fun _ => ?_, fun hfail => ?_⟩
              · refine h.grantLease ⟨env.randomId_isId "wlease" 0 (by decide), hid⟩
                  (Store.idle_of_none hlease) ?_ (stored_persisted ?_) ?_ ?_
                · intro lease hmem
                  exact of_decide_eq_true (List.all_eq_true.mp hfresh lease hmem)
                · rw [boundItemAttempts_governed]
                  exact hstored.1
                · exact boundItemAttempts_itemId _
                · exact Agrees.written ⟨rfl, rfl, rfl⟩
              · exact absurd ⟨hstored.1, boundItemAttempts_serializable hstored.2⟩ hfail

theorem releasedItem_serializable {current : WorkItem} {input : ReleaseWorkItemInput}
    {hold : Option WorkEffectOwnership} {metadata : Metadata}
    (hinput : input.metadata = some metadata)
    (h : (boundItemAttempts (releasedItem env current input hold)).serializable = true) :
    metadata.serializable = true := by
  obtain ⟨attempts, hbound⟩ := boundItemAttempts_eq (releasedItem env current input hold)
  have hmeta : (releasedItem env current input hold).metadata.all (·.serializable) = true := by
    rw [hbound] at h
    simp only [WorkItem.serializable, Bool.and_eq_true] at h
    exact h.1
  have hmerge {base : Option Metadata} {extra : Metadata}
      (hb : (Metadata.merge base extra).serializable = true) :
      base.all (·.serializable) = true ∧ extra.serializable = true := by
    cases base with
    | none => exact ⟨rfl, hb⟩
    | some base => simpa [Metadata.merge] using hb
  simp only [releasedItem, hinput, mergeMetadata] at hmeta
  split at hmeta
  · exact (hmerge (hmerge hmeta).1).2
  · exact (hmerge hmeta).2

/-- A release that returns has written its metadata, and drew no lease id. -/
theorem releaseWorkItem_returns (input : ReleaseWorkItemInput) {metadata : Metadata}
    (hinput : input.metadata = some metadata) (hfresh : freshLease env s = true) :
    (releaseWorkItem env input).wp
      (fun _ t => metadata.serializable = true ∧ freshLease env t = true) (fun _ => True) s := by
  simp only [releaseWorkItem, Call.wp_bind, Call.wp_read]
  cases s.currentWorkItem input.itemId with
  | none => simp only [Call.wp_fail]
  | some current =>
      simp only [Call.wp_bind, Call.wp_lift]
      refine ⟨fun _ _ => ?_, fun _ _ => trivial⟩
      cases hlease : s.currentLeaseForItem env.now current.itemId with
      | none => simp only [Call.wp_fail]
      | some lease =>
          have hmem := Store.mem_leases (Store.currentLeaseForItem_some hlease).1
          simp only [Call.wp_bind, Call.wp_refuse, Call.wp_lift, wp_appendLeaseSnapshot,
            Call.wp_pure]
          refine ⟨fun _ => trivial, fun _ => ⟨fun _ => trivial, fun _ =>
            ⟨fun hold _ => ?_, fun _ _ => trivial⟩⟩⟩
          refine wp_appendItemSnapshot.mpr ⟨fun hok => ⟨?_, ?_⟩, fun _ => trivial⟩
          · exact releasedItem_serializable hinput hok.2
          · exact freshLease_append (r := lease.released env.now) hfresh hmem rfl

theorem handoffWorkItem_keeps (input : HandoffWorkItemInput) (h : Inv env.now s)
    (hfresh : freshLease env s = true) :
    (handoffWorkItem env input).wp (fun _ => Inv env.now) (Inv env.now) s := by
  simp only [handoffWorkItem, Call.wp_bind, Call.wp_refuse]
  refine ⟨fun _ => h, fun _ => ?_⟩
  have hreleased := Call.wp_and (releaseWorkItem_keeps (handoffRelease input) h)
    (releaseWorkItem_returns (handoffRelease input) rfl hfresh)
  refine Call.wp_mono ?_ (fun _ ht => ht.1) hreleased
  rintro released t ⟨ht, hmeta, hfresh'⟩
  simp only [Call.wp_pure]
  exact claimWorkItem_keeps (handoffClaim input released.1.version) ht hmeta hfresh'

/-- An attempt that resumes is written again with what it already held. -/
theorem resumedItem_stored {current : WorkItem} {c : Continuation} (env : Env)
    (input : ResumeSuspendedPipelineWorkItemInput) (lease : WorkLease) (h : Stored current)
    (horiginal : c.original ∈ current.attemptList) :
    Stored (resumedItem env input current c lease) := by
  obtain ⟨hgov, hser⟩ := h
  constructor
  · simp only [isGovernedWorkItem, resumedItem, Bool.and_eq_true, decide_eq_true_eq] at hgov ⊢
    exact ⟨⟨hgov.1.1, decide_eq_true (Nat.le_add_left 1 _)⟩, hgov.2⟩
  · simp only [WorkItem.serializable, Bool.and_eq_true, List.all_eq_true] at hser ⊢
    refine ⟨hser.1, fun attempt hattempt => ?_⟩
    rcases List.mem_append.mp hattempt with hold | hnew
    · exact hser.2 attempt (List.dropLast_subset _ hold)
    · rw [List.mem_singleton.mp hnew]
      have horig := hser.2 c.original horiginal
      cases hm : c.original.metadata with
      | none => rfl
      | some m =>
          rw [hm] at horig
          simpa [Metadata.merge] using horig

theorem suspendedHold_ok {input : ResumeSuspendedPipelineWorkItemInput} {current : WorkItem}
    {original : WorkItemAttempt} {hold : WorkEffectOwnership}
    (h : suspendedHold env input current = .ok (original, hold)) :
    current.attemptList.getLast? = some original ∧
      workEffectOwnership env.host current = .ok (some hold) ∧ hold.state = .held ∧
      hold.attemptId = original.runId := by
  unfold suspendedHold at h
  obtain ⟨-, h⟩ := Js.throwIf_eq_ok.mp h
  split at h
  · cases h
  · rename_i attempt hattempt
    obtain ⟨-, h⟩ := Js.throwIf_eq_ok.mp h
    obtain ⟨held, hheld, h⟩ := Js.except_bind_ok h
    cases held with
    | none => cases h
    | some held =>
        obtain ⟨hchecks, h⟩ := Js.throwIf_eq_ok.mp h
        simp only [not_or, ne_eq, Decidable.not_not] at hchecks
        obtain ⟨rfl, rfl⟩ := Prod.mk.inj (Except.ok.inj h)
        exact ⟨hattempt, hheld, hchecks.1, hchecks.2.1⟩

theorem prepareContinuation_ok {evidence : PipelineEvidence} {action : ContinuationAction}
    {input : ResumeSuspendedPipelineWorkItemInput} {current : WorkItem} {c : Continuation}
    (h : prepareContinuation env evidence action input current = .ok c) :
    suspendedHold env input current = .ok (c.original, c.hold) := by
  unfold prepareContinuation at h
  obtain ⟨⟨original, hold⟩, hsuspended, h⟩ := Js.except_bind_ok h
  obtain ⟨-, h⟩ := Js.throwIf_eq_ok.mp h
  split at h
  · cases h
  obtain ⟨-, h⟩ := Js.throwIf_eq_ok.mp h
  split at h
  · cases h
  obtain ⟨-, h⟩ := Js.throwIf_eq_ok.mp h
  split at h
  · cases h
  obtain ⟨-, h⟩ := Js.throwIf_eq_ok.mp h
  obtain ⟨-, h⟩ := Js.throwIf_eq_ok.mp h
  obtain rfl := Except.ok.inj h
  exact hsuspended

/-- The last part of a continuation, on a store whose lease of the item has ended. -/
theorem continueTail_keeps {action : ContinuationAction}
    {input : ResumeSuspendedPipelineWorkItemInput} {current : WorkItem} {c : Continuation}
    {oldLease : WorkLease} (h : Inv env.now s) (hid : IsId current.itemId)
    (hlast : lastFor Store.itemKey current.itemId s.items = some current)
    (horiginal : c.original ∈ current.attemptList) (hidle : s.Idle env.now current.itemId)
    (hfresh : freshLease env s = true) :
    (match action with
      | .deny => appendItemSnapshot (deniedItem env input current c)
      | .resume => do
          let expiresAt ← Call.lift (printableInstant (env.now + continuationTtl input.ttlMs))
          appendLeaseSnapshot (resumedLease env input current c oldLease expiresAt)
          appendItemSnapshot (resumedItem env input current c
            (resumedLease env input current c oldLease expiresAt))).wp
      (fun _ => Inv env.now) (Inv env.now) s := by
  cases action with
  | deny => exact h.appendIdle hidle
  | resume =>
      simp only [Call.wp_bind, Call.wp_lift, wp_appendLeaseSnapshot]
      refine ⟨fun expiresAt _ => ?_, fun _ _ => h⟩
      have hstored := resumedItem_stored env input
        (resumedLease env input current c oldLease expiresAt)
        (h.stored current (mem_of_lastFor hlast).1) horiginal
      refine wp_appendItemSnapshot.mpr ⟨fun _ => ?_, fun hfail => ?_⟩
      · refine h.grantLease ⟨env.randomId_isId "wlease" 0 (by decide), hid⟩ hidle ?_
          (stored_persisted ?_) ?_ ?_
        · intro lease hmem
          exact of_decide_eq_true (List.all_eq_true.mp hfresh lease hmem)
        · rw [boundItemAttempts_governed]
          exact hstored.1
        · exact boundItemAttempts_itemId _
        · exact Agrees.written ⟨rfl, rfl, rfl⟩
      · exact absurd ⟨hstored.1, boundItemAttempts_serializable hstored.2⟩ hfail

theorem continueSuspendedPipelineWorkItem_keeps {evidence : PipelineEvidence}
    {action : ContinuationAction} (input : ResumeSuspendedPipelineWorkItemInput)
    (h : Inv env.now s) (hfresh : freshLease env s = true) :
    (continueSuspendedPipelineWorkItem env evidence action input).wp
      (fun _ => Inv env.now) (Inv env.now) s := by
  simp only [continueSuspendedPipelineWorkItem, assertWorkClaimsAllowed, Call.wp_bind,
    Call.wp_refuse, Call.wp_read]
  cases env.halt with
  | some halt => simpa only [Call.wp_fail] using h
  | none =>
      simp only [Call.wp_pure]
      refine ⟨fun _ => h, fun _ => ?_⟩
      cases hcur : s.currentWorkItem input.itemId with
      | none => simpa only [Call.wp_fail] using h
      | some current =>
          obtain ⟨hid, hlast⟩ := Store.currentWorkItem_some hcur
          simp only [Call.wp_bind, Call.wp_lift, Call.wp_refuse]
          refine ⟨fun c hc => ⟨fun _ => h, fun hnolease => ⟨fun _ => h, fun _ => ?_⟩⟩, fun _ _ => h⟩
          have horiginal := List.mem_of_getLast? (suspendedHold_ok (prepareContinuation_ok hc)).1
          have hidle : s.Idle env.now current.itemId :=
            Store.idle_of_none (by simpa using hnolease)
          cases hold : s.originalLease input current c.original with
          | none => simpa only [Call.wp_fail] using h
          | some oldLease =>
              obtain ⟨leaseId, -, hfound⟩ :=
                Option.bind_eq_some_iff.mp (Option.eq_some_of_filter_eq_some hold)
              obtain ⟨hmem, -⟩ := Store.currentLeaseById_some hfound
              have hids := h.ids oldLease (Store.mem_leases hmem)
              simp only [Call.wp_bind, Call.wp_ite, wp_appendLeaseSnapshot]
              refine ⟨fun _ => ?_, fun _ => ?_⟩
              · refine continueTail_keeps (h.endLease hids (by simp)) hid hlast horiginal ?_ ?_
                · refine Store.idle_endLease hids.1.2 (by simp) fun lease hmem hsame hlive => ?_
                  rw [hidle lease hmem hsame] at hlive
                  cases hlive
                · exact freshLease_append hfresh (Store.mem_leases hmem) rfl
              · exact continueTail_keeps h hid hlast horiginal hidle hfresh

/-- A claim's metadata can be written, and what draws a lease id draws a new one. -/
def claimsWell (s : CoordState) (a : Action) : Bool :=
  match a.operation with
  | .claim input => input.metadata.all (·.serializable) && freshLease a.env s.store
  | .handoff _ => freshLease a.env s.store
  | .continuePipeline .. => freshLease a.env s.store
  | _ => true

theorem operation_keeps {a : Action} (clock : ℤ) (h : Inv a.env.now s)
    (hok : claimsWell ⟨s, clock⟩ a = true) :
    (a.operation.call a.env).wp (fun _ => Inv a.env.now) (Inv a.env.now) s := by
  obtain ⟨env, operation⟩ := a
  change Inv env.now s at h
  show (operation.call env).wp (fun _ => Inv env.now) (Inv env.now) s
  cases operation with
  | create input =>
      rw [Operation.call, Call.wp_void]
      exact createWorkItem_keeps input h
  | update input =>
      rw [Operation.call, Call.wp_void]
      exact updateWorkItem_keeps input h
  | claim input =>
      simp only [claimsWell, Bool.and_eq_true] at hok
      rw [Operation.call, Call.wp_void]
      exact claimWorkItem_keeps input h hok.1 hok.2
  | release input =>
      rw [Operation.call, Call.wp_void]
      exact releaseWorkItem_keeps input h
  | quarantine input =>
      rw [Operation.call, Call.wp_void]
      exact quarantineWorkItemExecution_keeps input h
  | effectRelease input =>
      rw [Operation.call, Call.wp_void]
      exact releaseWorkItemEffectOwnership_keeps input h
  | renew input =>
      rw [Operation.call, Call.wp_void]
      exact renewWorkItemLease_keeps input h
  | expire now =>
      rw [Operation.call, Call.wp_void]
      exact expireWorkItemLeases_keeps h
  | reap options =>
      rw [Operation.call]
      exact reapExpiredWorkLeases_keeps options h
  | handoff input =>
      rw [Operation.call, Call.wp_void]
      exact handoffWorkItem_keeps input h hok
  | createIfAbsent input =>
      rw [Operation.call, Call.wp_void]
      exact createWorkItemIfAbsent_keeps input h
  | importExternal input =>
      rw [Operation.call, Call.wp_void]
      exact importExternalWorkItem_keeps input h
  | continuePipeline evidence action input =>
      rw [Operation.call, Call.wp_void]
      exact continueSuspendedPipelineWorkItem_keeps input h hok

end Operations

section Runs

theorem Inv.initial (now : ℤ) : Inv now .empty where
  stored _ h := nomatch h
  ids _ h := nomatch h
  agree _ h := nomatch h
  ended := List.Pairwise.nil

theorem inv_reach {s : CoordState} (hs : coordination.Reach (fun s a => claimsWell s a = true) s) :
    Inv s.clock s.store := by
  refine hs.invariant (I := fun s => Inv s.clock s.store) (fun s h => ?_) fun s a t h hok hstep => ?_
  · rw [show s.store = .empty from h]
    exact Inv.initial _
  · simp only [coordination] at hstep
    split at hstep
    · rename_i hclock
      obtain rfl := Option.some.inj hstep
      exact Call.wp_fst.mp (operation_keeps s.clock (h.advance hclock) hok)
    · cases hstep

/-- At most one live lease an item, carried by the item; what has ended stays ended. -/
structure LeasesExclusive (s : Store) (now : ℤ) : Prop where
  exclusive : ∀ lease ∈ s.currentLeaseRecords, ∀ lease' ∈ s.currentLeaseRecords,
    lease.live now = true → lease'.live now = true → lease.itemId = lease'.itemId → lease = lease'
  agreement : ∀ lease ∈ s.currentLeaseRecords, lease.live now = true →
    ∃ item, s.currentWorkItem lease.itemId = some item ∧ Agrees item lease
  final : EndedStay s.leases

/-- In every run whose claims can write their metadata and draw new lease ids. -/
theorem leases_exclusive {s : CoordState}
    (hs : coordination.Reach (fun s a => claimsWell s a = true) s) {now : ℤ} (hnow : s.clock ≤ now) :
    LeasesExclusive s.store now := by
  have h := (inv_reach hs).advance hnow
  refine ⟨fun lease hmem lease' hmem' hlive hlive' hitem => ?_, fun lease hmem hlive => ?_, h.ended⟩
  · exact h.exclusive hmem hlive hmem' hlive' hitem
  · rw [Store.currentWorkItem_of_id (h.ids lease (Store.mem_leases hmem)).2]
    exact h.agree lease hmem hlive

/-- Everything is allowed, and one id is drawn. -/
def openEnv (now : ℤ) : Env where
  now := now
  host := ⟨⟨id, id⟩, fun _ => none, fun _ => "", fun _ => ""⟩
  refusesActor := fun _ => false
  tenantRegistered := fun _ => true
  uuids := fun _ => ⟨"3f2a91c0".toList, by decide⟩
  loadApproval := fun _ => none
  separationEnabled := true

def createAction : Action where
  env := openEnv 0
  operation := .create
    { itemId := some "w", title := "t", description := "d", sourceRef := some "r" }

def claimAction (serializable : Bool) : Action where
  env := openEnv 1
  operation := .claim
    { itemId := "w", actorPeerId := "p", purpose := "x", metadata := some ⟨[], serializable⟩ }

/-- Some live lease has an item that does not carry it. -/
def strandedLease (s : CoordState) : Bool :=
  s.store.currentLeaseRecords.any fun lease => lease.live s.clock &&
    !(s.store.currentWorkItem lease.itemId).any fun item => item.leaseId = some lease.leaseId

theorem leases_exclusive_after_claim :
    ∃ s : CoordState, s.store.currentLeaseRecords.any (fun lease => lease.live s.clock) = true ∧
      LeasesExclusive s.store s.clock := by
  obtain ⟨s, hs, hlive⟩ := coordination.exists_reach_of_execOk claimsWell
    (s := ⟨.empty, 0⟩) [createAction, claimAction true]
    (fun s => s.store.currentLeaseRecords.any (fun lease => lease.live s.clock) = true) rfl
    (by decide +kernel)
  exact ⟨s, hlive, leases_exclusive hs (Int.le_refl _)⟩

/-- A claim whose metadata cannot be written leaves a live lease that no item carries. -/
theorem lease_without_item :
    ¬ ∀ s, coordination.Reachable s → ∀ now, s.clock ≤ now → LeasesExclusive s.store now := by
  intro h
  obtain ⟨s, hs, hstranded⟩ := Transition.System.exists_reachable_of_exec (S := coordination)
    (s := ⟨.empty, 0⟩) [createAction, claimAction false] (fun s => strandedLease s = true) rfl
    (by decide +kernel)
  obtain ⟨lease, hmem, hlease⟩ := List.any_eq_true.mp hstranded
  simp only [Bool.and_eq_true, Bool.not_eq_true'] at hlease
  obtain ⟨item, hitem, hagree⟩ := (h s hs s.clock (Int.le_refl _)).agreement lease hmem hlease.1
  simp [hitem, hagree.leaseId] at hlease

end Runs

end Kyberion.Work
