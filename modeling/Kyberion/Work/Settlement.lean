import Kyberion.Work.Ownership
import Kyberion.Work.Targets
import Kyberion.Work.Versions

/-!
A held effect stays with its attempt until there is proof that it is over: the
release of the attempt's own lease holder, an approval, completed evidence or a
denied continuation. The reaper closes an orphaned attempt without recording
the hold that the item's metadata stand for.
-/

namespace Kyberion.Work

open Approval (Host)

/-- The current snapshot of the item is held for the same attempt, tenant and target. -/
def StillHeld (host : Host) (s : Store) (itemId : String) (hold : WorkEffectOwnership) : Prop :=
  ∃ item ∈ s.currentWorkItems, item.itemId = itemId ∧ ∃ held, Holds host item held ∧
    held.attemptId = hold.attemptId ∧ held.tenantSlug = hold.tenantSlug ∧
    held.target = hold.target

/-- The operation carries proof that the held effect of the item is over. -/
inductive Proves (env : Env) (s : Store) (item : WorkItem) (hold : WorkEffectOwnership) :
    Operation → Prop
  | released {input : ReleaseWorkItemInput} {disposition : EffectDisposition} {lease : WorkLease}
      (named : s.currentWorkItem input.itemId = some item)
      (disposed : input.effectDisposition = some disposition)
      (leased : s.currentLeaseForItem env.now item.itemId = some lease)
      (lease_eq : lease.leaseId = input.leaseId)
      (holder_eq : lease.holderPeerId = input.actorPeerId)
      (attempt : item.currentAttemptId = some hold.attemptId) :
      Proves env s item hold (.release input)
  | approved {input : EffectReleaseInput} {unleased : WorkItem}
      {record : WorkEffectReleaseApproval} (named : s.currentWorkItem input.itemId = some item)
      (same : unleased = item ∨ unleased = { item with leaseId := none })
      (approval : assertWorkEffectReleaseApproval env.host env.separationEnabled
        (env.loadApproval input.approvalRequestId) unleased hold = .ok record) :
      Proves env s item hold (.effectRelease input)
  | completed {options : ReapWorkLeasesOptions} (evidence : options.completedEvidence item = true)
      (attempt : item.currentAttemptId = some hold.attemptId) :
      Proves env s item hold (.reap options)
  | denied {evidence : PipelineEvidence} {input : ResumeSuspendedPipelineWorkItemInput}
      {c : Continuation} (named : s.currentWorkItem input.itemId = some item)
      (prepared : prepareContinuation env evidence .deny input item = .ok c)
      (continued : c.hold = hold) : Proves env s item hold (.continuePipeline evidence .deny input)

/-- The operations that record the owner of the effects when they write a snapshot. -/
def Operation.records : Operation → Bool
  | .update _ | .importExternal _ | .release _ | .handoff _ | .quarantine _ | .reap _
  | .continuePipeline .. => true
  | _ => false

/-- What an operation makes of a hold that is only adopted does not lose it. -/
structure Recordable (env : Env) (item : WorkItem) (hold : WorkEffectOwnership) (op : Operation) :
    Prop where
  wellFormed : item.effectOwnership = none → op.records = true → hold.wellFormed = true
  reconciled : ∀ options running, op = .reap options → item.effectOwnership = none →
    item.status ≠ .inProgress → options.itemFilter item = true →
    runningAttempt item = some running → ∃ held,
      Holds env.host (reconciledItem (options.now.getD env.now) item running).line held ∧
        held.attemptId = hold.attemptId

section Writes

variable {env : Env} {op : Operation} {start s : Store} {item current x : WorkItem}
  {hold held : WorkEffectOwnership}

theorem Holds.unique {host : Host} (h : Holds host item hold) (h' : Holds host item held) :
    hold = held :=
  Option.some.inj (Except.ok.inj (h.owned.symm.trans h'.owned))

/-- Two current snapshots of one id are one. -/
theorem Store.current_item_unique {a b : WorkItem} (ha : a ∈ s.currentWorkItems)
    (hb : b ∈ s.currentWorkItems) (h : a.itemId = b.itemId) : a = b := by
  obtain ⟨k, hk, hlast⟩ := mem_latestById.mp (Store.mem_currentWorkItems.mp ha)
  obtain ⟨k', hk', hlast'⟩ := mem_latestById.mp (Store.mem_currentWorkItems.mp hb)
  rw [Store.itemKey, h, ← Store.itemKey, hk'] at hk
  rw [Option.some.inj hk, hlast] at hlast'
  exact Option.some.inj hlast'

theorem Store.mem_items (h : item ∈ s.currentWorkItems) : item ∈ s.items := by
  obtain ⟨k, -, hlast⟩ := mem_latestById.mp (Store.mem_currentWorkItems.mp h)
  exact (mem_of_lastFor hlast).1

theorem Operation.Updates.records {input : UpdateWorkItemInput} (h : op.Updates start input) :
    op.records = true := by
  unfold Operation.Updates at h
  split at h <;> first | rfl | exact h.elim

theorem Operation.Releases.records {input : ReleaseWorkItemInput} (h : op.Releases input) :
    op.records = true := by
  unfold Operation.Releases at h
  split at h <;> first | rfl | exact h.elim

/-- A well-formed hold that is recorded is held. -/
theorem holds_line (hheld : Holds env.host item hold) (hx : x.effectOwnership = some hold)
    (hwell : item.effectOwnership = none → hold.wellFormed = true) :
    Holds env.host x.line hold := by
  refine (holds_recorded (by rw [line_effectOwnership, hx])).mpr ⟨rfl, hheld.held, ?_⟩
  cases hrecorded : item.effectOwnership with
  | none => exact hwell hrecorded
  | some owned =>
      obtain ⟨rfl, -, hwell'⟩ := (holds_recorded hrecorded).mp hheld
      exact hwell'

/-- What is written for a held item records the hold, unless there is proof that it is over. -/
theorem Written.records_or_proves (h : Written env op start s (some item) x)
    (hitem : item ∈ start.currentWorkItems) (hheld : Holds env.host item hold) :
    x.effectOwnership = some hold ∧ op.records = true ∨ Proves env start item hold op ∨
      ∃ options running, op = .reap options ∧ options.itemFilter item = true ∧
        item.status ≠ .inProgress ∧ runningAttempt item = some running ∧
        x = reconciledItem (options.now.getD env.now) item running := by
  have hrecords {owned : Option WorkEffectOwnership}
      (howned : workEffectOwnership env.host item = .ok owned) : owned = some hold :=
    Except.ok.inj (howned.symm.trans hheld.owned)
  cases h with
  | updated first request found allowed owned =>
      refine .inl ⟨?_, request.records⟩
      rw [updated_effectOwnership, hrecords owned]
      rfl
  | claimed request found version claimable =>
      exact absurd hheld ((assertEffectClaimable_ok claimable).1 hold)
  | @released input _ owned lease first request found version leased lease_eq holder_eq settled =>
      rcases prepareEffectSettlement_ok settled with ⟨-, howned⟩ | ⟨disposition, hdisposed, hsettled⟩
      · exact .inl ⟨hrecords howned, request.records⟩
      · refine .inr (.inl ?_)
        have hattempt : item.currentAttemptId = some hold.attemptId := by
          rcases settledWorkEffect_ok hsettled with ⟨hnone, -⟩ | ⟨held, _, howned, -, -, hattempt⟩
          · cases hrecords hnone
          · obtain rfl := Option.some.inj (hrecords howned)
            exact (hattempt hheld.held).symm
        unfold Operation.Releases at request
        split at request
        · subst request
          exact .released ((Store.currentWorkItem_congr first _).symm.trans found) hdisposed leased
            lease_eq holder_eq hattempt
        · subst request
          cases hdisposed
        · exact request.elim
  | quarantined first request found attempt ne held =>
      subst request
      rcases quarantineHold_ok held with hkept | ⟨⟨owned, howned, hfree⟩, -⟩
      · exact .inl ⟨congrArg some (hkept.unique hheld), rfl⟩
      · obtain rfl := hrecords howned
        simp [isHeld, hheld.held] at hfree
  | verified first request found unleased prepared itemId version effect =>
      subst request
      have hnamed := (Store.currentWorkItem_congr first _).symm.trans found
      obtain ⟨owned, _, record, howned, -, -, happroval⟩ := prepareHumanEffectRelease_effect prepared
      -- ownership does not depend on the lease
      have hsame : owned = hold := by
        rcases unleased with rfl | rfl
        · exact howned.unique hheld
        · have hitem : Holds env.host item owned := ⟨howned.owned, howned.held⟩
          exact hitem.unique hheld
      rw [hsame] at happroval
      exact .inr (.inl (.approved hnamed unleased happroval))
  | replayed request listed found running evidence replay =>
      subst request
      rcases replayedItem_ok replay running with ⟨held, _, howned, -, -, hattempt⟩ | ⟨hnone, -⟩
      · obtain rfl := Option.some.inj (hrecords howned)
        exact .inr (.inl (.completed evidence (hattempt hheld.held).symm))
      · cases hrecords hnone
  | recovered request listed found running recovery =>
      subst request
      rcases (recoveredItem_ok recovery running).1 with ⟨owned, howned, hx⟩ | ⟨hnone, -⟩
      · exact .inl ⟨hx.trans (hrecords howned), rfl⟩
      · cases hrecords hnone
  | reconciled request listed found stopped considered orphan =>
      exact .inr (.inr ⟨_, _, request, considered, stopped, orphan, rfl⟩)
  | denied first request found prepared =>
      subst request
      obtain ⟨-, howned, -, -⟩ := suspendedHold_ok (prepareContinuation_ok prepared)
      exact .inr (.inl (.denied ((Store.currentWorkItem_congr first _).symm.trans found) prepared
        (Option.some.inj (hrecords howned))))
  | resumed first request found prepared =>
      subst request
      obtain ⟨-, howned, -, -⟩ := suspendedHold_ok (prepareContinuation_ok prepared)
      exact .inl ⟨hrecords howned, rfl⟩

theorem Written.listed (h : Written env op start s (some current) x)
    (hheld : Holds env.host current held) :
    current ∈ start.currentWorkItems ∨ ∃ options running, op = .reap options ∧
      Reaped env options start current ∧ current.status ≠ .inProgress ∧
      options.itemFilter current = true ∧ runningAttempt current = some running ∧
      x = reconciledItem (options.now.getD env.now) current running := by
  have hfirst {id : String} (first : s.items = start.items)
      (found : s.currentWorkItem id = some current) : current ∈ start.currentWorkItems := by
    obtain ⟨hid, hlast⟩ := Store.currentWorkItem_some found
    exact Store.mem_current hid.2 (first ▸ hlast)
  cases h with
  | updated first request found => exact .inl (hfirst first found)
  | claimed request found version claimable =>
      exact absurd hheld ((assertEffectClaimable_ok claimable).1 held)
  | released first request found => exact .inl (hfirst first found)
  | quarantined first request found => exact .inl (hfirst first found)
  | verified first request found => exact .inl (hfirst first found)
  | replayed request listed => exact .inl listed
  | recovered request listed => exact .inl listed
  | reconciled request listed found stopped considered orphan =>
      exact .inr ⟨_, _, request, listed, stopped, considered, orphan, rfl⟩
  | denied first request found => exact .inl (hfirst first found)
  | resumed first request found => exact .inl (hfirst first found)

/-- The hold is proved over, or the item's current snapshot has it still; the last part tells
what the reaper has closed already. -/
def Carries (env : Env) (op : Operation) (start : Store) (item : WorkItem)
    (hold : WorkEffectOwnership) (t : Store) : Prop :=
  Proves env start item hold op ∨ ∃ now ∈ t.currentWorkItems, now.itemId = item.itemId ∧
    (∃ held, Holds env.host now held ∧ held.attemptId = hold.attemptId ∧
      held.tenantSlug = hold.tenantSlug ∧ held.target = hold.target) ∧
    (now = item ∨ now.effectOwnership ≠ none ∨
      now ∉ start.currentWorkItems ∧ item.status ≠ .inProgress)

/-- What the reaper writes when it closes an orphaned attempt has the hold still. -/
theorem carries_reconciled {now : WorkItem} {options : ReapWorkLeasesOptions}
    {running : WorkItemAttempt} (hop : op = .reap options)
    (hitem : item ∈ start.currentWorkItems) (hline : item.line = item)
    (hheld : Holds env.host item hold) (hrec : Recordable env item hold op)
    (hlisted : Reaped env options start now) (hstopped : now.status ≠ .inProgress)
    (hfilter : options.itemFilter now = true) (horphan : runningAttempt now = some running)
    (hid : now.itemId = item.itemId)
    (hnow : ∃ held, Holds env.host now held ∧ held.attemptId = hold.attemptId ∧
      held.tenantSlug = hold.tenantSlug ∧ held.target = hold.target)
    (htail : now = item ∨ now.effectOwnership ≠ none ∨
      now ∉ start.currentWorkItems ∧ item.status ≠ .inProgress) :
    (∃ held, Holds env.host (reconciledItem (options.now.getD env.now) now running).line held ∧
      held.attemptId = hold.attemptId ∧ held.tenantSlug = hold.tenantSlug ∧
      held.target = hold.target) ∧
    ((reconciledItem (options.now.getD env.now) now running).line.effectOwnership ≠ none ∨
      (reconciledItem (options.now.getD env.now) now running).line ∉ start.currentWorkItems ∧
        item.status ≠ .inProgress) := by
  cases hrecorded : now.effectOwnership with
  | some owned =>
      obtain ⟨held, hholds, hsame⟩ := hnow
      have hx : (reconciledItem (options.now.getD env.now) now running).line.effectOwnership =
          some owned := (line_effectOwnership _).trans hrecorded
      obtain ⟨rfl, hstate, hwell⟩ := (holds_recorded hrecorded).mp hholds
      exact ⟨⟨held, (holds_recorded hx).mpr ⟨rfl, hstate, hwell⟩, hsame⟩, .inl (by simp [hx])⟩
  | none =>
      rcases htail with rfl | hsome | ⟨hnew, hstatus⟩
      · obtain ⟨held, hholds, hattempt⟩ :=
          hrec.reconciled options running hop hrecorded hstopped hfilter horphan
        obtain ⟨old, hold', htarget, htenant⟩ := reconciledItem_adopts hline hrecorded hholds
        obtain rfl := hold'.unique hheld
        refine ⟨⟨held, hholds, hattempt, htenant.symm, htarget.symm⟩,
          .inr ⟨fun hmem => ?_, hstopped⟩⟩
        have heq := Store.current_item_unique hmem hitem (line_itemId _)
        have hversion := (line_version _).symm.trans (congrArg WorkItem.version heq)
        exact absurd hversion (Nat.succ_ne_self _)
      · exact absurd hrecorded hsome
      · rcases hlisted with hstart | ⟨before, hbefore, after, hrunning, rfl, hafter⟩
        · exact absurd hstart hnew
        · -- the first loop leaves only items that were in progress
          have hids : after.itemId = before.itemId := by
            rcases hafter with h | h
            · exact replayedItem_itemId h
            · exact recoveredItem_itemId h
          have heq := Store.current_item_unique hbefore hitem
            (hids.symm.trans ((line_itemId after).symm.trans hid))
          exact absurd (heq ▸ hrunning) hstatus

/-- One write leaves the hold where it is, or is made with proof that it is over. -/
theorem Carries.write {a : Action} {clock : ℤ} {before : Option WorkItem}
    (h : Carries a.env a.operation start item hold s) (hitem : item ∈ start.currentWorkItems)
    (hline : item.line = item) (hheld : Holds a.env.host item hold)
    (hnew : createsNew ⟨start, clock⟩ a = true) (hrec : Recordable a.env item hold a.operation)
    (hx : Written a.env a.operation start s before x) (hgov : isGovernedWorkItem x = true) :
    Carries a.env a.operation start item hold { s with items := s.items ++ [x.line] } := by
  rcases h with hproof | ⟨now, hnow, hid, hsame, htail⟩
  · exact .inl hproof
  have hne : x.line.itemId ≠ "" := (line_itemId x).symm ▸ isGovernedWorkItem_itemId hgov
  have hother (hdiffers : now.itemId ≠ x.itemId) :
      Carries a.env a.operation start item hold { s with items := s.items ++ [x.line] } := by
    refine .inr ⟨now, (Store.mem_append_item hne).mpr (.inr ⟨hnow, ?_⟩), hid, hsame, htail⟩
    rwa [line_itemId]
  have hwrites (hxid : x.itemId = item.itemId)
      (hx : ∃ held, Holds a.env.host x.line held ∧ held.attemptId = hold.attemptId ∧
        held.tenantSlug = hold.tenantSlug ∧ held.target = hold.target)
      (hrecords : x.line.effectOwnership ≠ none ∨
        x.line ∉ start.currentWorkItems ∧ item.status ≠ .inProgress) :
      Carries a.env a.operation start item hold { s with items := s.items ++ [x.line] } :=
    .inr ⟨x.line, (Store.mem_append_item hne).mpr (.inl rfl), (line_itemId x).trans hxid, hx,
      .inr hrecords⟩
  cases before with
  | none =>
      refine hother fun heq => ?_
      exact (hx.absent hnew (isGovernedWorkItem_itemId hgov)).2 now (Store.mem_items hnow) heq
  | some current =>
      obtain ⟨hlast, hxid, -⟩ := hx.succ
      have hcurrent : current ∈ s.currentWorkItems :=
        Store.mem_current (hxid ▸ isGovernedWorkItem_itemId hgov) hlast
      by_cases heq : now.itemId = x.itemId
      swap
      · exact hother heq
      obtain rfl := Store.current_item_unique hnow hcurrent (heq.trans hxid)
      obtain ⟨held, hholds, hsameHold⟩ := hsame
      rcases hx.listed hholds with hstart | ⟨options, running, hop, hreaped, hstopped, hfilter,
        horphan, rfl⟩
      · obtain rfl := Store.current_item_unique hstart hitem hid
        rcases hx.records_or_proves hstart hheld with ⟨hrecorded, hrecords⟩ | hproof |
          ⟨options, running, hop, hfilter, hstopped, horphan, rfl⟩
        · refine hwrites hxid ⟨hold, ?_, rfl, rfl, rfl⟩ (.inl ?_)
          · exact holds_line hheld hrecorded fun hnone => hrec.wellFormed hnone hrecords
          · rw [line_effectOwnership, hrecorded]
            exact Option.some_ne_none hold
        · exact .inl hproof
        · obtain ⟨hkept, hrecords⟩ := carries_reconciled hop hitem hline hheld hrec (.inl hstart)
            hstopped hfilter horphan rfl ⟨held, hholds, hsameHold⟩ htail
          exact hwrites hxid hkept hrecords
      · obtain ⟨hkept, hrecords⟩ := carries_reconciled hop hitem hline hheld hrec hreaped
          hstopped hfilter horphan hid ⟨held, hholds, hsameHold⟩ htail
        exact hwrites (hxid.trans hid) hkept hrecords

end Writes

section Runs

/-- Every line of a reachable store is one that writing it again would leave as it is. -/
theorem lines_reach {s : CoordState} (hs : coordination.Reachable s) :
    ∀ item ∈ s.store.items, item.line = item := by
  refine hs.invariant (I := fun s => ∀ item ∈ s.store.items, item.line = item) (fun s hs => ?_)
    fun s a t h _ hstep => ?_
  · rw [show s.store = .empty from hs]
    exact fun item hmem => absurd hmem List.not_mem_nil
  · obtain ⟨-, rfl⟩ := Option.ite_some_none_eq_some.mp hstep
    refine operation_writes (P := fun t => ∀ item ∈ t.items, item.line = item)
      ⟨fun _ _ ht => ht, fun t _ x ht _ _ item hmem => ?_⟩ h
    rcases List.mem_append.mp hmem with hold | hlast
    · exact ht item hold
    · obtain rfl := List.mem_singleton.mp hlast
      exact line_line x

/-- The first current item whose effects are held, with its hold. -/
def Store.firstHeld (host : Host) (s : Store) : Option (WorkItem × WorkEffectOwnership) :=
  s.currentWorkItems.findSome? fun item =>
    match workEffectOwnership host item with
    | .ok (some hold) => if hold.state = .held then some (item, hold) else none
    | _ => none

/-- The attempt that holds the effects of the item now. -/
def Store.heldBy (host : Host) (s : Store) (itemId attemptId : String) : Bool :=
  s.currentWorkItems.any fun item => item.itemId = itemId &&
    match workEffectOwnership host item with
    | .ok (some hold) => hold.state = .held && hold.attemptId = attemptId
    | _ => false

theorem Store.firstHeld_some {host : Host} {s : Store} {item : WorkItem}
    {hold : WorkEffectOwnership} (h : s.firstHeld host = some (item, hold)) :
    item ∈ s.currentWorkItems ∧ Holds host item hold := by
  obtain ⟨a, hmem, ha⟩ := List.exists_of_findSome?_eq_some h
  split at ha
  · rename_i owned howned
    split at ha
    · rename_i hstate
      obtain ⟨rfl, rfl⟩ := Prod.mk.inj (Option.some.inj ha)
      exact ⟨hmem, howned, hstate⟩
    · cases ha
  · cases ha

theorem StillHeld.heldBy {host : Host} {s : Store} {itemId : String} {hold : WorkEffectOwnership}
    (h : StillHeld host s itemId hold) : s.heldBy host itemId hold.attemptId = true := by
  obtain ⟨item, hmem, hid, held, hholds, hattempt, -, -⟩ := h
  refine List.any_eq_true.mpr ⟨item, hmem, ?_⟩
  simp [hid, hholds.owned, hholds.held, hattempt]

def expireAction : Action where
  env := openEnv 3
  operation := .expire none

/-- A blocked item of before ownership was recorded; its first attempt still counts as running. -/
def createBlocked : Action where
  env := openEnv 0
  operation := .create
    { itemId := some "w", title := "t", description := "d", sourceRef := some "r"
      status := some .blocked, currentAttemptId := some "first"
      attempts := some [⟨"first", "first", .running, 0, none, none, none, none, none, none, none,
        none, none⟩, ⟨"second", "second", .released, 0, none, none, none, none, none, none, none,
        none, none⟩]
      metadata := some ⟨[("dot_id", .str "d"), ("target", .str "repo:x"), ("dot_executor",
        .obj [("status", .str "blocked"), ("completed_at", .str "z")])], true⟩ }

def reapAction : Action where
  env := openEnv 1
  operation := .reap {}

end Runs

end Kyberion.Work
