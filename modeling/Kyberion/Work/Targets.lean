import Kyberion.Work.Ownership
import Kyberion.Work.TargetOverlap
import Kyberion.Work.Versions

/-!
Exclusivity of targets. A claim looks for a holder of an overlapping target
before it takes one; quarantine, and the metadata of an item nobody owns yet,
take one without looking. Where those would have found none, no two items of a
tenant hold overlapping targets.
-/

namespace Kyberion.Work

open Approval (Host)

def WorkItem.tenant (item : WorkItem) : Option String :=
  item.context.bind (·.tenantSlug)

/-- The hold that a snapshot without recorded ownership stands for. -/
def adopted (host : Host) (x : WorkItem) : Option (String × WorkEffectOwnership) :=
  (legacyEffectOwnership host x.line).toOption.join.map fun hold => (x.itemId, hold)

section Takes

variable (env : Env) (s : Store)

def takenByCreation (input : CreateWorkItemInput) : Option (String × WorkEffectOwnership) :=
  (buildWorkItemCreation env input).toOption.bind (adopted env.host)

/-- What an update or a release makes of an item nobody owns. -/
def takenFrom (itemId : String) (next : WorkItem → WorkItem) :
    Option (String × WorkEffectOwnership) :=
  (s.currentWorkItem itemId).bind fun current =>
    match workEffectOwnership env.host current with
    | .ok none => adopted env.host (next current)
    | _ => none

def takenByUpdate (input : UpdateWorkItemInput) : Option (String × WorkEffectOwnership) :=
  takenFrom env s input.itemId fun current =>
    nextItemSnapshot env current (patchWorkItem env current input none)
      (s.currentLeaseForItem env.now current.itemId)
      (updateClearsLease input (input.status.getD current.status))

def takenByRelease (input : ReleaseWorkItemInput) : Option (String × WorkEffectOwnership) :=
  takenFrom env s input.itemId fun current => releasedItem env current input none

/-- What quarantine takes for an item that holds nothing. -/
def takenByQuarantine (input : QuarantineInput) : Option (String × WorkEffectOwnership) :=
  (s.currentWorkItem input.itemId).bind fun current =>
    match workEffectOwnership env.host current with
    | .ok owned =>
        if isHeld owned then none
        else (quarantineHold env current (current.currentAttemptId.getD "") input).toOption.map
          fun hold => (current.itemId, hold)
    | .error _ => none

/-- The item and the hold that an operation takes for it without looking for other holders. -/
def Operation.takes : Operation → Option (String × WorkEffectOwnership)
  | .create input => takenByCreation env input
  | .createIfAbsent input => takenByCreation env input
  | .importExternal input =>
      match s.importedItem input with
      | some existing => takenByUpdate env s (importedUpdate existing input)
      | none => takenByCreation env (importedCreation input)
  | .update input => takenByUpdate env s input
  | .release input => takenByRelease env s input
  | .handoff input => takenByRelease env s (handoffRelease input)
  | .quarantine input => takenByQuarantine env s input
  | _ => none

end Takes

def holdsTarget (host : Host) (item : WorkItem) (target : String) (tenant : Option String) : Bool :=
  match workEffectOwnership host item with
  | .ok (some hold) => hold.state = .held && hold.tenantSlug = tenant &&
      workTargetsOverlap target hold.target
  | _ => false

/-- What is taken without looking, a look would have found free. -/
def takesFree (s : CoordState) (a : Action) : Bool :=
  match a.operation.takes a.env s.store with
  | none => true
  | some (itemId, hold) => s.store.currentWorkItems.all fun other =>
      other.itemId = itemId || !holdsTarget a.env.host other hold.target hold.tenantSlug

/-- No two items of a tenant hold overlapping targets. -/
def TargetsExclusive (host : Host) (s : Store) : Prop :=
  ∀ item ∈ s.currentWorkItems, ∀ other ∈ s.currentWorkItems, item.itemId ≠ other.itemId →
    item.tenant = other.tenant → ∀ hold held, Holds host item hold → Holds host other held →
    workTargetsOverlap hold.target held.target = false

structure TargetInv (host : Host) (s : Store) : Prop where
  lines : ∀ item ∈ s.items, item.line = item
  tenants : ∀ item ∈ s.currentWorkItems, ∀ hold, Holds host item hold →
    hold.tenantSlug = item.tenant
  exclusive : TargetsExclusive host s

section Appends

variable {host : Host} {s : Store} {x : WorkItem}

theorem TargetInv.congr {t : Store} (h : TargetInv host s) (ht : t.items = s.items) :
    TargetInv host t := by
  have hcurrent : t.currentWorkItems = s.currentWorkItems := by
    rw [Store.currentWorkItems, ht, Store.currentWorkItems]
  refine ⟨ht ▸ h.lines, hcurrent ▸ h.tenants, ?_⟩
  unfold TargetsExclusive
  rw [hcurrent]
  exact h.exclusive

/-- A snapshot of the right tenant whose target is free keeps the targets exclusive. -/
theorem TargetInv.append (h : TargetInv host s) (hx : x.itemId ≠ "") (hline : x.line = x)
    (htenant : ∀ hold, Holds host x hold → hold.tenantSlug = x.tenant)
    (hfree : ∀ hold, Holds host x hold → ∀ other ∈ s.currentWorkItems, other.itemId ≠ x.itemId →
      ∀ held, Holds host other held → held.tenantSlug = hold.tenantSlug →
      workTargetsOverlap hold.target held.target = false) :
    TargetInv host { s with items := s.items ++ [x] } where
  lines item hmem := by
    rcases List.mem_append.mp hmem with hold | hnew
    · exact h.lines item hold
    · rw [List.mem_singleton.mp hnew, hline]
  tenants item hmem hold hheld := by
    rcases (Store.mem_append_item hx).mp hmem with rfl | ⟨hold', -⟩
    · exact htenant hold hheld
    · exact h.tenants item hold' hold hheld
  exclusive item hmem other hmem' hne hsame hold held hhold hheld := by
    rcases (Store.mem_append_item hx).mp hmem with rfl | ⟨hcur, hid⟩
    · rcases (Store.mem_append_item hx).mp hmem' with rfl | ⟨hmem', hid'⟩
      · exact absurd rfl hne
      · refine hfree hold hhold other hmem' hid' held hheld ?_
        rw [h.tenants other hmem' held hheld, htenant hold hhold, hsame]
    · rcases (Store.mem_append_item hx).mp hmem' with rfl | ⟨hcur', -⟩
      · rw [workTargetsOverlap_comm]
        refine hfree held hheld item hcur hid hold hhold ?_
        rw [h.tenants item hcur hold hhold, htenant held hheld, hsame]
      · exact h.exclusive item hcur other hcur' hne hsame hold held hhold hheld

end Appends

section Writes

variable {env : Env} {op : Operation} {start s : Store} {current x : WorkItem}
  {hold : WorkEffectOwnership}

theorem adopted_of_holds {host : Host} (hx : x.effectOwnership = none)
    (h : Holds host x.line hold) : adopted host x = some (x.itemId, hold) := by
  have howned := h.owned
  rw [workEffectOwnership_unrecorded (by rw [line_effectOwnership, hx])] at howned
  rw [adopted, howned]
  rfl

/-- Where the hold that a written snapshot is left with comes from. -/
inductive Origin (env : Env) (op : Operation) (start s : Store) (current : Option WorkItem)
    (x : WorkItem) (hold : WorkEffectOwnership) : Prop
  | kept {item : WorkItem} {old : WorkEffectOwnership} (of : current = some item)
      (holds : Holds env.host item old) (target : old.target = hold.target)
      (tenantSlug : old.tenantSlug = hold.tenantSlug) (tenant : x.tenant = item.tenant)
  | claimed (tenant : hold.tenantSlug = truthy x.tenant)
      (free : findHeldWorkTarget env.host s.currentWorkItems hold.target x.tenant = .ok none)
  | taken (tenant : hold.tenantSlug = truthy x.tenant) (same : s.items = start.items)
      (takes : op.takes env start = some (x.itemId, hold))

theorem legacy_tenant {host : Host} (hx : x.effectOwnership = none) (h : Holds host x.line hold) :
    hold.tenantSlug = truthy x.tenant := by
  have howned := h.owned
  rw [workEffectOwnership_unrecorded (by rw [line_effectOwnership, hx])] at howned
  rcases legacyEffectOwnership_ok howned with ⟨held, hheld, hadopts⟩ | ⟨hnone, -⟩
  · obtain rfl := Option.some.inj hheld
    rw [hadopts.tenant, line_context]
    rfl
  · cases hnone

/-- What is recorded is what is held, as long as it is. -/
theorem origin_recorded {item : WorkItem} {owned : WorkEffectOwnership}
    (hx : x.effectOwnership = some owned)
    (howned : workEffectOwnership env.host item = .ok (some owned))
    (htenant : Holds env.host item owned → x.tenant = item.tenant)
    (h : Holds env.host x.line hold) : Origin env op start s (some item) x hold := by
  obtain ⟨rfl, hheld, -⟩ := (holds_recorded (by rw [line_effectOwnership, hx])).mp h
  exact .kept rfl ⟨howned, hheld⟩ rfl rfl (htenant ⟨howned, hheld⟩)

theorem updated_tenant {input : UpdateWorkItemInput}
    (hallowed : assertUpdateAllowed env current input = .ok ())
    (hheld : Holds env.host current hold) :
    (input.context.or current.context).bind (·.tenantSlug) = current.tenant := by
  cases hcontext : input.context with
  | none => rfl
  | some context =>
      have hscope := assertUpdateAllowed_context hallowed hheld hcontext
      have htenant : context.tenantSlug = (current.context.getD {}).tenantSlug :=
        (List.cons.inj hscope).1
      show context.tenantSlug = current.context.bind (·.tenantSlug)
      rw [htenant]
      cases current.context <;> rfl

theorem Written.origin_created {input : CreateWorkItemInput} (first : s.items = start.items)
    (request : op.Creates start input) (build : buildWorkItemCreation env input = .ok x)
    (hheld : Holds env.host x.line hold) : Origin env op start s none x hold := by
  have hx : x.effectOwnership = none := by
    unfold buildWorkItemCreation at build
    simp only [Js.throwIf_eq_ok] at build
    rw [← Except.ok.inj build.2.2]
  have htaken : takenByCreation env input = some (x.itemId, hold) := by
    rw [takenByCreation, build]
    exact adopted_of_holds hx hheld
  refine .taken (legacy_tenant hx hheld) first ?_
  unfold Operation.Creates at request
  split at request
  · exact request ▸ htaken
  · exact request ▸ htaken
  · obtain ⟨hnone, rfl⟩ := request
    simp only [Operation.takes, hnone]
    exact htaken
  · exact request.elim

theorem takenFrom_some {itemId : String} (next : WorkItem → WorkItem)
    (first : s.items = start.items) (found : s.currentWorkItem itemId = some current)
    (unowned : workEffectOwnership env.host current = .ok none)
    (hx : (next current).effectOwnership = none)
    (hheld : Holds env.host (next current).line hold) :
    takenFrom env start itemId next = some ((next current).itemId, hold) := by
  rw [takenFrom, ← Store.currentWorkItem_congr first, found, Option.bind_some, unowned]
  exact adopted_of_holds hx hheld

theorem Written.origin_updated {input : UpdateWorkItemInput} {owned : Option WorkEffectOwnership}
    (first : s.items = start.items) (request : op.Updates start input)
    (found : s.currentWorkItem input.itemId = some current)
    (allowed : assertUpdateAllowed env current input = .ok ())
    (howned : workEffectOwnership env.host current = .ok owned)
    (hheld : Holds env.host (nextItemSnapshot env current (patchWorkItem env current input owned)
      (start.currentLeaseForItem env.now current.itemId)
      (updateClearsLease input (input.status.getD current.status))).line hold) :
    Origin env op start s (some current) (nextItemSnapshot env current
      (patchWorkItem env current input owned) (start.currentLeaseForItem env.now current.itemId)
      (updateClearsLease input (input.status.getD current.status))) hold := by
  cases owned with
  | some owned =>
      refine origin_recorded (by rw [updated_effectOwnership]; rfl) howned (fun hholds => ?_) hheld
      rw [WorkItem.tenant, updated_context]
      exact updated_tenant allowed hholds
  | none =>
      have hx := (updated_effectOwnership env current input none
        (start.currentLeaseForItem env.now current.itemId)
        (updateClearsLease input (input.status.getD current.status))).trans (unowned_ok howned).1
      refine .taken (legacy_tenant hx hheld) first ?_
      have htaken : takenByUpdate env start input = some (_, hold) :=
        takenFrom_some _ first found howned hx hheld
      unfold Operation.Updates at request
      split at request
      · exact request ▸ htaken
      · obtain ⟨existing, hexisting, rfl⟩ := request
        simp only [Operation.takes, hexisting]
        exact htaken
      · exact request.elim

theorem Written.origin_released {input : ReleaseWorkItemInput} {owned : Option WorkEffectOwnership}
    (first : s.items = start.items) (request : op.Releases input)
    (found : s.currentWorkItem input.itemId = some current)
    (settled : prepareEffectSettlement env.host current input env.now = .ok owned)
    (hheld : Holds env.host (releasedItem env current input owned).line hold) :
    Origin env op start s (some current) (releasedItem env current input owned) hold := by
  have htaken (howned : workEffectOwnership env.host current = .ok none) (hnone : owned = none) :
      Origin env op start s (some current) (releasedItem env current input owned) hold := by
    subst hnone
    have hx : (releasedItem env current input none).effectOwnership = none := rfl
    refine .taken (legacy_tenant hx hheld) first ?_
    have htaken : takenByRelease env start input = some (_, hold) :=
      takenFrom_some (fun current => releasedItem env current input none) first found howned hx hheld
    unfold Operation.Releases at request
    split at request
    · subst request
      exact htaken
    · subst request
      exact htaken
    · exact request.elim
  rcases prepareEffectSettlement_ok settled with ⟨-, howned⟩ | ⟨disposition, -, hsettled⟩
  · cases owned with
    | none => exact htaken howned rfl
    | some owned => exact origin_recorded rfl howned (fun _ => rfl) hheld
  · rcases settledWorkEffect_ok hsettled with ⟨howned, rfl⟩ | ⟨_, owned, -, rfl, hstate, -⟩
    · exact htaken howned rfl
    · have hrecorded := (holds_recorded (line_effectOwnership _)).mp hheld
      simp [hstate] at hrecorded

theorem Written.origin_claimed {input : ClaimWorkItemInput} {lease : WorkLease}
    {target : Option String}
    (claimable : assertEffectClaimable env.host current s.currentWorkItems = .ok target)
    (hheld : Holds env.host (claimedItem env current input lease target).line hold) :
    Origin env op start s (some current) (claimedItem env current input lease target) hold := by
  obtain ⟨hfree, hdeclared, hlooked⟩ := assertEffectClaimable_ok claimable
  cases hx : (claimedItem env current input lease target).effectOwnership with
  | none =>
      -- without a target, or without a dot, nothing is adopted either
      refine absurd hheld (not_holds_undotted hx ?_)
      show Undotted current.metadata
      cases target with
      | none => exact .inr (declaredWorkTarget_none hdeclared)
      | some declared =>
          refine .inl fun dot hdot => ?_
          simp [claimedItem, claimedEffectOwnership, hdot] at hx
  | some owned =>
      have hrecorded := (holds_recorded (by rw [line_effectOwnership, hx])).mp hheld
      obtain ⟨rfl, hstate, hwell⟩ := hrecorded
      simp only [claimedItem, claimedEffectOwnership] at hx
      split at hx
      · rename_i declared dot _
        obtain rfl := Option.some.inj hx
        exact .claimed rfl (hlooked declared rfl)
      · exact absurd ((holds_recorded hx).mpr ⟨rfl, hstate, hwell⟩) (hfree hold)

theorem Written.origin_quarantined {input : QuarantineInput} {attemptId : String}
    {held : WorkEffectOwnership} (first : s.items = start.items) (request : op = .quarantine input)
    (found : s.currentWorkItem input.itemId = some current)
    (attempt : current.currentAttemptId = some attemptId)
    (hquarantine : quarantineHold env current attemptId input = .ok held)
    (hheld : Holds env.host (quarantinedItem env current input held).line hold) :
    Origin env op start s (some current) (quarantinedItem env current input held) hold := by
  obtain ⟨rfl, -, -⟩ := (holds_recorded (line_effectOwnership _)).mp hheld
  rcases quarantineHold_ok hquarantine with hkept | ⟨⟨owned, howned, hfree⟩, htenant⟩
  · exact .kept rfl hkept rfl rfl rfl
  · refine .taken htenant first ?_
    subst request
    show takenByQuarantine env start input = _
    rw [takenByQuarantine, ← Store.currentWorkItem_congr first, found, Option.bind_some, howned]
    simp only [hfree, attempt, Option.getD_some, hquarantine]
    rfl

theorem Written.origin {item : Option WorkItem} (h : Written env op start s item x)
    (hline : ∀ current, item = some current → current.line = current)
    (hheld : Holds env.host x.line hold) : Origin env op start s item x hold := by
  cases h with
  | created first request build => exact Written.origin_created first request build hheld
  | updated first request found allowed owned =>
      exact Written.origin_updated first request found allowed owned hheld
  | claimed request found version claimable => exact Written.origin_claimed claimable hheld
  | released first request found version leased lease_eq holder_eq settled =>
      exact Written.origin_released first request found settled hheld
  | quarantined first request found attempt ne held =>
      exact Written.origin_quarantined first request found attempt held hheld
  | verified first request found unleased prepared itemId version effect =>
      obtain ⟨_, settled, _, -, hnext, hstate, -⟩ := prepareHumanEffectRelease_effect prepared
      have hrecorded := (holds_recorded (line_effectOwnership _ |>.trans (effect.trans hnext))).mp hheld
      simp [hstate] at hrecorded
  | replayed request listed found running evidence replay =>
      rcases replayedItem_ok replay running with ⟨_, settled, -, hx, hstate, -⟩ | ⟨-, hx, hundotted⟩
      · have hrecorded := (holds_recorded (line_effectOwnership _ |>.trans hx)).mp hheld
        simp [hstate] at hrecorded
      · exact absurd hheld (not_holds_undotted hx hundotted)
  | recovered request listed found running recovery =>
      obtain ⟨howner, hcontext⟩ := recoveredItem_ok recovery running
      rcases howner with ⟨owned, howned, hx⟩ | ⟨-, hx, hundotted⟩
      · exact origin_recorded hx howned (fun _ => by rw [WorkItem.tenant, hcontext, WorkItem.tenant]) hheld
      · exact absurd hheld (not_holds_undotted hx hundotted)
  | @reconciled options current attempt request listed found stopped considered orphan =>
      cases hrecorded : current.effectOwnership with
      | some owned =>
          have hx := line_effectOwnership (reconciledItem (options.now.getD env.now) current attempt)
            |>.trans hrecorded
          obtain ⟨rfl, hstate, hwell⟩ := (holds_recorded hx).mp hheld
          exact .kept rfl ((holds_recorded hrecorded).mpr ⟨rfl, hstate, hwell⟩) rfl rfl rfl
      | none =>
          obtain ⟨old, hold, htarget, htenant⟩ :=
            reconciledItem_adopts (hline current rfl) hrecorded hheld
          exact .kept rfl hold htarget htenant rfl
  | denied first request found prepared =>
      obtain ⟨-, hstate, -⟩ := (holds_recorded (line_effectOwnership _)).mp hheld
      cases hstate
  | resumed first request found prepared =>
      obtain ⟨-, howned, -, -⟩ := suspendedHold_ok (prepareContinuation_ok prepared)
      exact origin_recorded rfl howned (fun _ => rfl) hheld

theorem tenant_of_governed (h : isGovernedWorkItem x = true) : truthy x.tenant = x.tenant := by
  simp only [isGovernedWorkItem, Bool.and_eq_true] at h
  obtain ⟨context, hcontext, hgov⟩ := (Option.any_eq_true _ _).mp h.2
  rw [WorkItem.tenant, hcontext, Option.bind_some]
  cases htenant : context.tenantSlug with
  | none => rfl
  | some slug =>
      simp only [isGovernedContext, htenant, Option.all_some, Bool.and_eq_true] at hgov
      refine Option.filter_eq_some_iff.mpr ⟨rfl, ?_⟩
      suffices hne : slug ≠ "" by simpa using hne
      rintro rfl
      simp [isValidMemberId] at hgov

theorem holdsTarget_of_overlap {host : Host} {item : WorkItem} {held : WorkEffectOwnership}
    {target : String} {tenant : Option String} (h : Holds host item held)
    (htenant : held.tenantSlug = tenant) (hoverlap : workTargetsOverlap target held.target = true) :
    holdsTarget host item target tenant = true := by
  simp [holdsTarget, h.owned, h.held, htenant, hoverlap]

theorem Written.targets {a : Action} {clock : ℤ} {item : Option WorkItem}
    (h : TargetInv a.env.host s) (hx : Written a.env a.operation start s item x)
    (hgov : isGovernedWorkItem x = true) (hok : takesFree ⟨start, clock⟩ a = true) :
    TargetInv a.env.host { s with items := s.items ++ [x.line] } := by
  have hne := isGovernedWorkItem_itemId hgov
  have hcurrent {current : WorkItem} (heq : item = some current) :
      current ∈ s.currentWorkItems ∧ x.itemId = current.itemId ∧ current.line = current := by
    subst heq
    obtain ⟨hlast, hid, -⟩ := hx.succ
    exact ⟨Store.mem_current (hid ▸ hne) hlast, hid, h.lines current (mem_of_lastFor hlast).1⟩
  have horigin {hold : WorkEffectOwnership} (hheld : Holds a.env.host x.line hold) :=
    hx.origin (fun current heq => (hcurrent heq).2.2) hheld
  have htenant (hold : WorkEffectOwnership) (hheld : Holds a.env.host x.line hold) :
      hold.tenantSlug = x.line.tenant := by
    rw [WorkItem.tenant, line_context]
    cases horigin hheld with
    | kept of holds target tenantSlug tenant =>
        rw [← tenantSlug, h.tenants _ (hcurrent of).1 _ holds, ← tenant, WorkItem.tenant]
    | claimed tenant free => exact tenant.trans (tenant_of_governed hgov)
    | taken tenant same takes => exact tenant.trans (tenant_of_governed hgov)
  refine h.append (by rw [line_itemId]; exact hne) (line_line x) htenant ?_
  intro hold hheld other hmem hid held hother hsame
  rw [line_itemId] at hid
  have hslug := htenant hold hheld
  rw [WorkItem.tenant, line_context] at hslug
  cases horigin hheld with
  | kept of holds target tenantSlug tenant =>
      obtain ⟨hcur, heq, -⟩ := hcurrent of
      rw [← target]
      refine h.exclusive _ hcur other hmem (fun hsameId => hid (hsameId ▸ heq).symm) ?_ _ _ holds hother
      rw [← h.tenants other hmem held hother, hsame, ← tenantSlug, h.tenants _ hcur _ holds]
  | claimed tenant free =>
      exact findHeldWorkTarget_none free other hmem held hother (hsame.trans hslug)
  | taken tenant same takes =>
      simp only [takesFree, takes, List.all_eq_true, Bool.or_eq_true, decide_eq_true_eq,
        Bool.not_eq_true'] at hok
      have hstart : other ∈ start.currentWorkItems := by
        rw [Store.currentWorkItems, ← same]
        exact hmem
      by_contra hoverlap
      have hholds := holdsTarget_of_overlap hother hsame (Bool.not_eq_false _ ▸ hoverlap)
      rcases hok other hstart with heq | hfree
      · exact hid heq
      · rw [hholds] at hfree
        cases hfree

end Writes

section Runs

/-- In every state reached by operations that take only free targets, targets are exclusive. -/
theorem targets_exclusive {host : Host} {s : CoordState}
    (hs : coordination.Reach (fun s a => a.env.host = host ∧ takesFree s a = true) s) :
    TargetsExclusive host s.store := by
  suffices h : TargetInv host s.store from h.exclusive
  refine hs.invariant (I := fun s => TargetInv host s.store) (fun s hs => ?_)
    fun s a t h hok hstep => ?_
  · have hempty : s.store.currentWorkItems = [] := by
      rw [show s.store = .empty from hs]
      rfl
    refine ⟨?_, ?_, ?_⟩
    · rw [show s.store = .empty from hs]
      exact fun item hmem => absurd hmem List.not_mem_nil
    · rw [hempty]
      exact fun item hmem => absurd hmem List.not_mem_nil
    · unfold TargetsExclusive
      rw [hempty]
      exact fun item hmem => absurd hmem List.not_mem_nil
  · obtain ⟨-, rfl⟩ := Option.ite_some_none_eq_some.mp hstep
    obtain ⟨rfl, hok⟩ := hok
    exact operation_writes ⟨fun t r ht => ht.congr rfl,
      fun t item x ht hx hgov => hx.targets ht hgov hok⟩ h

/-- The id of the lease that a claim draws is told apart by its instant. -/
def drawingEnv (now : ℕ) : Env :=
  { openEnv now with
    uuids := fun _ => ⟨List.replicate (now + 1) 'a', by simp [isLower]⟩ }

def createTargeted (id : String) : Action where
  env := openEnv 0
  operation := .create
    { itemId := some id, title := "t", description := "d", sourceRef := some "r"
      context := { tenantSlug := some "acme" }
      metadata := some ⟨[("target", .str "repo:x")], true⟩ }

def claimAt (now : ℕ) (id : String) : Action where
  env := drawingEnv now
  operation := .claim { itemId := id, actorPeerId := "p", purpose := "x" }

def quarantineAction (id leaseId : String) : Action where
  env := openEnv 2
  operation := .quarantine
    { itemId := id, leaseId := leaseId, actorPeerId := "p", reason := "transport" }

/-- Two items of a tenant hold overlapping targets. -/
def targetHeldTwice (host : Host) (s : Store) : Bool :=
  s.currentWorkItems.any fun item => s.currentWorkItems.any fun other =>
    item.itemId ≠ other.itemId && item.tenant = other.tenant &&
      match workEffectOwnership host item with
      | .ok (some hold) => hold.state = .held && holdsTarget host other hold.target hold.tenantSlug
      | _ => false

theorem targets_exclusive_after_quarantine :
    ∃ s : CoordState, (s.store.currentWorkItems.map fun item => item.status) = [.blocked, .backlog] ∧
      TargetsExclusive (openEnv 0).host s.store := by
  obtain ⟨s, hs, hstatus⟩ := coordination.exists_reach_of_execOk_mem takesFree
    (Q := fun a => a.env.host = (openEnv 0).host) (s := ⟨.empty, 0⟩)
    [createTargeted "v", createTargeted "w", claimAt 1 "v", quarantineAction "v" "wlease-aa"]
    (fun s => (s.store.currentWorkItems.map fun item => item.status) = [.blocked, .backlog])
    (by simp [createTargeted, claimAt, drawingEnv, quarantineAction, openEnv]) rfl
    (by decide +kernel)
  exact ⟨s, hstatus, targets_exclusive hs⟩

/-- Quarantine of two running items with one target. -/
theorem target_held_twice :
    ¬ ∀ host s, coordination.Reach (fun _ a => a.env.host = host) s →
      TargetsExclusive host s.store := by
  intro h
  obtain ⟨s, hs, htwice⟩ := coordination.exists_reach_of_execOk_mem (fun _ _ => true)
    (Q := fun a => a.env.host = (openEnv 0).host) (s := ⟨.empty, 0⟩)
    [createTargeted "v", createTargeted "w", claimAt 1 "v", claimAt 2 "w",
      quarantineAction "v" "wlease-aa", quarantineAction "w" "wlease-aaa"]
    (fun s => targetHeldTwice (openEnv 0).host s.store = true)
    (by simp [createTargeted, claimAt, drawingEnv, quarantineAction, openEnv]) rfl
    (by decide +kernel)
  have hexclusive := h _ s (hs.mono fun _ _ hok => hok.1)
  obtain ⟨item, hitem, hother⟩ := List.any_eq_true.mp htwice
  obtain ⟨other, hmem, hheld⟩ := List.any_eq_true.mp hother
  simp only [Bool.and_eq_true, decide_eq_true_eq] at hheld
  obtain ⟨⟨hne, htenant⟩, hheld⟩ := hheld
  split at hheld
  · rename_i hold howned
    simp only [Bool.and_eq_true, decide_eq_true_eq, holdsTarget] at hheld
    obtain ⟨hstate, hheld⟩ := hheld
    split at hheld
    · rename_i held howned'
      simp only [Bool.and_eq_true, decide_eq_true_eq] at hheld
      have hfree := hexclusive item hitem other hmem hne htenant hold held ⟨howned, hstate⟩
        ⟨howned', hheld.1.1⟩
      rw [hfree] at hheld
      cases hheld.2
    · cases hheld
  · cases hheld

end Runs

end Kyberion.Work
