import Kyberion.Work.Exclusivity

/-!
What an operation can write to the item log: `Written` has one case for every
place in the source that appends a snapshot, with the snapshot it was computed
from and the checks that were passed. An invariant of the item log needs one
lemma about `Written`, and `operation_writes` carries it through every call.
-/

namespace Kyberion.Work

namespace Operation

/-- The creation that an operation may make, from the store it began at. -/
def Creates (start : Store) : Operation → CreateWorkItemInput → Prop
  | .create input, request => request = input
  | .createIfAbsent input, request => request = input
  | .importExternal input, request =>
      start.importedItem input = none ∧ request = importedCreation input
  | _, _ => False

def Updates (start : Store) : Operation → UpdateWorkItemInput → Prop
  | .update input, request => request = input
  | .importExternal input, request =>
      ∃ existing, start.importedItem input = some existing ∧ request = importedUpdate existing input
  | _, _ => False

def Releases : Operation → ReleaseWorkItemInput → Prop
  | .release input, request => request = input
  | .handoff input, request => request = handoffRelease input
  | _, _ => False

def Claims : Operation → ClaimWorkItemInput → Prop
  | .claim input, request => request = input
  | .handoff input, request => ∃ version, request = handoffClaim input version
  | _, _ => False

end Operation

/-- The line that an accepted snapshot becomes. -/
def WorkItem.line (x : WorkItem) : WorkItem :=
  (boundItemAttempts x).persisted

/-- The items that the second loop of the reaper finds: as they were, or as the first left them. -/
def Reaped (env : Env) (options : ReapWorkLeasesOptions) (start : Store) (item : WorkItem) : Prop :=
  item ∈ start.currentWorkItems ∨ ∃ before ∈ start.currentWorkItems, ∃ after,
    before.status = .inProgress ∧ item = after.line ∧
      (replayedItem env (options.now.getD env.now) before = .ok after ∨
        recoveredItem env (options.now.getD env.now) options before = .ok after)

/-- The snapshot `x` is appended to `s` by the operation, which began at `start`; `some current` is
what it replaces. -/
inductive Written (env : Env) (op : Operation) (start s : Store) :
    Option WorkItem → WorkItem → Prop
  | created {input : CreateWorkItemInput} {x : WorkItem} (first : s.items = start.items)
      (request : op.Creates start input)
      (build : buildWorkItemCreation env input = .ok x)
      (absent : s.currentWorkItem x.itemId = none)
      (unrecorded : op = .createIfAbsent input →
        ∀ item ∈ s.items, some item.itemId ≠ input.itemId) : Written env op start s none x
  | updated {input : UpdateWorkItemInput} {current : WorkItem}
      {hold : Option WorkEffectOwnership} (first : s.items = start.items)
      (request : op.Updates start input)
      (found : s.currentWorkItem input.itemId = some current)
      (allowed : assertUpdateAllowed env current input = .ok ())
      (owned : workEffectOwnership env.host current = .ok hold) :
      Written env op start s (some current)
        (nextItemSnapshot env current (patchWorkItem env current input hold)
          (start.currentLeaseForItem env.now current.itemId)
          (updateClearsLease input (input.status.getD current.status)))
  | claimed {input : ClaimWorkItemInput} {current : WorkItem} {lease : WorkLease}
      {target : Option String} (request : op.Claims input)
      (found : s.currentWorkItem input.itemId = some current)
      (version : assertVersion current input.expectedVersion = .ok ())
      (claimable : assertEffectClaimable env.host current s.currentWorkItems = .ok target) :
      Written env op start s (some current) (claimedItem env current input lease target)
  | released {input : ReleaseWorkItemInput} {current : WorkItem}
      {hold : Option WorkEffectOwnership} {lease : WorkLease} (first : s.items = start.items)
      (request : op.Releases input) (found : s.currentWorkItem input.itemId = some current)
      (version : assertVersion current input.expectedVersion = .ok ())
      (leased : start.currentLeaseForItem env.now current.itemId = some lease)
      (lease_eq : lease.leaseId = input.leaseId)
      (holder_eq : lease.holderPeerId = input.actorPeerId)
      (settled : prepareEffectSettlement env.host current input env.now = .ok hold) :
      Written env op start s (some current) (releasedItem env current input hold)
  | quarantined {input : QuarantineInput} {current : WorkItem} {attemptId : String}
      {hold : WorkEffectOwnership} (first : s.items = start.items)
      (request : op = .quarantine input)
      (found : s.currentWorkItem input.itemId = some current)
      (attempt : current.currentAttemptId = some attemptId) (attempt_ne : attemptId ≠ "")
      (held : quarantineHold env current attemptId input = .ok hold) :
      Written env op start s (some current) (quarantinedItem env current input hold)
  | verified {input : EffectReleaseInput} {current item next x : WorkItem}
      (first : s.items = start.items) (request : op = .effectRelease input)
      (found : s.currentWorkItem input.itemId = some current)
      (unleased : item = current ∨ item = { current with leaseId := none })
      (prepared : prepareHumanEffectRelease env.host env.separationEnabled
        (env.loadApproval input.approvalRequestId) (some item) input env.now = .ok next)
      (itemId : x.itemId = next.itemId) (version : x.version = next.version)
      (effect : x.effectOwnership = next.effectOwnership) : Written env op start s (some current) x
  | replayed {options : ReapWorkLeasesOptions} {current x : WorkItem}
      (request : op = .reap options) (listed : current ∈ start.currentWorkItems)
      (found : lastFor Store.itemKey current.itemId s.items = some current)
      (running : current.status = .inProgress) (evidence : options.completedEvidence current = true)
      (replay : replayedItem env (options.now.getD env.now) current = .ok x) :
      Written env op start s (some current) x
  | recovered {options : ReapWorkLeasesOptions} {current x : WorkItem}
      (request : op = .reap options) (listed : current ∈ start.currentWorkItems)
      (found : lastFor Store.itemKey current.itemId s.items = some current)
      (running : current.status = .inProgress)
      (recovery : recoveredItem env (options.now.getD env.now) options current = .ok x) :
      Written env op start s (some current) x
  | reconciled {options : ReapWorkLeasesOptions} {current : WorkItem} {attempt : WorkItemAttempt}
      (request : op = .reap options) (listed : Reaped env options start current)
      (found : lastFor Store.itemKey current.itemId s.items = some current)
      (stopped : current.status ≠ .inProgress) (considered : options.itemFilter current = true)
      (orphan : runningAttempt current = some attempt) :
      Written env op start s (some current)
        (reconciledItem (options.now.getD env.now) current attempt)
  | denied {evidence : PipelineEvidence} {input : ResumeSuspendedPipelineWorkItemInput}
      {current : WorkItem} {c : Continuation} (first : s.items = start.items)
      (request : op = .continuePipeline evidence .deny input)
      (found : s.currentWorkItem input.itemId = some current)
      (prepared : prepareContinuation env evidence .deny input current = .ok c) :
      Written env op start s (some current) (deniedItem env input current c)
  | resumed {evidence : PipelineEvidence} {input : ResumeSuspendedPipelineWorkItemInput}
      {current : WorkItem} {c : Continuation} {lease : WorkLease} (first : s.items = start.items)
      (request : op = .continuePipeline evidence .resume input)
      (found : s.currentWorkItem input.itemId = some current)
      (prepared : prepareContinuation env evidence .resume input current = .ok c) :
      Written env op start s (some current) (resumedItem env input current c lease)

/-- A property of the item log that the writes of an operation keep. -/
structure KeptByWrites (env : Env) (op : Operation) (start : Store) (P : Store → Prop) : Prop where
  lease : ∀ s r, P s → P { s with leases := s.leases ++ [r] }
  item : ∀ s current x, P s → Written env op start s current x → isGovernedWorkItem x = true →
    P { s with items := s.items ++ [x.line] }

section Calls

variable {env : Env} {op : Operation} {P : Store → Prop} {start s : Store}

theorem Store.currentWorkItem_congr {t : Store} (h : t.items = s.items) (id : String) :
    t.currentWorkItem id = s.currentWorkItem id := by
  rw [Store.currentWorkItem, Store.currentWorkItem, Store.currentWorkItems, h]
  rfl

theorem KeptByWrites.snapshot {x : WorkItem} {current : Option WorkItem}
    (h : KeptByWrites env op start P) (hs : P s) (hx : Written env op start s current x) :
    (appendItemSnapshot x).wp (fun _ => P) P s :=
  wp_appendItemSnapshot.mpr ⟨fun hok => h.item s current x hs hx hok.1, fun _ => hs⟩

theorem createWorkItemInternal_writes {input : CreateWorkItemInput}
    (h : KeptByWrites env op start P) (hop : op.Creates start input) (hs : P start)
    (hnew : op = .createIfAbsent input → ∀ item ∈ start.items, some item.itemId ≠ input.itemId) :
    (createWorkItemInternal env input).wp (fun _ => P) P start := by
  simp only [createWorkItemInternal, Call.wp_bind, Call.wp_refuse, Call.wp_lift, Call.wp_read,
    Call.wp_pure]
  refine ⟨fun item hitem => ⟨fun _ => hs, fun hnone => ?_⟩, fun _ _ => hs⟩
  exact h.snapshot hs (.created rfl hop hitem (by simpa using hnone) hnew)

theorem updateWorkItem_writes {input : UpdateWorkItemInput} (h : KeptByWrites env op start P)
    (hop : op.Updates start input) (hs : P start) :
    (updateWorkItem env input).wp (fun _ => P) P start := by
  simp only [updateWorkItem, Call.wp_bind, Call.wp_read]
  cases hcur : start.currentWorkItem input.itemId with
  | none => simpa only [Call.wp_fail] using hs
  | some current =>
      simp only [Call.wp_bind, Call.wp_lift]
      refine ⟨fun _ hallowed => ⟨fun hold howned => ?_, fun _ _ => hs⟩, fun _ _ => hs⟩
      refine Call.wp_mono (fun next t ht => ?_) (fun _ ht => ht)
        (h.snapshot hs (.updated rfl hop hcur hallowed howned))
      split
      · simp only [Call.wp_bind, wp_appendLeaseSnapshot, Call.wp_pure]
        exact h.lease _ _ ht
      · simpa only [Call.wp_pure] using ht

theorem claimWorkItem_writes (input : ClaimWorkItemInput) (h : KeptByWrites env op start P)
    (hop : op.Claims input) (hs : P s) :
    (claimWorkItem env input).wp (fun _ => P) P s := by
  simp only [claimWorkItem, assertWorkClaimsAllowed, Call.wp_bind, Call.wp_refuse, Call.wp_read]
  cases env.halt with
  | some halt => simpa only [Call.wp_fail] using hs
  | none =>
      simp only [Call.wp_pure]
      refine ⟨fun _ => hs, fun _ => ?_⟩
      cases hcur : s.currentWorkItem input.itemId with
      | none => simpa only [Call.wp_fail] using hs
      | some current =>
          simp only [Call.wp_bind, Call.wp_lift]
          refine ⟨fun _ hversion => ?_, fun _ _ => hs⟩
          cases s.currentLeaseForItem env.now current.itemId with
          | some lease =>
              simp only [Call.wp_bind, Call.wp_refuse, Call.wp_pure]
              exact ⟨fun _ => hs, fun _ => ⟨fun _ => hs, fun _ => hs⟩⟩
          | none =>
              simp only [Call.wp_bind, Call.wp_refuse, Call.wp_lift, wp_appendLeaseSnapshot,
                Call.wp_pure]
              refine ⟨fun _ => hs, fun _ => ⟨fun target htarget => ⟨fun expiresAt _ => ?_,
                fun _ _ => hs⟩, fun _ _ => hs⟩⟩
              exact h.snapshot (h.lease _ _ hs) (.claimed hop hcur hversion htarget)

theorem releaseWorkItem_writes (input : ReleaseWorkItemInput) (h : KeptByWrites env op start P)
    (hop : op.Releases input) (hs : P start) :
    (releaseWorkItem env input).wp (fun _ => P) P start := by
  simp only [releaseWorkItem, Call.wp_bind, Call.wp_read]
  cases hcur : start.currentWorkItem input.itemId with
  | none => simpa only [Call.wp_fail] using hs
  | some current =>
      simp only [Call.wp_bind, Call.wp_lift]
      refine ⟨fun _ hversion => ?_, fun _ _ => hs⟩
      cases hlease : start.currentLeaseForItem env.now current.itemId with
      | none => simpa only [Call.wp_fail] using hs
      | some lease =>
          simp only [Call.wp_bind, Call.wp_refuse, Call.wp_lift, wp_appendLeaseSnapshot,
            Call.wp_pure]
          refine ⟨fun _ => hs, fun hid => ⟨fun _ => hs, fun hholder =>
            ⟨fun hold hhold => ?_, fun _ _ => hs⟩⟩⟩
          exact h.snapshot (h.lease _ _ hs) (.released rfl hop hcur hversion hlease
            (not_not.mp hid) (not_not.mp hholder) hhold)

theorem quarantineWorkItemExecution_writes {input : QuarantineInput}
    (h : KeptByWrites env op start P) (hop : op = .quarantine input) (hs : P start) :
    (quarantineWorkItemExecution env input).wp (fun _ => P) P start := by
  simp only [quarantineWorkItemExecution, Call.wp_bind, Call.wp_read]
  cases hcur : start.currentWorkItem input.itemId with
  | none => simpa only [Call.wp_fail] using hs
  | some current =>
      cases start.currentLeaseById input.leaseId with
      | none => simpa only [Call.wp_fail] using hs
      | some lease =>
          simp only [Call.wp_bind, Call.wp_refuse, Call.wp_lift]
          refine ⟨fun _ => hs, fun hchecks => ⟨fun hold hhold => ?_, fun _ _ => hs⟩⟩
          obtain ⟨attemptId, hattempt⟩ : ∃ a, truthy current.currentAttemptId = some a := by
            simp only [not_or, ← ne_eq] at hchecks
            exact Option.ne_none_iff_exists'.mp hchecks.2.2.2.2
          obtain ⟨hsome, hne⟩ := Option.filter_eq_some_iff.mp hattempt
          rw [hsome] at hhold
          exact h.snapshot hs (.quarantined rfl hop hcur hsome (by simpa using hne) hhold)

theorem releaseWorkItemEffectOwnership_writes {input : EffectReleaseInput}
    (h : KeptByWrites env op start P) (hop : op = .effectRelease input) (hs : P start) :
    (releaseWorkItemEffectOwnership env input).wp (fun _ => P) P start := by
  simp only [releaseWorkItemEffectOwnership, Call.wp_bind, Call.wp_read]
  cases hcur : start.currentWorkItem input.itemId with
  | none =>
      simp only [Call.wp_bind, Call.wp_lift]
      exact ⟨by rintro next ⟨⟩, fun _ _ => hs⟩
  | some item =>
      cases start.lapsedLease env.now input (some item) with
      | none =>
          simp only [Call.wp_bind, Call.wp_lift]
          refine ⟨fun next hnext => ?_, fun _ _ => hs⟩
          exact h.snapshot hs (.verified rfl hop hcur (.inl rfl) hnext rfl rfl rfl)
      | some lapsed =>
          simp only [Call.wp_bind, Call.wp_lift, wp_appendLeaseSnapshot]
          refine ⟨fun next hnext => ?_, fun _ _ => hs⟩
          exact h.snapshot (h.lease _ _ hs) (.verified rfl hop hcur (.inr rfl) hnext rfl rfl rfl)

theorem expireWorkItemLeases_writes {now : ℤ} (h : KeptByWrites env op start P) (hs : P s) :
    (expireWorkItemLeases now).wp (fun _ t => P t ∧ t.items = s.items)
      (fun t => P t ∧ t.items = s.items) s := by
  simp only [expireWorkItemLeases, Call.wp_bind, Call.wp_read, Call.wp_pure]
  refine Call.wp_each (I := fun t => P t ∧ t.items = s.items) (fun r _ t ht => ?_) ⟨hs, rfl⟩
  rw [wp_appendLeaseSnapshot]
  exact ⟨h.lease _ _ ht.1, ht.2⟩

theorem Store.mem_current {item : WorkItem} (hid : item.itemId ≠ "")
    (h : lastFor Store.itemKey item.itemId s.items = some item) : item ∈ s.currentWorkItems :=
  Store.mem_currentWorkItems.mpr
    (mem_latestById.mpr ⟨item.itemId, (Store.itemKey_eq hid).mpr rfl, h⟩)

/-- The items still to be visited by a loop of the reaper are current, each once. -/
structure Visiting (P : Store → Prop) (L : WorkItem → Prop) (rest : List WorkItem) (s : Store) :
    Prop where
  kept : P s
  current : ∀ item ∈ rest, item.itemId ≠ "" ∧
    lastFor Store.itemKey item.itemId s.items = some item
  distinct : rest.Pairwise fun a b => a.itemId ≠ b.itemId
  listed : ∀ item ∈ rest, L item

section Loops

variable {L : WorkItem → Prop} {item : WorkItem} {rest : List WorkItem}

theorem Visiting.all (hs : P s) (hL : ∀ item ∈ s.currentWorkItems, L item) :
    Visiting P L s.currentWorkItems s := by
  have hkey {item : WorkItem} (hmem : item ∈ s.currentWorkItems) :
      item.itemId ≠ "" ∧ lastFor Store.itemKey item.itemId s.items = some item := by
    obtain ⟨k, hk, hlast⟩ := mem_latestById.mp (Store.mem_currentWorkItems.mp hmem)
    unfold Store.itemKey at hk
    split at hk
    · cases hk
    · rename_i hne
      obtain rfl := Option.some.inj hk
      exact ⟨hne, hlast⟩
  refine ⟨hs, fun item hmem => hkey hmem, ?_, hL⟩
  have hpairs : s.currentWorkItems.Pairwise fun a b => Store.itemKey a ≠ Store.itemKey b :=
    (List.perm_insertionSort _ _).symm.pairwise (latestById_pairwise Store.itemKey s.items)
      fun {a b} hab => hab.symm
  refine hpairs.imp_of_mem fun {a b} ha hb hab heq => hab ?_
  rw [(Store.itemKey_eq (hkey hb).1).mpr heq, (Store.itemKey_eq (hkey hb).1).mpr rfl]

theorem Visiting.skip (h : Visiting P L (item :: rest) s) : Visiting P L rest s where
  kept := h.kept
  current a ha := h.current a (List.mem_cons_of_mem item ha)
  distinct := (List.pairwise_cons.mp h.distinct).2
  listed a ha := h.listed a (List.mem_cons_of_mem item ha)

/-- A snapshot of the visited item leaves the items still to be visited current. -/
theorem Visiting.write {x : WorkItem} (hv : Visiting P L (item :: rest) s)
    (hid : x.itemId = item.itemId)
    (hx : isGovernedWorkItem x = true → P { s with items := s.items ++ [x.line] }) :
    (appendItemSnapshot x).wp (fun _ => Visiting P L rest) P s := by
  refine wp_appendItemSnapshot.mpr ⟨fun hok => ?_, fun _ => hv.kept⟩
  have hdistinct := (List.pairwise_cons.mp hv.distinct).1
  refine ⟨hx hok.1, fun a ha => ?_, hv.skip.distinct, hv.skip.listed⟩
  obtain ⟨hne, hlast⟩ := hv.skip.current a ha
  refine ⟨hne, ?_⟩
  have hother : (boundItemAttempts x).persisted.itemId ≠ a.itemId := by
    show (boundItemAttempts x).itemId ≠ a.itemId
    rw [boundItemAttempts_itemId, hid]
    exact hdistinct a ha
  rw [lastFor_concat, if_neg, hlast]
  rw [Store.itemKey_eq hne]
  exact hother

theorem Store.mem_append_item {x : WorkItem} (hx : x.itemId ≠ "") :
    item ∈ Store.currentWorkItems { s with items := s.items ++ [x] } ↔
      item = x ∨ item ∈ s.currentWorkItems ∧ item.itemId ≠ x.itemId := by
  rw [Store.mem_currentWorkItems, latestById_concat,
    mem_latestStep ((Store.itemKey_eq hx).mpr rfl), Store.mem_currentWorkItems]
  simp only [ne_eq, Store.itemKey_eq hx]

/-- During the first loop every current item is as it was, or as the loop left it. -/
def FirstLoop (env : Env) (options : ReapWorkLeasesOptions) (start : Store) (P : Store → Prop)
    (t : Store) : Prop :=
  P t ∧ ∀ item ∈ t.currentWorkItems, Reaped env options start item

theorem reapStranded_writes {options : ReapWorkLeasesOptions} (h : KeptByWrites env op start P)
    (hop : op = .reap options)
    (hv : Visiting (FirstLoop env options start P) (· ∈ start.currentWorkItems) (item :: rest) s) :
    (reapStranded env (options.now.getD env.now) options item).wp
      (fun _ => Visiting (FirstLoop env options start P) (· ∈ start.currentWorkItems) rest)
      (FirstLoop env options start P) s := by
  obtain ⟨hne, hlast⟩ := hv.current item List.mem_cons_self
  have hlisted := hv.listed item List.mem_cons_self
  have hwrite {next : WorkItem} (hid : next.itemId = item.itemId)
      (hx : Written env op start s (some item) next) (hreaped : Reaped env options start next.line) :
      (appendItemSnapshot next).wp
        (fun _ => Visiting (FirstLoop env options start P) (· ∈ start.currentWorkItems) rest)
        (FirstLoop env options start P) s := by
    refine hv.write hid fun hgov => ⟨h.item s _ next hv.kept.1 hx hgov, fun other hother => ?_⟩
    have hline : next.line.itemId ≠ "" := by
      show (boundItemAttempts next).itemId ≠ ""
      rw [boundItemAttempts_itemId, hid]
      exact hne
    rcases (Store.mem_append_item hline).mp hother with rfl | ⟨hold, -⟩
    · exact hreaped
    · exact hv.kept.2 other hold
  simp only [reapStranded, Call.wp_bind, Call.wp_read, Call.wp_ite, Call.wp_lift, Call.wp_pure]
  refine ⟨fun hif => ⟨fun next hnext => ?_, fun _ _ => hv.kept⟩, fun _ => hv.skip⟩
  split at hnext
  · rename_i hevidence
    exact hwrite (replayedItem_itemId hnext) (.replayed hop hlisted hlast hif.1 hevidence hnext)
      (.inr ⟨item, hlisted, next, hif.1, rfl, .inl hnext⟩)
  · exact hwrite (recoveredItem_itemId hnext) (.recovered hop hlisted hlast hif.1 hnext)
      (.inr ⟨item, hlisted, next, hif.1, rfl, .inr hnext⟩)

theorem reapOrphanedAttempt_writes {options : ReapWorkLeasesOptions}
    (h : KeptByWrites env op start P) (hop : op = .reap options)
    (hv : Visiting P (Reaped env options start) (item :: rest) s) :
    (reapOrphanedAttempt env (options.now.getD env.now) options item).wp
      (fun _ => Visiting P (Reaped env options start) rest) P s := by
  have hlast := (hv.current item List.mem_cons_self).2
  simp only [reapOrphanedAttempt, Call.wp_bind, Call.wp_read]
  cases hrun : runningAttempt item with
  | none => simpa only [Call.wp_pure] using hv.skip
  | some running =>
      simp only [Call.wp_ite, Call.wp_bind, Call.wp_pure]
      refine ⟨fun hif => ?_, fun _ => hv.skip⟩
      refine hv.write rfl fun hgov => h.item s (some item) _ hv.kept ?_ hgov
      exact .reconciled hop (hv.listed item List.mem_cons_self) hlast hif.1 hif.2.1 hrun

end Loops

theorem reapExpiredWorkLeases_writes {options : ReapWorkLeasesOptions}
    (h : KeptByWrites env op start P) (hop : op = .reap options) (hs : P start) :
    (reapExpiredWorkLeases env options).wp (fun _ => P) P start := by
  simp only [reapExpiredWorkLeases, Call.wp_bind]
  refine Call.wp_mono (fun _ t ht => ?_) (fun _ ht => ht.1) (expireWorkItemLeases_writes h hs)
  have hstart : t.currentWorkItems = start.currentWorkItems := by
    rw [Store.currentWorkItems, ht.2, Store.currentWorkItems]
  simp only [Call.wp_read]
  refine Call.wp_mono (fun _ u hu => ?_) (fun _ hu => hu.1)
    (Call.wp_each_rest (I := Visiting (FirstLoop env options start P) (· ∈ start.currentWorkItems))
      (fun item rest v hv => reapStranded_writes h hop hv)
      (Visiting.all ⟨ht.1, fun item hmem => .inl (hstart ▸ hmem)⟩ fun item hmem => hstart ▸ hmem))
  exact Call.wp_mono (fun _ v hv => hv.kept) (fun _ hv => hv)
    (Call.wp_each_rest (I := Visiting P (Reaped env options start))
      (fun item rest v hv => reapOrphanedAttempt_writes h hop hv)
      (Visiting.all hu.kept.1 hu.kept.2))

theorem continueSuspendedPipelineWorkItem_writes {evidence : PipelineEvidence}
    {action : ContinuationAction} {input : ResumeSuspendedPipelineWorkItemInput}
    (h : KeptByWrites env op start P) (hop : op = .continuePipeline evidence action input)
    (hs : P start) :
    (continueSuspendedPipelineWorkItem env evidence action input).wp (fun _ => P) P start := by
  simp only [continueSuspendedPipelineWorkItem, assertWorkClaimsAllowed, Call.wp_bind,
    Call.wp_refuse, Call.wp_read]
  cases env.halt with
  | some halt => simpa only [Call.wp_fail] using hs
  | none =>
      simp only [Call.wp_pure]
      refine ⟨fun _ => hs, fun _ => ?_⟩
      cases hcur : start.currentWorkItem input.itemId with
      | none => simpa only [Call.wp_fail] using hs
      | some current =>
          simp only [Call.wp_bind, Call.wp_lift, Call.wp_refuse]
          refine ⟨fun c hc => ⟨fun _ => hs, fun _ => ⟨fun _ => hs, fun _ => ?_⟩⟩, fun _ _ => hs⟩
          cases start.originalLease input current c.original with
          | none => simpa only [Call.wp_fail] using hs
          | some oldLease =>
              -- the old lease ends first when it is still active
              simp only [Call.wp_bind, Call.wp_ite, wp_appendLeaseSnapshot]
              have hended := h.lease start
                { oldLease with status := .expired, releasedAt := some env.now } hs
              cases action with
              | deny =>
                  exact ⟨fun _ => h.snapshot hended (.denied rfl hop hcur hc),
                    fun _ => h.snapshot hs (.denied rfl hop hcur hc)⟩
              | resume =>
                  simp only [Call.wp_bind, Call.wp_lift, wp_appendLeaseSnapshot]
                  exact ⟨fun _ => ⟨fun expiresAt _ =>
                      h.snapshot (h.lease _ _ hended) (.resumed rfl hop hcur hc), fun _ _ => hended⟩,
                    fun _ => ⟨fun expiresAt _ =>
                      h.snapshot (h.lease _ _ hs) (.resumed rfl hop hcur hc), fun _ _ => hs⟩⟩

/-- What its writes keep, an operation keeps, however it ends. -/
theorem operation_writes (h : KeptByWrites env op s P) (hs : P s) :
    P ((op.call env).run s).1 := by
  rw [← Call.wp_fst (m := op.call env) (I := P)]
  cases op with
  | create input =>
      rw [Operation.call, Call.wp_void]
      simp only [createWorkItem, assertWorkItemTenantRegistered, Call.wp_bind, Call.wp_refuse]
      exact ⟨fun _ => hs, fun _ => createWorkItemInternal_writes h rfl hs (by rintro ⟨⟩)⟩
  | update input =>
      rw [Operation.call, Call.wp_void]
      exact updateWorkItem_writes h rfl hs
  | claim input =>
      rw [Operation.call, Call.wp_void]
      exact claimWorkItem_writes input h rfl hs
  | release input =>
      rw [Operation.call, Call.wp_void]
      exact releaseWorkItem_writes input h rfl hs
  | quarantine input =>
      rw [Operation.call, Call.wp_void]
      exact quarantineWorkItemExecution_writes h rfl hs
  | effectRelease input =>
      rw [Operation.call, Call.wp_void]
      exact releaseWorkItemEffectOwnership_writes h rfl hs
  | renew input =>
      rw [Operation.call, Call.wp_void]
      simp only [renewWorkItemLease, Call.wp_bind, Call.wp_read]
      split
      · simpa only [Call.wp_fail] using hs
      · simp only [Call.wp_bind, Call.wp_refuse, Call.wp_lift, wp_appendLeaseSnapshot, Call.wp_pure]
        exact ⟨fun _ => hs, fun _ => ⟨fun _ => hs, fun _ => ⟨fun _ => hs, fun _ =>
          ⟨fun _ _ => h.lease _ _ hs, fun _ _ => hs⟩⟩⟩⟩
  | expire now =>
      rw [Operation.call, Call.wp_void]
      exact Call.wp_mono (fun _ _ ht => ht.1) (fun _ ht => ht.1) (expireWorkItemLeases_writes h hs)
  | reap options =>
      rw [Operation.call]
      exact reapExpiredWorkLeases_writes h rfl hs
  | handoff input =>
      rw [Operation.call, Call.wp_void]
      simp only [handoffWorkItem, Call.wp_bind, Call.wp_refuse, Call.wp_pure]
      refine ⟨fun _ => hs, fun _ => ?_⟩
      refine Call.wp_mono (fun released t ht => ?_) (fun _ ht => ht)
        (releaseWorkItem_writes (handoffRelease input) h rfl hs)
      exact claimWorkItem_writes (handoffClaim input released.1.version) h ⟨_, rfl⟩ ht
  | createIfAbsent input =>
      rw [Operation.call, Call.wp_void]
      simp only [createWorkItemIfAbsent, assertWorkItemTenantRegistered, Call.wp_bind,
        Call.wp_refuse, Call.wp_lift, Call.wp_read]
      refine ⟨fun _ => hs, fun _ => ⟨fun _ => hs, fun _ => ⟨fun _ _ => ?_, fun _ _ => hs⟩⟩⟩
      split
      · rename_i hnone
        refine createWorkItemInternal_writes h rfl hs fun _ item hmem heq => ?_
        have hin : item ∈ s.items.filter fun item => some item.itemId = input.itemId := by
          simpa [heq] using hmem
        rw [List.getLast?_eq_none_iff.mp hnone] at hin
        cases hin
      · simp only [Call.wp_bind, Call.wp_lift, Call.wp_pure]
        exact ⟨fun _ _ => hs, fun _ _ => hs⟩
  | importExternal input =>
      rw [Operation.call, Call.wp_void]
      simp only [importExternalWorkItem, assertWorkItemTenantRegistered, Call.wp_bind,
        Call.wp_read, Call.wp_ite, Call.wp_refuse]
      cases hexisting : s.importedItem input with
      | some existing =>
          have hwrite : (updateWorkItem env (importedUpdate existing input)).wp (fun _ => P) P s :=
            updateWorkItem_writes h ⟨existing, hexisting, rfl⟩ hs
          exact ⟨fun _ => ⟨fun _ => hs, fun _ => hwrite⟩, fun _ => hwrite⟩
      | none =>
          have hwrite : (createWorkItemInternal env (importedCreation input)).wp
              (fun _ => P) P s :=
            createWorkItemInternal_writes h ⟨hexisting, rfl⟩ hs (by rintro ⟨⟩)
          exact ⟨fun _ => ⟨fun _ => hs, fun _ => hwrite⟩, fun _ => hwrite⟩
  | continuePipeline evidence action input =>
      rw [Operation.call, Call.wp_void]
      exact continueSuspendedPipelineWorkItem_writes h rfl hs

end Calls

end Kyberion.Work
