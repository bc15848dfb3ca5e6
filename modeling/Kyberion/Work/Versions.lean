import Kyberion.Work.Writes

/-!
Item versions. The snapshots of an item carry the versions 1, 2, 3, … in the
order of the log, so a check of the expected version lets one mutation through.
An id that lookups trim and creation does not is created again under it.
-/

namespace Kyberion.Work

open Js (trim)

/-- The versions of an item's snapshots, in the order of the log. -/
def Store.versions (s : Store) (id : String) : List ℕ :=
  (s.items.filter fun item => item.itemId = id).map (·.version)

/-- The k-th snapshot of an item has version k. -/
def Numbered (s : Store) : Prop :=
  ∀ id k v, (s.versions id)[k]? = some v → v = k + 1

theorem Store.versions_append (s : Store) (x : WorkItem) (id : String) :
    Store.versions { s with items := s.items ++ [x] } id =
      s.versions id ++ if x.itemId = id then [x.version] else [] := by
  by_cases h : x.itemId = id <;> simp [Store.versions, List.filter_append, h]

theorem Numbered.append {s : Store} {x : WorkItem} (h : Numbered s)
    (hx : x.version = (s.versions x.itemId).length + 1) :
    Numbered { s with items := s.items ++ [x] } := by
  intro id k v hk
  rw [Store.versions_append] at hk
  by_cases hid : x.itemId = id
  · rw [if_pos hid, List.getElem?_append] at hk
    split at hk
    · exact h id k v hk
    · rename_i hge
      rw [List.getElem?_singleton] at hk
      split at hk
      · subst hid
        have hv := Option.some.inj hk
        omega
      · cases hk
  · rw [if_neg hid, List.append_nil] at hk
    exact h id k v hk

theorem Store.filter_itemKey {s : Store} {id : String} (hid : id ≠ "") :
    (s.items.filter fun item => Store.itemKey item = some id) =
      s.items.filter fun item => item.itemId = id := by
  refine List.filter_congr fun item _ => ?_
  simp only [Store.itemKey_eq hid]

/-- The current snapshot of an item has the number of its snapshots as its version. -/
theorem Numbered.current {s : Store} {item : WorkItem} (h : Numbered s) (hid : item.itemId ≠ "")
    (hlast : lastFor Store.itemKey item.itemId s.items = some item) :
    item.version = (s.versions item.itemId).length := by
  rw [lastFor, Store.filter_itemKey hid] at hlast
  obtain ⟨init, hinit⟩ := List.getLast?_eq_some_iff.mp hlast
  have hversions : s.versions item.itemId = init.map (·.version) ++ [item.version] := by
    rw [Store.versions, hinit, List.map_append, List.map_singleton]
  have hv := h item.itemId init.length item.version (by simp [hversions])
  simp [hversions, hv]

section Succession

variable {env : Env} {op : Operation} {start s : Store} {current x : WorkItem}

theorem quarantinedItem_succ (input : QuarantineInput) (hold : WorkEffectOwnership) :
    (quarantinedItem env current input hold).itemId = current.itemId ∧
      (quarantinedItem env current input hold).version = current.version + 1 :=
  ⟨rfl, rfl⟩

theorem assertVersion_eq_ok {item : WorkItem} {version : ℤ} :
    assertVersion item (some version) = .ok () ↔ (item.version : ℤ) = version := by
  rw [assertVersion, Js.throwIf_eq_ok]
  simp

theorem prepareHumanEffectRelease_succ {host : Approval.Host} {separationEnabled : Bool}
    {approval : Option WorkEffectReleaseApproval} {item next : WorkItem}
    {input : EffectReleaseInput} {at_ : ℤ}
    (h : prepareHumanEffectRelease host separationEnabled approval (some item) input at_ =
      .ok next) :
    (item.version : ℤ) = input.expectedVersion ∧ next.version = item.version + 1 := by
  unfold prepareHumanEffectRelease at h
  obtain ⟨⟨⟩, hversion, h⟩ := Js.except_bind_ok h
  obtain ⟨hold, -, h⟩ := Js.except_bind_ok h
  cases hold with
  | none => cases h
  | some hold =>
      obtain ⟨-, h⟩ := Js.throwIf_eq_ok.mp h
      obtain ⟨approval', -, h⟩ := Js.except_bind_ok h
      obtain rfl := Except.ok.inj h
      exact ⟨assertVersion_eq_ok.mp hversion, rfl⟩

theorem replayedItem_version {at_ : ℤ} (h : replayedItem env at_ current = .ok x) :
    x.version = current.version + 1 := by
  unfold replayedItem at h
  obtain ⟨hold, -, h⟩ := Js.except_bind_ok h
  obtain rfl := Except.ok.inj h
  rfl

theorem recoveredItem_version {at_ : ℤ} {options : ReapWorkLeasesOptions}
    (h : recoveredItem env at_ options current = .ok x) : x.version = current.version + 1 := by
  unfold recoveredItem at h
  obtain ⟨hold, -, h⟩ := Js.except_bind_ok h
  obtain rfl := Except.ok.inj h
  rfl

theorem nextItemSnapshot_version (patched : WorkItem) (lease : Option WorkLease) (clear : Bool) :
    (nextItemSnapshot env current patched lease clear).version = current.version + 1 := by
  unfold nextItemSnapshot
  dsimp only
  split
  · rfl
  · split <;> rfl

/-- A snapshot that replaces one is its direct successor. -/
theorem Written.succ (h : Written env op start s (some current) x) :
    lastFor Store.itemKey current.itemId s.items = some current ∧ x.itemId = current.itemId ∧
      x.version = current.version + 1 := by
  cases h with
  | updated first request found allowed owned =>
      refine ⟨(Store.currentWorkItem_some found).2, ?_, nextItemSnapshot_version _ _ _⟩
      rw [nextItemSnapshot_itemId, patchWorkItem_itemId]
  | claimed request found version claimable =>
      exact ⟨(Store.currentWorkItem_some found).2, rfl, rfl⟩
  | released first request found version leased lease_eq holder_eq settled =>
      exact ⟨(Store.currentWorkItem_some found).2, rfl, rfl⟩
  | quarantined first request found attempt ne held =>
      exact ⟨(Store.currentWorkItem_some found).2, quarantinedItem_succ _ _⟩
  | @verified input _ item next _ first request found unleased prepared itemId version effect =>
      have hid := (prepareHumanEffectRelease_ok prepared).2
      have hversion := (prepareHumanEffectRelease_succ prepared).2
      refine ⟨(Store.currentWorkItem_some found).2, ?_, ?_⟩
      · rw [itemId, hid]
        rcases unleased with rfl | rfl <;> rfl
      · rw [version, hversion]
        rcases unleased with rfl | rfl <;> rfl
  | replayed request listed found running evidence replay =>
      exact ⟨found, replayedItem_itemId replay, replayedItem_version replay⟩
  | recovered request listed found running recovery =>
      exact ⟨found, recoveredItem_itemId recovery, recoveredItem_version recovery⟩
  | reconciled request listed found stopped considered orphan => exact ⟨found, rfl, rfl⟩
  | denied first request found prepared => exact ⟨(Store.currentWorkItem_some found).2, rfl, rfl⟩
  | resumed first request found prepared => exact ⟨(Store.currentWorkItem_some found).2, rfl, rfl⟩

theorem isGovernedWorkItem_itemId (h : isGovernedWorkItem x = true) : x.itemId ≠ "" := by
  rintro hempty
  simp [isGovernedWorkItem, hempty] at h

/-- An id that a lookup does not find has no snapshot. -/
theorem absent_of_id {id : String} (hid : IsId id) (h : s.currentWorkItem id = none) :
    ∀ item ∈ s.items, item.itemId ≠ id := by
  rw [Store.currentWorkItem_of_id hid, lastFor_eq_none] at h
  intro item hmem heq
  exact h item hmem ((Store.itemKey_eq hid.2).mpr heq)

theorem versions_eq_nil {id : String} :
    s.versions id = [] ↔ ∀ item ∈ s.items, item.itemId ≠ id := by
  simp [Store.versions, List.filter_eq_nil_iff]

/-- A creation under an id that lookups would trim meets no snapshot of that id. -/
def createsNew (s : CoordState) (a : Action) : Bool :=
  match a.operation with
  | .create input => (truthy input.itemId).all fun id =>
      trim id = id || s.store.items.all fun item => item.itemId ≠ id
  | _ => true

theorem line_itemId (x : WorkItem) : x.line.itemId = x.itemId :=
  boundItemAttempts_itemId x

theorem line_version (x : WorkItem) : x.line.version = x.version := by
  obtain ⟨attempts, h⟩ := boundItemAttempts_eq x
  show (boundItemAttempts x).version = x.version
  rw [h]

theorem buildWorkItemCreation_ok {input : CreateWorkItemInput}
    (h : buildWorkItemCreation env input = .ok x) :
    x.itemId = Js.orElse input.itemId (env.randomId "witem" 0) ∧ x.version = 1 := by
  unfold buildWorkItemCreation at h
  simp only [Js.throwIf_eq_ok] at h
  obtain ⟨-, -, h⟩ := h
  obtain rfl := Except.ok.inj h
  exact ⟨rfl, rfl⟩

/-- The id of a creation: the caller's, where there is one, or a drawn one. -/
theorem orElse_cases (a : Option String) (b : String) :
    (truthy a = none ∧ Js.orElse a b = b) ∨ truthy a = some (Js.orElse a b) := by
  cases a with
  | none => exact .inl ⟨rfl, rfl⟩
  | some t =>
      by_cases h : t = ""
      · exact .inl (by simp [truthy, Js.orElse, h])
      · exact .inr (by simp [truthy, Js.orElse, h])

theorem Written.absent {state : CoordState} {a : Action} {t : Store}
    (h : Written a.env a.operation state.store t none x) (hok : createsNew state a = true)
    (hne : x.itemId ≠ "") : x.version = 1 ∧ ∀ item ∈ t.items, item.itemId ≠ x.itemId := by
  cases h with
  | @created input _ first request build absent unrecorded =>
      obtain ⟨hid, hversion⟩ := buildWorkItemCreation_ok build
      refine ⟨hversion, ?_⟩
      rcases orElse_cases input.itemId (a.env.randomId "witem" 0) with ⟨-, hdrawn⟩ | hgiven
      · rw [hid, hdrawn] at absent ⊢
        exact absent_of_id (a.env.randomId_isId "witem" 0 (by decide)) absent
      · rw [← hid] at hgiven
        unfold Operation.Creates at request
        split at request
        · rename_i hop
          subst request
          simp only [createsNew, hop, hgiven, Option.all_some, Bool.or_eq_true, decide_eq_true_eq,
            List.all_eq_true, ← first] at hok
          exact hok.elim (fun htrim => absent_of_id ⟨htrim, hne⟩ absent) id
        · rename_i hop
          subst request
          intro item hmem heq
          refine unrecorded hop item hmem ?_
          rw [Option.eq_some_of_filter_eq_some hgiven, heq]
        · obtain ⟨-, rfl⟩ := request
          simp [importedCreation, truthy] at hgiven
        · exact request.elim

/-- The k-th snapshot of every item has version k after an operation if it has before. -/
theorem operation_numbered {s : CoordState} {a : Action} (hok : createsNew s a = true)
    (h : Numbered s.store) : Numbered ((a.operation.call a.env).run s.store).1 := by
  refine operation_writes ⟨fun t r ht => ht, fun t current x ht hx hgov => ht.append ?_⟩ h
  rw [line_version, line_itemId]
  have hne := isGovernedWorkItem_itemId hgov
  cases current with
  | none =>
      obtain ⟨hversion, hnone⟩ := hx.absent hok hne
      rw [hversion, versions_eq_nil.mpr hnone, List.length_nil]
  | some current =>
      obtain ⟨hlast, hid, hversion⟩ := hx.succ
      rw [hversion, hid, ht.current (hid ▸ hne) hlast]

end Succession

/-- The item that a mutation names and the version it expects of it. -/
def Operation.expects : Operation → Option (String × ℤ)
  | .update input => input.expectedVersion.map fun version => (input.itemId, version)
  | .claim input => input.expectedVersion.map fun version => (input.itemId, version)
  | .release input => input.expectedVersion.map fun version => (input.itemId, version)
  | .effectRelease input => some (input.itemId, input.expectedVersion)
  | .handoff input => input.expectedVersion.map fun version => (input.itemId, version)
  | _ => none

section Expectations

variable {env : Env} {op : Operation} {s : Store} {id : String} {version : ℤ}

/-- A call that returns a value only for an item of the version it expects. -/
theorem wp_lift_stale {α : Type} {r : Except WorkError α} {Q : α → Store → Prop}
    {E : Store → Prop} (h : ∀ a, r ≠ .ok a) (hE : E s) : (Call.lift r).wp Q E s := by
  rw [Call.wp_lift]
  exact ⟨fun a ha => absurd ha (h a), fun _ _ => hE⟩

/-- The version of an item is not the one that is expected of it. -/
def Store.stale (s : Store) (id : String) (version : ℤ) : Prop :=
  ∀ current, s.currentWorkItem id = some current → (current.version : ℤ) ≠ version

theorem Store.stale.refuses {current : WorkItem} (h : s.stale id version)
    (hcur : s.currentWorkItem id = some current) (u : Unit) :
    assertVersion current (some version) ≠ .ok u :=
  fun hok => h current hcur (assertVersion_eq_ok.mp hok)

theorem updateWorkItem_stale {input : UpdateWorkItemInput} (h : s.stale input.itemId version)
    (hexp : input.expectedVersion = some version) :
    (updateWorkItem env input).wp (fun _ _ => False) (fun t => t = s) s := by
  simp only [updateWorkItem, Call.wp_bind, Call.wp_read]
  cases hcur : s.currentWorkItem input.itemId with
  | none => simp only [Call.wp_fail]
  | some current =>
      rw [Call.wp_bind]
      refine wp_lift_stale (fun u hu => ?_) rfl
      rw [assertUpdateAllowed, hexp] at hu
      obtain ⟨u, hu, -⟩ := Js.except_bind_ok hu
      exact h.refuses hcur u hu

theorem claimWorkItem_stale {input : ClaimWorkItemInput} (h : s.stale input.itemId version)
    (hexp : input.expectedVersion = some version) :
    (claimWorkItem env input).wp (fun _ _ => False) (fun t => t = s) s := by
  simp only [claimWorkItem, assertWorkClaimsAllowed, Call.wp_bind, Call.wp_refuse, Call.wp_read]
  cases env.halt with
  | some halt => simp only [Call.wp_fail]
  | none =>
      simp only [Call.wp_pure]
      refine ⟨fun _ => trivial, fun _ => ?_⟩
      cases hcur : s.currentWorkItem input.itemId with
      | none => simp only [Call.wp_fail]
      | some current =>
          rw [Call.wp_bind, hexp]
          exact wp_lift_stale (h.refuses hcur) rfl

theorem releaseWorkItem_stale (input : ReleaseWorkItemInput) (h : s.stale input.itemId version)
    (hexp : input.expectedVersion = some version) :
    (releaseWorkItem env input).wp (fun _ _ => False) (fun t => t = s) s := by
  simp only [releaseWorkItem, Call.wp_bind, Call.wp_read]
  cases hcur : s.currentWorkItem input.itemId with
  | none => simp only [Call.wp_fail]
  | some current =>
      rw [Call.wp_bind, hexp]
      exact wp_lift_stale (h.refuses hcur) rfl

theorem releaseWorkItemEffectOwnership_stale {input : EffectReleaseInput}
    (h : s.stale input.itemId input.expectedVersion) :
    (releaseWorkItemEffectOwnership env input).wp (fun _ _ => False) (fun t => t = s) s := by
  simp only [releaseWorkItemEffectOwnership, Call.wp_bind, Call.wp_read]
  cases hcur : s.currentWorkItem input.itemId with
  | none =>
      simp only [Call.wp_bind, Call.wp_lift]
      exact ⟨by rintro next ⟨⟩, fun _ _ => trivial⟩
  | some item =>
      cases s.lapsedLease env.now input (some item) with
      | none =>
          simp only [Call.wp_bind, Call.wp_lift]
          refine ⟨fun next hnext => ?_, fun _ _ => trivial⟩
          exact absurd (prepareHumanEffectRelease_succ hnext).1 (h item hcur)
      | some lapsed =>
          simp only [Call.wp_bind, Call.wp_lift]
          refine ⟨fun next hnext => ?_, fun _ _ => trivial⟩
          exact absurd (prepareHumanEffectRelease_succ hnext).1 (h item hcur)

/-- A mutation that expects another version than the current one throws and writes nothing. -/
theorem stale_refused (env : Env) (hexp : op.expects = some (id, version)) (h : s.stale id version) :
    (op.call env).wp (fun _ _ => False) (fun t => t = s) s := by
  cases op with
  | update input =>
      obtain ⟨v, hv, heq⟩ := Option.map_eq_some_iff.mp hexp
      obtain ⟨rfl, rfl⟩ := Prod.mk.inj heq
      rw [Operation.call, Call.wp_void]
      exact updateWorkItem_stale h hv
  | claim input =>
      obtain ⟨v, hv, heq⟩ := Option.map_eq_some_iff.mp hexp
      obtain ⟨rfl, rfl⟩ := Prod.mk.inj heq
      rw [Operation.call, Call.wp_void]
      exact claimWorkItem_stale h hv
  | release input =>
      obtain ⟨v, hv, heq⟩ := Option.map_eq_some_iff.mp hexp
      obtain ⟨rfl, rfl⟩ := Prod.mk.inj heq
      rw [Operation.call, Call.wp_void]
      exact releaseWorkItem_stale input h hv
  | effectRelease input =>
      obtain ⟨rfl, rfl⟩ := Prod.mk.inj (Option.some.inj hexp)
      rw [Operation.call, Call.wp_void]
      exact releaseWorkItemEffectOwnership_stale h
  | handoff input =>
      obtain ⟨v, hv, heq⟩ := Option.map_eq_some_iff.mp hexp
      obtain ⟨rfl, rfl⟩ := Prod.mk.inj heq
      rw [Operation.call, Call.wp_void]
      simp only [handoffWorkItem, Call.wp_bind, Call.wp_refuse]
      refine ⟨fun _ => trivial, fun _ => ?_⟩
      exact Call.wp_mono (fun _ _ h => h.elim) (fun _ h => h)
        (releaseWorkItem_stale (handoffRelease input) h hv)
  | _ => cases hexp

/-- What was appended to an item since `s` starts with the successor of its snapshot in `s`. -/
def Succeeded (s : Store) (id : String) (t : Store) : Prop :=
  ∃ current x rest, s.currentWorkItem id = some current ∧ t.items = s.items ++ x :: rest ∧
    x.itemId = current.itemId ∧ x.version = current.version + 1

theorem Succeeded.append {t : Store} {x : WorkItem} (h : Succeeded s id t) :
    Succeeded s id { t with items := t.items ++ [x] } := by
  obtain ⟨current, y, rest, hcur, happend, hid, hversion⟩ := h
  exact ⟨current, y, rest ++ [x], hcur, by simp [happend], hid, hversion⟩

/-- A mutation writes only snapshots of the item it names. -/
theorem Written.names {t : Store} {current : Option WorkItem} {x : WorkItem}
    (hexp : op.expects = some (id, version)) (h : Written env op s t current x) :
    ∃ item, current = some item ∧ t.currentWorkItem id = some item := by
  cases h with
  | @created input _ first request =>
      unfold Operation.Creates at request
      split at request <;> first | exact request.elim | cases hexp
  | @updated input current _ first request found =>
      unfold Operation.Updates at request
      split at request
      · obtain ⟨v, -, heq⟩ := Option.map_eq_some_iff.mp hexp
        obtain ⟨rfl, rfl⟩ := Prod.mk.inj heq
        exact ⟨current, rfl, request ▸ found⟩
      · cases hexp
      · exact request.elim
  | @claimed input current _ _ request found =>
      unfold Operation.Claims at request
      split at request
      · obtain ⟨v, -, heq⟩ := Option.map_eq_some_iff.mp hexp
        obtain ⟨rfl, rfl⟩ := Prod.mk.inj heq
        exact ⟨current, rfl, request ▸ found⟩
      · obtain ⟨v, -, heq⟩ := Option.map_eq_some_iff.mp hexp
        obtain ⟨rfl, rfl⟩ := Prod.mk.inj heq
        obtain ⟨w, rfl⟩ := request
        exact ⟨current, rfl, found⟩
      · exact request.elim
  | @released input current _ _ first request found =>
      unfold Operation.Releases at request
      split at request
      · obtain ⟨v, -, heq⟩ := Option.map_eq_some_iff.mp hexp
        obtain ⟨rfl, rfl⟩ := Prod.mk.inj heq
        exact ⟨current, rfl, request ▸ found⟩
      · obtain ⟨v, -, heq⟩ := Option.map_eq_some_iff.mp hexp
        obtain ⟨rfl, rfl⟩ := Prod.mk.inj heq
        subst request
        exact ⟨current, rfl, found⟩
      · exact request.elim
  | @verified input current _ _ _ first request found =>
      subst request
      obtain ⟨rfl, rfl⟩ := Prod.mk.inj (Option.some.inj hexp)
      exact ⟨current, rfl, found⟩
  | quarantined first request => subst request; cases hexp
  | replayed request => subst request; cases hexp
  | recovered request => subst request; cases hexp
  | reconciled request => subst request; cases hexp
  | denied first request => subst request; cases hexp
  | resumed first request => subst request; cases hexp

/-- A mutation leaves the item log alone, or goes on from the snapshot it checked. -/
theorem writes_succeed (hexp : op.expects = some (id, version)) :
    ((op.call env).run s).1.items = s.items ∨ Succeeded s id ((op.call env).run s).1 := by
  refine operation_writes (P := fun t => t.items = s.items ∨ Succeeded s id t)
    ⟨fun t r ht => ht, fun t current x ht hx _ => .inr ?_⟩ (.inl rfl)
  rcases ht with hsame | hsucceeded
  · obtain ⟨item, rfl, hcur⟩ := hx.names hexp
    obtain ⟨-, hid, hversion⟩ := hx.succ
    refine ⟨item, x.line, [], ?_, by rw [hsame], (line_itemId x).trans hid,
      (line_version x).trans hversion⟩
    rw [← hcur, Store.currentWorkItem, Store.currentWorkItem, Store.currentWorkItems,
      Store.currentWorkItems, hsame]
  · exact hsucceeded.append

theorem appendItemSnapshot_writes {x : WorkItem} {t : Store} (h : s.items.length ≤ t.items.length) :
    (appendItemSnapshot x).wp (fun _ u => s.items.length < u.items.length) (fun _ => True) t := by
  refine wp_appendItemSnapshot.mpr ⟨fun _ => ?_, fun _ => trivial⟩
  simp only [List.length_append, List.length_singleton]
  omega

theorem updateWorkItem_writes_item {input : UpdateWorkItemInput} :
    (updateWorkItem env input).wp (fun _ t => s.items.length < t.items.length) (fun _ => True)
      s := by
  simp only [updateWorkItem, Call.wp_bind, Call.wp_read]
  cases s.currentWorkItem input.itemId with
  | none => simp only [Call.wp_fail]
  | some current =>
      simp only [Call.wp_bind, Call.wp_lift]
      refine ⟨fun _ _ => ⟨fun hold _ => ?_, fun _ _ => trivial⟩, fun _ _ => trivial⟩
      refine Call.wp_mono (fun next t ht => ?_) (fun _ ht => ht)
        (appendItemSnapshot_writes (Nat.le_refl _))
      split
      · simpa only [Call.wp_bind, wp_appendLeaseSnapshot, Call.wp_pure] using ht
      · simpa only [Call.wp_pure] using ht

theorem releaseWorkItem_writes_item (input : ReleaseWorkItemInput) :
    (releaseWorkItem env input).wp (fun _ t => s.items.length < t.items.length) (fun _ => True)
      s := by
  simp only [releaseWorkItem, Call.wp_bind, Call.wp_read]
  cases s.currentWorkItem input.itemId with
  | none => simp only [Call.wp_fail]
  | some current =>
      simp only [Call.wp_bind, Call.wp_lift]
      refine ⟨fun _ _ => ?_, fun _ _ => trivial⟩
      cases s.currentLeaseForItem env.now current.itemId with
      | none => simp only [Call.wp_fail]
      | some lease =>
          simp only [Call.wp_bind, Call.wp_refuse, Call.wp_lift, wp_appendLeaseSnapshot,
            Call.wp_pure]
          exact ⟨fun _ => trivial, fun _ => ⟨fun _ => trivial, fun _ =>
            ⟨fun hold _ => appendItemSnapshot_writes (Nat.le_refl _), fun _ _ => trivial⟩⟩⟩

theorem releaseWorkItemEffectOwnership_writes_item {input : EffectReleaseInput} :
    (releaseWorkItemEffectOwnership env input).wp (fun _ t => s.items.length < t.items.length)
      (fun _ => True) s := by
  simp only [releaseWorkItemEffectOwnership, Call.wp_bind, Call.wp_read]
  cases s.currentWorkItem input.itemId with
  | none =>
      simp only [Call.wp_bind, Call.wp_lift]
      exact ⟨by rintro next ⟨⟩, fun _ _ => trivial⟩
  | some item =>
      cases s.lapsedLease env.now input (some item) with
      | none =>
          simp only [Call.wp_bind, Call.wp_lift]
          exact ⟨fun next _ => appendItemSnapshot_writes (Nat.le_refl _), fun _ _ => trivial⟩
      | some lapsed =>
          simp only [Call.wp_bind, Call.wp_lift, wp_appendLeaseSnapshot]
          exact ⟨fun next _ => appendItemSnapshot_writes (Nat.le_refl _), fun _ _ => trivial⟩

/-- The item log only grows. -/
theorem items_grow (env : Env) (op : Operation) (s : Store) : ∃ more, ((op.call env).run s).1.items = s.items ++ more := by
  refine operation_writes (P := fun t => ∃ more, t.items = s.items ++ more)
    ⟨fun t r ht => ht, fun t current x ⟨more, ht⟩ _ _ => ?_⟩ ⟨[], by simp⟩
  exact ⟨more ++ [x.line], by simp [ht]⟩

/-- A mutation that returns has written, unless it is the replay of a claim. -/
theorem returns_written {r : Unit} (hexp : op.expects = some (id, version))
    (hret : ((op.call env).run s).2 = .ok r) :
    ((op.call env).run s).1.items ≠ s.items ∨ ∃ input, op = .claim input := by
  suffices hgrow : (op.call env).wp (fun _ t => s.items.length < t.items.length) (fun _ => True) s ∨
      ∃ input, op = .claim input by
    refine hgrow.imp_left fun hwp heq => ?_
    have hlt := Call.wp_ok hwp hret
    rw [heq] at hlt
    exact absurd hlt (Nat.lt_irrefl _)
  cases op with
  | claim input => exact .inr ⟨input, rfl⟩
  | update input =>
      rw [Operation.call, Call.wp_void]
      exact .inl updateWorkItem_writes_item
  | release input =>
      rw [Operation.call, Call.wp_void]
      exact .inl (releaseWorkItem_writes_item input)
  | effectRelease input =>
      rw [Operation.call, Call.wp_void]
      exact .inl releaseWorkItemEffectOwnership_writes_item
  | handoff input =>
      refine .inl ?_
      rw [Operation.call, Call.wp_void]
      simp only [handoffWorkItem, Call.wp_bind, Call.wp_refuse, Call.wp_pure]
      refine ⟨fun _ => trivial, fun _ => ?_⟩
      refine Call.wp_mono (fun released t ht => ?_) (fun _ ht => ht)
        (releaseWorkItem_writes_item (handoffRelease input))
      have hkept : KeptByWrites env (.handoff input) s fun u => s.items.length < u.items.length :=
        ⟨fun u r hu => hu, fun u current x hu _ _ => by simp; omega⟩
      have hlonger := claimWorkItem_writes (handoffClaim input released.1.version) hkept ⟨_, rfl⟩ ht
      exact Call.wp_mono (fun _ _ hu => hu) (fun _ _ => trivial) hlonger
  | _ => cases hexp

end Expectations

section Runs

theorem Store.currentWorkItem_itemId {s : Store} {id : String} {item : WorkItem}
    (h : s.currentWorkItem id = some item) : item.itemId = trim id := by
  rw [Store.currentWorkItem_eq] at h
  split at h
  · cases h
  · rename_i hblank
    exact (Store.itemKey_eq (by simpa [Js.isBlank] using hblank)).mp (mem_of_lastFor h).2

theorem numbered_reach {s : CoordState}
    (hs : coordination.Reach (fun s a => createsNew s a = true) s) : Numbered s.store := by
  refine hs.invariant (I := fun s => Numbered s.store) (fun s hs => ?_)
    fun s a t h hok hstep => ?_
  · have hempty : s.store = .empty := hs
    rw [hempty]
    intro id k v hk
    simp [Store.versions, Store.empty] at hk
  · obtain ⟨-, rfl⟩ := Option.ite_some_none_eq_some.mp hstep
    exact operation_numbered hok h

/-- Every version up to `version` of the item has been written. -/
def Past (id : String) (version : ℤ) (s : Store) : Prop :=
  version < (s.versions (trim id)).length

theorem Past.grow {id : String} {version : ℤ} {s t : Store} {more : List WorkItem}
    (h : Past id version s) (ht : t.items = s.items ++ more) : Past id version t := by
  unfold Past Store.versions at h ⊢
  rw [ht, List.filter_append, List.map_append, List.length_append]
  omega

theorem Numbered.length {s : Store} {id : String} {item : WorkItem} (h : Numbered s)
    (hcur : s.currentWorkItem id = some item) :
    item.version = (s.versions (trim id)).length := by
  obtain ⟨hid, hlast⟩ := Store.currentWorkItem_some hcur
  rw [h.current hid.2 hlast, ← Store.currentWorkItem_itemId hcur]

theorem Past.stale {s : Store} {id : String} {version : ℤ} (h : Past id version s)
    (hs : Numbered s) : s.stale id version := by
  intro current hcur heq
  have hlt : version < (s.versions (trim id)).length := h
  rw [← hs.length hcur] at hlt
  omega

theorem Succeeded.past {s t : Store} {id : String} {version : ℤ} (h : Succeeded s id t)
    (hs : Numbered s) (hversion : ∀ item, s.currentWorkItem id = some item →
      (item.version : ℤ) = version) : Past id version t := by
  obtain ⟨current, x, rest, hcur, happend, hid, -⟩ := h
  have hnow := hversion current hcur
  rw [hs.length hcur] at hnow
  have hx : x.itemId = trim id := hid.trans (Store.currentWorkItem_itemId hcur)
  unfold Past
  rw [Store.versions, happend, List.filter_append, List.map_append, List.length_append,
    List.filter_cons_of_pos (by simpa using hx), List.map_cons, List.length_cons]
  rw [Store.versions] at hnow
  omega

theorem Past.exec {id : String} {version : ℤ} {s t : CoordState} {as : List Action}
    (h : Past id version s.store)
    (hexec : Transition.System.execOk coordination createsNew s as = some t) :
    Past id version t.store := by
  induction as generalizing s with
  | nil =>
      obtain rfl := Option.some.inj hexec
      exact h
  | cons a as ih =>
      simp only [Transition.System.execOk] at hexec
      split at hexec
      · obtain ⟨u, hu, ht⟩ := Option.bind_eq_some_iff.mp hexec
        obtain ⟨-, rfl⟩ := Option.ite_some_none_eq_some.mp hu
        obtain ⟨more, hmore⟩ := items_grow a.env a.operation s.store
        exact ih (h.grow hmore) ht
      · cases hexec

def Action.returns (s : CoordState) (a : Action) : Prop :=
  ∃ r, ((a.operation.call a.env).run s.store).2 = .ok r

/-- What versions are for, in a state of the store. -/
structure NoLostUpdate (s : CoordState) : Prop where
  numbered : ∀ id k v, (s.store.versions id)[k]? = some v → v = k + 1
  successor : ∀ a t id version, coordination.step s a = some t →
    a.operation.expects = some (id, version) → t.store.items ≠ s.store.items →
    (∃ current, s.store.currentWorkItem id = some current ∧ (current.version : ℤ) = version) ∧
      Succeeded s.store id t.store
  returned : ∀ a t id version, coordination.step s a = some t →
    a.operation.expects = some (id, version) → a.returns s →
    t.store.items ≠ s.store.items ∨ ∃ input, a.operation = .claim input
  once : ∀ a t id version, coordination.step s a = some t →
    a.operation.expects = some (id, version) → t.store.items ≠ s.store.items →
    ∀ as u, Transition.System.execOk coordination createsNew t as = some u →
    ∀ b w id', coordination.step u b = some w → b.operation.expects = some (id', version) →
    trim id' = trim id → ¬ b.returns u ∧ w.store = u.store

theorem no_lost_update {s : CoordState}
    (hs : coordination.Reach (fun s a => createsNew s a = true) s) : NoLostUpdate s := by
  have hnumbered := numbered_reach hs
  -- what wrote has passed the check of its expected version
  have hchecked {a : Action} {id : String} {version : ℤ}
      (hexp : a.operation.expects = some (id, version))
      (hwrote : ((a.operation.call a.env).run s.store).1.items ≠ s.store.items) :
      ¬ s.store.stale id version := by
    intro hstale
    have hsame := Call.wp_fst.mp (Call.wp_mono (F := fun t => t = s.store) (fun _ _ h => h.elim)
      (fun _ h => h) (stale_refused a.env hexp hstale))
    exact hwrote (congrArg Store.items hsame)
  have hsucceeded {a : Action} {id : String} {version : ℤ}
      (hexp : a.operation.expects = some (id, version))
      (hwrote : ((a.operation.call a.env).run s.store).1.items ≠ s.store.items) :
      (∃ current, s.store.currentWorkItem id = some current ∧ (current.version : ℤ) = version) ∧
        Succeeded s.store id ((a.operation.call a.env).run s.store).1 := by
    refine ⟨?_, (writes_succeed hexp).resolve_left hwrote⟩
    have hfresh := hchecked hexp hwrote
    unfold Store.stale at hfresh
    push Not at hfresh
    exact hfresh
  refine ⟨hnumbered, fun a t id version hstep hexp hwrote => ?_,
    fun a t id version hstep hexp ⟨r, hret⟩ => ?_,
    fun a t id version hstep hexp hwrote as u hexec b w id' hstep' hexp' htrim => ?_⟩
  · obtain ⟨-, rfl⟩ := Option.ite_some_none_eq_some.mp hstep
    exact hsucceeded hexp hwrote
  · obtain ⟨-, rfl⟩ := Option.ite_some_none_eq_some.mp hstep
    exact returns_written hexp hret
  · have hnew : createsNew s a = true := by
      unfold createsNew
      cases hop : a.operation <;> first | rfl | (rw [hop] at hexp; cases hexp)
    have hu := numbered_reach (Transition.System.reach_of_execOk (hs.next hnew hstep) hexec)
    obtain ⟨-, rfl⟩ := Option.ite_some_none_eq_some.mp hstep
    obtain ⟨⟨current, hcur, hversion⟩, hsucc⟩ := hsucceeded hexp hwrote
    have hpast : Past id version ((a.operation.call a.env).run s.store).1 := by
      refine hsucc.past hnumbered fun item hitem => ?_
      rw [hcur] at hitem
      exact Option.some.inj hitem ▸ hversion
    have hlater : Past id' version u.store := by
      have h := hpast.exec (t := u) (s := ⟨_, a.env.now⟩) hexec
      rw [Past, htrim]
      exact h
    have hrefused := stale_refused b.env hexp' (hlater.stale hu)
    obtain ⟨-, rfl⟩ := Option.ite_some_none_eq_some.mp hstep'
    refine ⟨fun ⟨r, hret⟩ => Call.wp_ok hrefused hret, ?_⟩
    exact Call.wp_fst.mp (Call.wp_mono (fun _ _ h => h.elim) (fun _ h => h) hrefused)

def createUnder (id : String) : Action where
  env := openEnv 0
  operation := .create
    { itemId := some id, title := "t", description := "d", sourceRef := some "r" }

def renameAction : Action where
  env := openEnv 1
  operation := .update { itemId := "w", expectedVersion := some 1, title := some "u" }

theorem no_lost_update_after_update :
    ∃ s : CoordState, s.store.versions "w" = [1, 2] ∧ NoLostUpdate s := by
  obtain ⟨s, hs, hversions⟩ := coordination.exists_reach_of_execOk createsNew
    (s := ⟨.empty, 0⟩) [createUnder "w", renameAction]
    (fun s => s.store.versions "w" = [1, 2]) rfl (by decide +kernel)
  exact ⟨s, hversions, no_lost_update hs⟩

/-- An id with a blank is stored as it is, looked up without, and so created twice. -/
theorem version_one_twice : ¬ ∀ s, coordination.Reachable s → Numbered s.store := by
  intro h
  obtain ⟨s, hs, hversions⟩ := Transition.System.exists_reachable_of_exec (S := coordination)
    (s := ⟨.empty, 0⟩) [createUnder " w", createUnder " w"]
    (fun s => s.store.versions " w" = [1, 1]) rfl (by decide +kernel)
  have hsecond := h s hs " w" 1 1 (by rw [hversions]; rfl)
  omega

end Runs

end Kyberion.Work
