import Kyberion.Work.Ownership
import Kyberion.Work.Versions

/-!
A handoff that throws: either the release half refused before its first write, or the records of
the lease, and mostly of the item, have moved already.
-/

namespace Kyberion.Work

open Js (isBlank trim)

/-- The current snapshots of the items and the current records of the leases are the same. -/
structure Store.SameRecords (s t : Store) : Prop where
  items : ∀ item, item ∈ t.currentWorkItems ↔ item ∈ s.currentWorkItems
  leases : ∀ lease, lease ∈ t.currentLeaseRecords ↔ lease ∈ s.currentLeaseRecords

/-- The snapshot passes the schema and can be written as a line. -/
def Writable (x : WorkItem) : Prop :=
  isGovernedWorkItem x = true ∧ (boundItemAttempts x).serializable = true

/-- The checks of a release, up to its first write. -/
structure ReleaseAdmitted (env : Env) (s : Store) (input : ReleaseWorkItemInput)
    (current : WorkItem) (lease : WorkLease) (hold : Option WorkEffectOwnership) : Prop where
  found : s.currentWorkItem input.itemId = some current
  version : assertVersion current input.expectedVersion = .ok ()
  leased : s.currentLeaseForItem env.now current.itemId = some lease
  leaseId : lease.leaseId = input.leaseId
  holder : lease.holderPeerId = input.actorPeerId
  settled : prepareEffectSettlement env.host current input env.now = .ok hold

/-- The checks that follow the first write of a handoff: those of the snapshot that the release
stores, and those that the claim makes on it. -/
structure HandoffClaimable (env : Env) (s : Store) (input : HandoffWorkItemInput)
    (current : WorkItem) (lease : WorkLease) (x : WorkItem) : Prop where
  writable : Writable x
  running : env.halt = none
  alone : ∀ other ∈ s.currentLeaseRecords, other.itemId = current.itemId →
    other.live env.now = true → other.leaseId = lease.leaseId
  claimable : ∃ target, assertEffectClaimable env.host x.line
    (Store.currentWorkItems { s with items := s.items ++ [x.line] }) = .ok target
  printable : ∃ expiresAt, leaseExpiry env.now input.ttlMs = .ok expiresAt

/-- A handoff refused before its first write, or one that passes every check after it. -/
def HandoffSound (env : Env) (s : Store) (input : HandoffWorkItemInput) : Prop :=
  env.refusesActor input.toPeerId = true ∨
    ∀ current lease hold, ReleaseAdmitted env s (handoffRelease input) current lease hold →
      HandoffClaimable env s input current lease
        (releasedItem env current (handoffRelease input) hold)

variable {env : Env} {s : Store}

section Release

variable {input : ReleaseWorkItemInput} {current current' : WorkItem} {lease lease' : WorkLease}
  {hold hold' : Option WorkEffectOwnership}

theorem ReleaseAdmitted.unique (h : ReleaseAdmitted env s input current lease hold)
    (h' : ReleaseAdmitted env s input current' lease' hold') :
    current' = current ∧ lease' = lease ∧ hold' = hold := by
  obtain rfl := Option.some.inj (h.found.symm.trans h'.found)
  obtain rfl := Option.some.inj (h.leased.symm.trans h'.leased)
  obtain rfl := Except.ok.inj (h.settled.symm.trans h'.settled)
  exact ⟨rfl, rfl, rfl⟩

/-- What a release leaves: nothing new, the lease alone when its snapshot cannot be written, or
both. -/
theorem releaseWorkItem_cases (input : ReleaseWorkItemInput) :
    (releaseWorkItem env input).wp
      (fun r t => ∃ current lease hold, ReleaseAdmitted env s input current lease hold ∧
        Writable (releasedItem env current input hold) ∧
        r = (boundItemAttempts (releasedItem env current input hold), lease.released env.now) ∧
        t = ⟨s.items ++ [(releasedItem env current input hold).line],
          s.leases ++ [lease.released env.now]⟩)
      (fun t => (t = s ∧ ∀ current lease hold, ¬ ReleaseAdmitted env s input current lease hold) ∨
        ∃ current lease hold, ReleaseAdmitted env s input current lease hold ∧
          ¬ Writable (releasedItem env current input hold) ∧
          t = { s with leases := s.leases ++ [lease.released env.now] }) s := by
  simp only [releaseWorkItem, Call.wp_bind, Call.wp_read]
  cases hfound : s.currentWorkItem input.itemId with
  | none =>
      simp only [Call.wp_fail]
      exact .inl ⟨trivial, fun _ _ _ h => by simp [h.found] at hfound⟩
  | some current =>
      have hcurrent {current' lease hold} (h : ReleaseAdmitted env s input current' lease hold) :
          current' = current := Option.some.inj (h.found.symm.trans hfound)
      simp only [Call.wp_bind, Call.wp_lift]
      refine ⟨fun _ hversion => ?_, fun e herror => .inl ⟨trivial, fun _ _ _ h => ?_⟩⟩
      swap
      · obtain rfl := hcurrent h
        rw [h.version] at herror
        cases herror
      cases hleased : s.currentLeaseForItem env.now current.itemId with
      | none =>
          simp only [Call.wp_fail]
          refine .inl ⟨trivial, fun _ _ _ h => ?_⟩
          obtain rfl := hcurrent h
          simp [h.leased] at hleased
      | some lease =>
          have hlease {current' lease' hold} (h : ReleaseAdmitted env s input current' lease' hold) :
              lease' = lease := by
            obtain rfl := hcurrent h
            exact Option.some.inj (h.leased.symm.trans hleased)
          simp only [Call.wp_bind, Call.wp_refuse, Call.wp_lift, wp_appendLeaseSnapshot,
            Call.wp_pure]
          refine ⟨fun hne => .inl ⟨trivial, fun _ _ _ h => ?_⟩, fun hid => ⟨fun hne =>
            .inl ⟨trivial, fun _ _ _ h => ?_⟩, fun hholder => ⟨fun hold hsettled => ?_,
              fun e herror => .inl ⟨trivial, fun _ _ _ h => ?_⟩⟩⟩⟩
          · obtain rfl := hlease h
            exact hne h.leaseId
          · obtain rfl := hlease h
            exact hne h.holder
          · have hadmitted : ReleaseAdmitted env s input current lease hold :=
              ⟨hfound, hversion, hleased, not_not.mp hid, not_not.mp hholder, hsettled⟩
            refine wp_appendItemSnapshot.mpr ⟨fun hok => ?_, fun hfail => ?_⟩
            · exact ⟨current, lease, hold, hadmitted, hok, rfl, rfl⟩
            · exact .inr ⟨current, lease, hold, hadmitted, hfail, rfl⟩
          · obtain rfl := hcurrent h
            rw [h.settled] at herror
            cases herror

end Release

section Claim

variable {input : HandoffWorkItemInput} {current : WorkItem} {lease : WorkLease}
  {hold : Option WorkEffectOwnership}

theorem Store.currentLeaseForItem_eq_none {now : ℤ} {itemId : String} :
    s.currentLeaseForItem now itemId = none ↔ s.Idle now itemId := by
  refine ⟨Store.idle_of_none, fun hidle => ?_⟩
  cases hlease : s.currentLeaseForItem now itemId with
  | none => rfl
  | some lease =>
      obtain ⟨hmem, hitem, hlive⟩ := Store.currentLeaseForItem_some hlease
      rw [hidle lease hmem hitem] at hlive
      cases hlive

/-- A stored snapshot is the current one of its item. -/
theorem Store.currentWorkItem_stored {id : String} {leases : List WorkLease} {x : WorkItem}
    (hfound : s.currentWorkItem id = some current) (hx : x.itemId = current.itemId) :
    Store.currentWorkItem ⟨s.items ++ [x], leases⟩ id = some x := by
  rw [Store.currentWorkItem_eq] at hfound ⊢
  split at hfound
  · cases hfound
  · rename_i hblank
    have hne : trim id ≠ "" := by simpa [isBlank] using hblank
    have hkey := (Store.itemKey_eq hne).mp (mem_of_lastFor hfound).2
    rw [if_neg hblank, lastFor_concat, if_pos ((Store.itemKey_eq hne).mpr (hx.trans hkey))]

/-- What the release leaves can be claimed as far as its status goes. -/
theorem handedOff_open (env : Env) (input : HandoffWorkItemInput) (current : WorkItem)
    (hold : Option WorkEffectOwnership) :
    isTerminalStatus (releasedItem env current (handoffRelease input) hold).line.status = false ∧
      (releasedItem env current (handoffRelease input) hold).line.status ≠ .inProgress := by
  rw [line_status]
  simp only [releasedItem, handoffRelease, Option.getD_some]
  split <;> decide

theorem handedOff_lease_none (hadmitted : ReleaseAdmitted env s (handoffRelease input) current lease
    hold) (items : List WorkItem) :
    Store.currentLeaseForItem ⟨items, s.leases ++ [lease.released env.now]⟩ env.now
        current.itemId = none ↔
      ∀ other ∈ s.currentLeaseRecords, other.itemId = current.itemId →
        other.live env.now = true → other.leaseId = lease.leaseId := by
  have hmem := (Store.currentLeaseForItem_some hadmitted.leased).1
  have hne : (lease.released env.now).leaseId ≠ "" := (Store.mem_currentLeaseRecords.mp hmem).1
  rw [Store.currentLeaseForItem_eq_none]
  constructor
  · intro hidle other hother hitem hlive
    by_contra hid
    have hin : other ∈ Store.currentLeaseRecords ⟨items, s.leases ++ [lease.released env.now]⟩ :=
      (Store.mem_append_lease hne).mpr (.inr ⟨hother, hid⟩)
    rw [hidle other hin hitem] at hlive
    cases hlive
  · intro honly
    have hended : (lease.released env.now).status ≠ .active := by
      simp [WorkLease.released]
    exact Store.idle_endLease hne hended honly

/-- The claim half returns when its checks pass, and else throws before it writes. -/
theorem claimWorkItem_handedOff
    (hadmitted : ReleaseAdmitted env s (handoffRelease input) current lease hold)
    (hactor : env.refusesActor input.toPeerId = false)
    (hwritable : Writable (releasedItem env current (handoffRelease input) hold)) :
    (claimWorkItem env (handoffClaim input
      (boundItemAttempts (releasedItem env current (handoffRelease input) hold)).version)).wp
      (fun _ _ => HandoffClaimable env s input current lease
        (releasedItem env current (handoffRelease input) hold))
      (fun t => ¬ HandoffClaimable env s input current lease
          (releasedItem env current (handoffRelease input) hold) ∧
        t.leases = s.leases ++ [lease.released env.now])
      ⟨s.items ++ [(releasedItem env current (handoffRelease input) hold).line],
        s.leases ++ [lease.released env.now]⟩ := by
  have hopen := handedOff_open env input current hold
  generalize hx : releasedItem env current (handoffRelease input) hold = x at *
  have hline : x.line.itemId = current.itemId := by
    rw [line_itemId, ← hx, releasedItem_itemId]
  have hfound : Store.currentWorkItem ⟨s.items ++ [x.line], s.leases ++ [lease.released env.now]⟩
      input.itemId = some x.line := Store.currentWorkItem_stored hadmitted.found hline
  have hlease := handedOff_lease_none hadmitted (s.items ++ [x.line])
  have hversion : assertVersion x.line
      (handoffClaim input (boundItemAttempts x).version).expectedVersion = .ok () :=
    assertVersion_eq_ok.mpr rfl
  have hreleased : (handoffRelease input).metadata = some (handoffMetadata input) := rfl
  have hmeta : (handoffClaim input (boundItemAttempts x).version).metadata.all
      (·.serializable) = true :=
    releasedItem_serializable hreleased (hx ▸ hwritable.2)
  simp only [claimWorkItem, assertWorkClaimsAllowed, Call.wp_bind, Call.wp_refuse, Call.wp_read]
  cases hhalt : env.halt with
  | some halt =>
      simp only [Call.wp_fail]
      exact ⟨fun h => by simp [h.running] at hhalt, trivial⟩
  | none =>
      have hknown : ¬ env.refusesActor
          (handoffClaim input (boundItemAttempts x).version).actorPeerId = true := by
        simpa [handoffClaim] using hactor
      simp only [Call.wp_pure]
      refine ⟨fun h => absurd h hknown, fun _ => ?_⟩
      rw [show (handoffClaim input (boundItemAttempts x).version).itemId = input.itemId from rfl,
        hfound]
      simp only [Call.wp_bind, Call.wp_lift, hversion, reduceCtorEq, false_implies, implies_true,
        and_true, hline]
      intro _ _
      cases hleased : Store.currentLeaseForItem
          ⟨s.items ++ [x.line], s.leases ++ [lease.released env.now]⟩ env.now current.itemId with
      | some other =>
          have hreplay : ¬ canReplayWorkItemClaim x.line other
              (handoffClaim input (boundItemAttempts x).version) = true := by
            simp [canReplayWorkItemClaim, hopen.2]
          simp only [Call.wp_bind, Call.wp_refuse, Call.wp_pure]
          refine ⟨fun _ => ⟨fun h => ?_, trivial⟩, fun _ => ⟨fun _ => ⟨fun h => ?_, trivial⟩,
            fun h => absurd hreplay h⟩⟩
          all_goals
            rw [hlease.mpr h.alone] at hleased
            cases hleased
      | none =>
          have halone := hlease.mp hleased
          simp only [Call.wp_bind, Call.wp_refuse, Call.wp_lift, wp_appendLeaseSnapshot,
            Call.wp_pure]
          refine ⟨fun h => absurd h (by simp [hopen.1]), fun _ => ⟨fun target htarget =>
            ⟨fun expiresAt hexpires => ?_, fun e herror => ⟨fun h => ?_, trivial⟩⟩,
            fun e herror => ⟨fun h => ?_, trivial⟩⟩⟩
          · have hclaim : HandoffClaimable env s input current lease x :=
              ⟨hwritable, hhalt, halone, ⟨target, htarget⟩, ⟨expiresAt, hexpires⟩⟩
            have hstored := claimedItem_stored env (claimedLease env x.line
              (handoffClaim input (boundItemAttempts x).version) expiresAt) target
              (stored_persisted ((boundItemAttempts_governed x).trans hwritable.1)) hmeta
            refine wp_appendItemSnapshot.mpr ⟨fun _ => hclaim, fun hfail => ?_⟩
            exact absurd ⟨hstored.1, boundItemAttempts_serializable hstored.2⟩ hfail
          · obtain ⟨expiresAt, hexpires⟩ := h.printable
            exact absurd (hexpires.symm.trans herror) (by simp)
          · obtain ⟨target, htarget⟩ := h.claimable
            exact absurd (htarget.symm.trans herror) (by simp)

end Claim

section Handoff

variable {input : HandoffWorkItemInput}

/-- A handoff that returns passed every check; one that throws wrote nothing, or left the record of
a lease behind that a check after its first write refused. -/
theorem handoffWorkItem_cases (input : HandoffWorkItemInput) :
    (handoffWorkItem env input).wp (fun _ _ => HandoffSound env s input)
      (fun t => (t = s ∧ HandoffSound env s input) ∨ env.refusesActor input.toPeerId = false ∧
          ∃ current lease hold, ReleaseAdmitted env s (handoffRelease input) current lease hold ∧
          ¬ HandoffClaimable env s input current lease
            (releasedItem env current (handoffRelease input) hold) ∧
          t.leases = s.leases ++ [lease.released env.now]) s := by
  simp only [handoffWorkItem, Call.wp_bind, Call.wp_refuse]
  refine ⟨fun hrefused => .inl ⟨trivial, .inl hrefused⟩, fun hknown => ?_⟩
  have hactor : env.refusesActor input.toPeerId = false := by simpa using hknown
  refine Call.wp_mono ?_ ?_ (releaseWorkItem_cases (handoffRelease input))
  · rintro _ _ ⟨current, lease, hold, hadmitted, hwritable, rfl, rfl⟩
    simp only [Call.wp_pure]
    refine Call.wp_mono (fun _ _ hclaim => .inr fun current' lease' hold' h' => ?_)
      (fun t ht => .inr ⟨hactor, current, lease, hold, hadmitted, ht⟩)
      (claimWorkItem_handedOff hadmitted hactor hwritable)
    obtain ⟨rfl, rfl, rfl⟩ := hadmitted.unique h'
    exact hclaim
  · rintro t (⟨rfl, hnone⟩ | ⟨current, lease, hold, hadmitted, hfail, rfl⟩)
    · exact .inl ⟨rfl, .inr fun _ _ _ h => absurd h (hnone _ _ _)⟩
    · exact .inr ⟨hactor, current, lease, hold, hadmitted, fun h => hfail h.writable, rfl⟩

/-- The record of a lease that a release ended is no longer the current one. -/
theorem not_sameRecords_of_release {t : Store} {lease : WorkLease} {itemId : String}
    (hleased : s.currentLeaseForItem env.now itemId = some lease)
    (ht : t.leases = s.leases ++ [lease.released env.now]) : ¬ s.SameRecords t := by
  intro h
  obtain ⟨hmem, -, hlive⟩ := Store.currentLeaseForItem_some hleased
  have hne : (lease.released env.now).leaseId ≠ "" := (Store.mem_currentLeaseRecords.mp hmem).1
  have hcurrent : lease ∈ Store.currentLeaseRecords
      { s with leases := s.leases ++ [lease.released env.now] } := by
    rw [← ht]
    exact (h.leases lease).mpr hmem
  rcases (Store.mem_append_lease hne).mp hcurrent with heq | ⟨-, hid⟩
  · rw [heq] at hlive
    simp [WorkLease.live, WorkLease.released] at hlive
  · exact hid rfl

/-- A handoff that throws leaves every current record as it was, exactly when it was refused before
its first write or could not be refused after it. -/
theorem handoff_atomic_iff (env : Env) (s : Store) (input : HandoffWorkItemInput) :
    (∀ e, ((handoffWorkItem env input).run s).2 = .error e →
      s.SameRecords ((handoffWorkItem env input).run s).1) ↔ HandoffSound env s input := by
  have hcases : (handoffWorkItem env input).wp _ _ s := handoffWorkItem_cases input
  cases hrun : ((handoffWorkItem env input).run s).2 with
  | ok r => simpa using Call.wp_ok hcases hrun
  | error e =>
      rcases Call.wp_error hcases hrun with ⟨heq, hsound⟩ |
        ⟨hactor, current, lease, hold, hadmitted, hfail, ht⟩
      · simp only [heq, hsound, iff_true]
        exact fun _ _ => ⟨fun _ => Iff.rfl, fun _ => Iff.rfl⟩
      · have hmoved := not_sameRecords_of_release hadmitted.leased ht
        refine ⟨fun h => absurd (h e rfl) hmoved, fun h => ?_⟩
        rcases h with hrefused | hclaims
        · simp [hactor] at hrefused
        · exact absurd (hclaims current lease hold hadmitted) hfail

/-- An item that `p` has claimed. -/
def claimedStore : Store :=
  ((claimAction true).operation.call (openEnv 1)).run
    ((createAction.operation.call (openEnv 0)).run .empty).1 |>.1

def handoffInput : HandoffWorkItemInput :=
  { itemId := "w", fromLeaseId := (openEnv 1).randomId "wlease" 0, fromPeerId := "p"
    toPeerId := "q", purpose := "x", packet := ⟨"half of it is done", .null, true⟩ }

def haltedEnv : Env :=
  { openEnv 2 with halt := some {} }

/-- A handoff under an operations halt throws after it has released the lease. -/
theorem handoff_leaves_released :
    ¬ ∀ env s input e, ((handoffWorkItem env input).run s).2 = .error e →
      s.SameRecords ((handoffWorkItem env input).run s).1 := by
  intro h
  have hactive : claimedStore.currentLeaseRecords.all (·.status = .active) = true := by
    decide +kernel
  have hreleased : (((handoffWorkItem haltedEnv handoffInput).run claimedStore).1.currentLeaseRecords.any
      (·.status = .released)) = true := by decide +kernel
  have hthrows : ((handoffWorkItem haltedEnv handoffInput).run claimedStore).2.isOk = false := by
    decide +kernel
  cases hrun : ((handoffWorkItem haltedEnv handoffInput).run claimedStore).2 with
  | ok r =>
      rw [hrun] at hthrows
      cases hthrows
  | error e =>
      obtain ⟨lease, hmem, hstatus⟩ := List.any_eq_true.mp hreleased
      have hbefore := ((h haltedEnv claimedStore handoffInput e hrun).leases lease).mp hmem
      have hstill := List.all_eq_true.mp hactive lease hbefore
      rw [decide_eq_true_eq] at hstatus hstill
      rw [hstatus] at hstill
      cases hstill

end Handoff

end Kyberion.Work
