import Kyberion.Work.System

/-!
What the lease log and the item log say about each other. Between operations a
live lease has an item that carries it; an operation keeps that by appending
to an item only snapshots that agree with its live lease, or when it has none.
-/

namespace Kyberion.Work

open Js (isBlank trim)

/-- An id that `trim` leaves alone and that counts as one. -/
def IsId (id : String) : Prop :=
  trim id = id ∧ id ≠ ""

/-- The snapshot carries the lease and its holder, and can be worked on. -/
structure Agrees (item : WorkItem) (lease : WorkLease) : Prop where
  leaseId : item.leaseId = some lease.leaseId
  holder : item.claimedByPeerId = some lease.holderPeerId
  open_ : isTerminalStatus item.status = false

/-- The record may be read back and checked again. -/
def Stored (item : WorkItem) : Prop :=
  isGovernedWorkItem item = true ∧ item.serializable = true

/-- Once a record of an id has ended, so have all later ones. -/
def EndedStay (leases : List WorkLease) : Prop :=
  leases.Pairwise fun a b => a.leaseId = b.leaseId → a.status ≠ .active → b.status ≠ .active

structure Inv (now : ℤ) (s : Store) : Prop where
  stored : ∀ item ∈ s.items, Stored item
  ids : ∀ lease ∈ s.leases, IsId lease.leaseId ∧ IsId lease.itemId
  agree : ∀ lease ∈ s.currentLeaseRecords, lease.live now = true →
    ∃ item, lastFor Store.itemKey lease.itemId s.items = some item ∧ Agrees item lease
  ended : EndedStay s.leases

/-- No lease of the item is live. -/
def Store.Idle (s : Store) (now : ℤ) (itemId : String) : Prop :=
  ∀ lease ∈ s.currentLeaseRecords, lease.itemId = itemId → lease.live now = false

section Reads

variable {s : Store} {now : ℤ}

theorem Store.itemKey_eq {item : WorkItem} {id : String} (hid : id ≠ "") :
    Store.itemKey item = some id ↔ item.itemId = id := by
  unfold Store.itemKey
  split <;> simp_all

theorem Store.leaseKey_eq {lease : WorkLease} {id : String} (hid : id ≠ "") :
    Store.leaseKey lease = some id ↔ lease.leaseId = id := by
  unfold Store.leaseKey
  split <;> simp_all

theorem Store.mem_currentLeaseRecords {lease : WorkLease} :
    lease ∈ s.currentLeaseRecords ↔
      lease.leaseId ≠ "" ∧ lastFor Store.leaseKey lease.leaseId s.leases = some lease := by
  rw [Store.currentLeaseRecords, mem_latestById]
  constructor
  · rintro ⟨k, hk, hlast⟩
    unfold Store.leaseKey at hk
    split at hk
    · cases hk
    · rename_i hne
      obtain rfl := Option.some.inj hk
      exact ⟨hne, hlast⟩
  · rintro ⟨hne, hlast⟩
    exact ⟨lease.leaseId, (Store.leaseKey_eq hne).mpr rfl, hlast⟩

theorem Store.mem_leases {lease : WorkLease} (h : lease ∈ s.currentLeaseRecords) :
    lease ∈ s.leases :=
  (mem_of_lastFor (Store.mem_currentLeaseRecords.mp h).2).1

/-- Current records of one id are one record. -/
theorem Store.current_unique {lease lease' : WorkLease} (h : lease ∈ s.currentLeaseRecords)
    (h' : lease' ∈ s.currentLeaseRecords) (heq : lease.leaseId = lease'.leaseId) :
    lease = lease' := by
  have hlast := (Store.mem_currentLeaseRecords.mp h).2
  rw [heq, (Store.mem_currentLeaseRecords.mp h').2] at hlast
  exact (Option.some.inj hlast).symm

theorem Store.mem_currentWorkItems {item : WorkItem} :
    item ∈ s.currentWorkItems ↔ item ∈ latestById Store.itemKey s.items :=
  List.mem_insertionSort _

theorem Store.currentWorkItem_eq (id : String) :
    s.currentWorkItem id =
      if isBlank id then none else lastFor Store.itemKey (trim id) s.items := by
  unfold Store.currentWorkItem
  by_cases hblank : isBlank id
  · rw [if_pos hblank, if_pos hblank]
  · have hne : trim id ≠ "" := by simpa [isBlank] using hblank
    rw [if_neg hblank, if_neg hblank, ← find_current fun q => Store.mem_currentWorkItems]
    simp only [Store.itemKey_eq hne]

theorem Store.currentWorkItem_of_id {id : String} (hid : IsId id) :
    s.currentWorkItem id = lastFor Store.itemKey id s.items := by
  rw [Store.currentWorkItem_eq, isBlank, hid.1, if_neg (by simpa using hid.2)]

theorem Store.currentWorkItem_some {id : String} {item : WorkItem}
    (h : s.currentWorkItem id = some item) :
    IsId item.itemId ∧ lastFor Store.itemKey item.itemId s.items = some item := by
  rw [Store.currentWorkItem_eq] at h
  split at h
  · cases h
  · rename_i hblank
    have hne : trim id ≠ "" := by simpa [isBlank] using hblank
    have hid := (Store.itemKey_eq hne).mp (mem_of_lastFor h).2
    rw [hid]
    exact ⟨⟨Js.trim_trim id, hne⟩, h⟩

theorem Store.currentLeaseById_some {id : String} {lease : WorkLease}
    (h : s.currentLeaseById id = some lease) :
    lease ∈ s.currentLeaseRecords ∧ lease.leaseId = trim id := by
  unfold Store.currentLeaseById at h
  split at h
  · cases h
  · exact ⟨List.mem_of_find?_eq_some h, by simpa using List.find?_some h⟩

theorem Store.idle_of_none {itemId : String} (h : s.currentLeaseForItem now itemId = none) :
    s.Idle now itemId := by
  intro lease hmem hitem
  rw [Store.currentLeaseForItem, List.getLast?_eq_none_iff] at h
  cases hlive : lease.live now with
  | false => rfl
  | true =>
      have hin : lease ∈ s.currentLeaseRecords.filter fun lease =>
          lease.itemId = itemId && lease.live now :=
        List.mem_filter.mpr ⟨hmem, by simp [hitem, hlive]⟩
      rw [← List.mem_insertionSort fun a b : WorkLease => a.renewedAt ≤ b.renewedAt, h] at hin
      cases hin

theorem Store.currentLeaseForItem_some {itemId : String} {lease : WorkLease}
    (h : s.currentLeaseForItem now itemId = some lease) :
    lease ∈ s.currentLeaseRecords ∧ lease.itemId = itemId ∧ lease.live now = true := by
  have hmem := List.mem_filter.mp ((List.mem_insertionSort _).mp (List.mem_of_getLast? h))
  simpa using hmem

end Reads

section Appends

variable {s : Store} {now : ℤ}

theorem Store.mem_append_lease {r lease : WorkLease} (hr : r.leaseId ≠ "") :
    lease ∈ Store.currentLeaseRecords { s with leases := s.leases ++ [r] } ↔
      lease = r ∨ lease ∈ s.currentLeaseRecords ∧ lease.leaseId ≠ r.leaseId := by
  rw [Store.currentLeaseRecords, latestById_concat,
    mem_latestStep ((Store.leaseKey_eq hr).mpr rfl), Store.currentLeaseRecords]
  simp only [ne_eq, Store.leaseKey_eq hr]

theorem Inv.advance {now' : ℤ} (h : Inv now s) (hle : now ≤ now') : Inv now' s where
  stored := h.stored
  ids := h.ids
  agree lease hmem hlive := by
    refine h.agree lease hmem ?_
    simp only [WorkLease.live, Bool.and_eq_true, decide_eq_true_eq] at hlive ⊢
    exact ⟨hlive.1, lt_of_le_of_lt hle hlive.2⟩
  ended := h.ended

/-- Two live leases of one item are one lease. -/
theorem Inv.exclusive {lease lease' : WorkLease} (h : Inv now s)
    (hmem : lease ∈ s.currentLeaseRecords) (hlive : lease.live now = true)
    (hmem' : lease' ∈ s.currentLeaseRecords) (hlive' : lease'.live now = true)
    (hitem : lease.itemId = lease'.itemId) : lease = lease' := by
  obtain ⟨item, hlast, hagree⟩ := h.agree lease hmem hlive
  obtain ⟨item', hlast', hagree'⟩ := h.agree lease' hmem' hlive'
  rw [hitem, hlast'] at hlast
  obtain rfl := Option.some.inj hlast
  have hid : some lease.leaseId = some lease'.leaseId := hagree.leaseId.symm.trans hagree'.leaseId
  exact Store.current_unique hmem hmem' (Option.some.inj hid)

/-- What the records of a live lease say about the current snapshot of its item. -/
theorem Inv.agrees {lease : WorkLease} {item : WorkItem} (h : Inv now s)
    (hmem : lease ∈ s.currentLeaseRecords) (hlive : lease.live now = true)
    (hlast : lastFor Store.itemKey item.itemId s.items = some item)
    (hitem : lease.itemId = item.itemId) : Agrees item lease := by
  obtain ⟨item', hlast', hagree⟩ := h.agree lease hmem hlive
  rw [hitem, hlast] at hlast'
  obtain rfl := Option.some.inj hlast'
  exact hagree

theorem Inv.appendItem {x : WorkItem} (h : Inv now s) (hx : Stored x)
    (hagree : ∀ lease ∈ s.currentLeaseRecords, lease.live now = true →
      lease.itemId = x.itemId → Agrees x lease) :
    Inv now { s with items := s.items ++ [x] } where
  stored item hmem := by
    rcases List.mem_append.mp hmem with hold | hnew
    · exact h.stored item hold
    · exact List.mem_singleton.mp hnew ▸ hx
  ids := h.ids
  agree lease hmem hlive := by
    obtain ⟨item, hlast, hold⟩ := h.agree lease hmem hlive
    have hid := (h.ids lease (Store.mem_leases hmem)).2.2
    simp only [lastFor_concat, Store.itemKey_eq hid]
    by_cases hx' : x.itemId = lease.itemId
    · exact ⟨x, by rw [if_pos hx'], hagree lease hmem hlive hx'.symm⟩
    · exact ⟨item, by rw [if_neg hx', hlast], hold⟩
  ended := h.ended

theorem EndedStay.append {leases : List WorkLease} {r : WorkLease} (h : EndedStay leases)
    (hr : ∀ a ∈ leases, a.leaseId = r.leaseId → a.status ≠ .active → r.status ≠ .active) :
    EndedStay (leases ++ [r]) := by
  refine List.pairwise_append.mpr ⟨h, List.pairwise_singleton _ _, ?_⟩
  intro a ha b hb
  obtain rfl := List.mem_singleton.mp hb
  exact hr a ha

theorem Inv.endLease {r : WorkLease} (h : Inv now s) (hids : IsId r.leaseId ∧ IsId r.itemId)
    (hr : r.status ≠ .active) : Inv now { s with leases := s.leases ++ [r] } where
  stored := h.stored
  ids lease hmem := by
    rcases List.mem_append.mp hmem with hold | hnew
    · exact h.ids lease hold
    · exact List.mem_singleton.mp hnew ▸ hids
  agree lease hmem hlive := by
    rcases (Store.mem_append_lease hids.1.2).mp hmem with rfl | ⟨hold, -⟩
    · simp [WorkLease.live, hr] at hlive
    · exact h.agree lease hold hlive
  ended := h.ended.append fun _ _ _ _ => hr

/-- After the end of the only lease of an item that could be live, none is. -/
theorem Store.idle_endLease {r : WorkLease} {itemId : String} (hid : r.leaseId ≠ "")
    (hr : r.status ≠ .active)
    (honly : ∀ lease ∈ s.currentLeaseRecords, lease.itemId = itemId → lease.live now = true →
      lease.leaseId = r.leaseId) :
    Store.Idle { s with leases := s.leases ++ [r] } now itemId := by
  intro lease hmem hitem
  rcases (Store.mem_append_lease hid).mp hmem with rfl | ⟨hold, hne⟩
  · simp [WorkLease.live, hr]
  · cases hlive : lease.live now with
    | false => rfl
    | true => exact absurd (honly lease hold hitem hlive) hne

/-- A current record that is active has only active records before it. -/
theorem Inv.active_before {lease a : WorkLease} (h : Inv now s)
    (hmem : lease ∈ s.currentLeaseRecords) (hactive : lease.status = .active)
    (ha : a ∈ s.leases) (hid : a.leaseId = lease.leaseId) : a.status = .active := by
  obtain ⟨hne, hlast⟩ := Store.mem_currentLeaseRecords.mp hmem
  have hsub : (s.leases.filter fun l => Store.leaseKey l = some lease.leaseId).Pairwise
      fun a b => a.leaseId = b.leaseId → a.status ≠ .active → b.status ≠ .active :=
    h.ended.filter _
  have hin : a ∈ s.leases.filter fun l => Store.leaseKey l = some lease.leaseId := by
    simp only [List.mem_filter, decide_eq_true_eq]
    exact ⟨ha, (Store.leaseKey_eq hne).mpr hid⟩
  obtain ⟨init, hinit⟩ := List.getLast?_eq_some_iff.mp hlast
  rw [hinit] at hsub hin
  rcases List.mem_append.mp hin with hold | hself
  · by_contra hended
    exact (List.pairwise_append.mp hsub).2.2 a hold lease (by simp) hid hended hactive
  · rw [List.mem_singleton.mp hself, hactive]

theorem Inv.renewLease {lease : WorkLease} {expiresAt renewedAt : ℤ} (h : Inv now s)
    (hmem : lease ∈ s.currentLeaseRecords) (hlive : lease.live now = true) :
    Inv now { s with leases := s.leases ++
      [{ lease with expiresAt := expiresAt, renewedAt := renewedAt }] } where
  stored := h.stored
  ids lease' hmem' := by
    rcases List.mem_append.mp hmem' with hold | hnew
    · exact h.ids lease' hold
    · rw [List.mem_singleton.mp hnew]
      exact h.ids lease (Store.mem_leases hmem)
  agree lease' hmem' hlive' := by
    have hne := (Store.mem_currentLeaseRecords.mp hmem).1
    have hcases := (Store.mem_append_lease (s := s)
      (r := { lease with expiresAt := expiresAt, renewedAt := renewedAt }) hne).mp hmem'
    rcases hcases with rfl | ⟨hold, -⟩
    · obtain ⟨item, hlast, hagree⟩ := h.agree lease hmem hlive
      exact ⟨item, hlast, hagree.leaseId, hagree.holder, hagree.open_⟩
    · exact h.agree lease' hold hlive'
  ended := by
    have hactive : lease.status = .active := by
      simp only [WorkLease.live, Bool.and_eq_true, decide_eq_true_eq] at hlive
      exact hlive.1
    exact h.ended.append fun a ha hid hended =>
      absurd (h.active_before hmem hactive ha hid) hended

/-- A new lease of an idle item, and the snapshot that carries it. -/
theorem Inv.grantLease {r : WorkLease} {x : WorkItem} (h : Inv now s)
    (hids : IsId r.leaseId ∧ IsId r.itemId) (hidle : s.Idle now r.itemId)
    (hfresh : ∀ lease ∈ s.leases, lease.leaseId ≠ r.leaseId) (hx : Stored x)
    (hitem : x.itemId = r.itemId) (hagree : Agrees x r) :
    Inv now ⟨s.items ++ [x], s.leases ++ [r]⟩ where
  stored item hmem := by
    rcases List.mem_append.mp hmem with hold | hnew
    · exact h.stored item hold
    · exact List.mem_singleton.mp hnew ▸ hx
  ids lease hmem := by
    rcases List.mem_append.mp hmem with hold | hnew
    · exact h.ids lease hold
    · exact List.mem_singleton.mp hnew ▸ hids
  agree lease hmem hlive := by
    rcases (Store.mem_append_lease (s := s) hids.1.2).mp hmem with rfl | ⟨hold, -⟩
    · refine ⟨x, ?_, hagree⟩
      rw [lastFor_concat, if_pos ((Store.itemKey_eq hids.2.2).mpr hitem)]
    · have hne : lease.itemId ≠ r.itemId := by
        intro heq
        rw [hidle lease hold heq] at hlive
        cases hlive
      obtain ⟨item, hlast, hold'⟩ := h.agree lease hold hlive
      have hid := (h.ids lease (Store.mem_leases hold)).2.2
      refine ⟨item, ?_, hold'⟩
      rw [lastFor_concat, if_neg, hlast]
      rw [Store.itemKey_eq hid, hitem]
      exact fun heq => hne heq.symm
  ended := h.ended.append fun a ha hid => absurd hid (hfresh a ha)

end Appends

end Kyberion.Work
