import Kyberion.Mission.Lease
import Mathlib.Data.Int.ConditionallyCompleteOrder

/-!
One holder for each resource. Every lease that a manager knows is of the
generation of its resource's record or of an older one, so a renewal that is not
of the current generation is refused. A release is not: it writes its own fence
over the record, and all is well only while no older lease is released.
-/

namespace Kyberion.Mission

open Js

section Ids

theorem hyphen_notMem_toDigits (n : ℕ) : '-' ∉ Nat.toDigits 10 n := by
  intro hmem
  have hdigit := Nat.isDigit_of_mem_toDigits (by decide) (by decide) hmem
  revert hdigit
  decide

/-- What follows the last hyphen is settled by the text. -/
theorem append_hyphen_inj {a b d e : List Char} (hd : '-' ∉ d) (he : '-' ∉ e)
    (h : a ++ '-' :: d = b ++ '-' :: e) : a = b ∧ d = e := by
  rcases List.append_eq_append_iff.mp h with ⟨c, rfl, hc⟩ | ⟨c, rfl, hc⟩
  · cases c with
    | nil =>
        simp only [List.nil_append, List.cons.injEq, true_and] at hc
        exact ⟨by simp, hc⟩
    | cons x c =>
        simp only [List.cons_append, List.cons.injEq] at hc
        exact absurd (hc.2 ▸ by simp) hd
  · cases c with
    | nil =>
        simp only [List.nil_append, List.cons.injEq, true_and] at hc
        exact ⟨by simp, hc.symm⟩
    | cons x c =>
        simp only [List.cons_append, List.cons.injEq] at hc
        exact absurd (hc.2 ▸ by simp) he

theorem leaseIdFor_inj {resource resource' : String} {fence fence' : ℕ}
    (h : leaseIdFor resource fence = leaseIdFor resource' fence') :
    resource = resource' ∧ fence = fence' := by
  have hlist := congrArg String.toList h
  simp only [leaseIdFor, String.toList_append, List.append_assoc, List.append_cancel_left_eq,
    Nat.toString_eq_ofList_toDigits, String.toList_ofList] at hlist
  obtain ⟨hresource, hfence⟩ :=
    append_hyphen_inj (hyphen_notMem_toDigits fence) (hyphen_notMem_toDigits fence') hlist
  refine ⟨String.toList_inj.mp hresource, ?_⟩
  rw [← Nat.ofDigitChars_ten_toDigits (n := fence), hfence, Nat.ofDigitChars_ten_toDigits]

end Ids

section Local

variable {T : Type} {leaseKeyFor : String → String} {m : Manager T}
  {backend backend' : Backend T} {resource : String} {lease : StoredLease T}
  {durable : FencedLeaseRecord T}

variable (leaseKeyFor) in
/-- The fence of the record of a resource. -/
def fenceOf (backend : Backend T) (resource : String) : ℕ :=
  ((backend (leaseKeyFor resource)).map fun record => record.fence).getD 0

variable (leaseKeyFor) in
/-- The lease is of the generation of the record, or of an older one. -/
def Known (backend : Backend T) (lease : StoredLease T) : Prop :=
  ∃ durable, backend (leaseKeyFor lease.resourceId) = some durable ∧
    lease.fence ≤ durable.fence ∧ (lease.fence = durable.fence → lease.holder = durable.ownerId)

variable (leaseKeyFor) in
/-- What a manager holds agrees with the records. -/
structure Local (backend : Backend T) (m : Manager T) : Prop where
  ids : ∀ id lease, m.leases id = some lease →
    lease.leaseId = id ∧ id = leaseIdFor lease.resourceId lease.fence
  slots : ∀ resource slot id, m.resources resource = some slot → slot.leaseId = some id →
    ∃ lease, m.leases id = some lease ∧ lease.resourceId = resource
  known : ∀ id lease, m.leases id = some lease → Known leaseKeyFor backend lease
  fences : ∀ resource slot, m.resources resource = some slot →
    slot.fence ≤ fenceOf leaseKeyFor backend resource

variable (leaseKeyFor) in
def Records (backend : Backend T) : Prop :=
  ∀ resource durable, backend (leaseKeyFor resource) = some durable →
    durable.resourceId = resource

theorem Local.new : Local leaseKeyFor backend (.new T) where
  ids id lease h := by cases h
  slots resource slot id h := by cases h
  known id lease h := by cases h
  fences resource slot h := by cases h

theorem fenceOf_eq (h : backend (leaseKeyFor resource) = some durable) :
    fenceOf leaseKeyFor backend resource = durable.fence := by
  simp [fenceOf, h]

theorem Local.setLease (h : Local leaseKeyFor backend m) (lease : StoredLease T)
    (hid : lease.leaseId = leaseIdFor lease.resourceId lease.fence)
    (hknown : Known leaseKeyFor backend lease) :
    Local leaseKeyFor backend (m.setLease lease.leaseId lease) := by
  have hget (id : String) : (m.setLease lease.leaseId lease).leases id =
      if id = lease.leaseId then some lease else m.leases id := Function.update_apply _ _ _ _
  refine ⟨fun id other hother => ?_, fun resource slot id hslot hlatest => ?_,
    fun id other hother => ?_, h.fences⟩
  · rw [hget] at hother
    split at hother
    · rename_i hsame
      obtain rfl := Option.some.inj hother
      exact ⟨hsame.symm, hsame.trans hid⟩
    · exact h.ids id other hother
  · obtain ⟨old, hold, hresource⟩ := h.slots resource slot id hslot hlatest
    rw [hget]
    split
    · rename_i hsame
      have holdId := (h.ids id old hold).2
      rw [hsame, hid] at holdId
      exact ⟨lease, rfl, (leaseIdFor_inj holdId).1.trans hresource⟩
    · exact ⟨old, hold, hresource⟩
  · rw [hget] at hother
    split at hother
    · obtain rfl := Option.some.inj hother
      exact hknown
    · exact h.known id other hother

theorem Local.setSlot {slot : ResourceLeaseSlot T} (h : Local leaseKeyFor backend m)
    (hlatest : ∀ id, slot.leaseId = some id →
      ∃ lease, m.leases id = some lease ∧ lease.resourceId = resource)
    (hfence : slot.fence ≤ fenceOf leaseKeyFor backend resource) :
    Local leaseKeyFor backend (m.setSlot resource slot) := by
  have hget (other : String) : (m.setSlot resource slot).resources other =
      if other = resource then some slot else m.resources other := Function.update_apply _ _ _ _
  refine ⟨h.ids, fun other old id hold hid => ?_, h.known, fun other old hold => ?_⟩
  · rw [hget] at hold
    split at hold
    · rename_i hsame
      obtain rfl := Option.some.inj hold
      exact hsame ▸ hlatest id hid
    · exact h.slots other old id hold hid
  · rw [hget] at hold
    split at hold
    · rename_i hsame
      obtain rfl := Option.some.inj hold
      exact hsame ▸ hfence
    · exact h.fences other old hold

theorem Local.slot_latest (h : Local leaseKeyFor backend m) {id : String}
    (hid : (m.slot resource).leaseId = some id) :
    ∃ lease, m.leases id = some lease ∧ lease.resourceId = resource := by
  unfold Manager.slot at hid
  cases hslot : m.resources resource with
  | none =>
      rw [hslot] at hid
      cases hid
  | some slot =>
      rw [hslot] at hid
      exact h.slots resource slot id hslot hid

theorem Local.slot_fence (h : Local leaseKeyFor backend m) (resource : String) :
    (m.slot resource).fence ≤ fenceOf leaseKeyFor backend resource := by
  unfold Manager.slot
  cases hslot : m.resources resource with
  | none => exact Nat.zero_le _
  | some slot => exact h.fences resource slot hslot

/-- The lease of a slot is a lease of its resource. -/
theorem Local.leaseOf (h : Local leaseKeyFor backend m)
    (hlease : m.leaseOf (m.slot resource) = some lease) :
    (m.slot resource).leaseId = some lease.leaseId ∧ m.leases lease.leaseId = some lease ∧
      lease.resourceId = resource := by
  obtain ⟨id, hid, hget⟩ := Option.bind_eq_some_iff.mp hlease
  obtain ⟨other, hother, hresource⟩ := h.slot_latest hid
  obtain rfl := Option.some.inj (hget.symm.trans hother)
  obtain ⟨hsame, -⟩ := h.ids id lease hget
  rw [hsame]
  exact ⟨hid, hget, hresource⟩

/-- A slot whose fence has caught up with the record. -/
theorem Local.refreshed (h : Local leaseKeyFor backend m)
    (hdurable : backend (leaseKeyFor resource) = some durable) :
    Local leaseKeyFor backend (m.setSlot resource
      { m.slot resource with fence := max (m.slot resource).fence durable.fence }) := by
  refine h.setSlot (fun id hid => h.slot_latest hid) ?_
  have hfence := h.slot_fence resource
  rw [fenceOf_eq hdurable] at hfence ⊢
  exact max_le hfence le_rfl

/-- The backend has moved on: a generation keeps its owner. -/
def Advances (backend backend' : Backend T) : Prop :=
  ∀ key durable, backend key = some durable → ∃ durable', backend' key = some durable' ∧
    durable.fence ≤ durable'.fence ∧
      (durable.fence = durable'.fence → durable.ownerId = durable'.ownerId)

theorem Local.advances (h : Local leaseKeyFor backend m) (hadv : Advances backend backend') :
    Local leaseKeyFor backend' m := by
  refine ⟨h.ids, h.slots, fun id lease hlease => ?_, fun resource slot hslot => ?_⟩
  · obtain ⟨durable, hdurable, hle, howner⟩ := h.known id lease hlease
    obtain ⟨durable', hdurable', hle', howner'⟩ := hadv _ durable hdurable
    refine ⟨durable', hdurable', by omega, fun hsame => ?_⟩
    rw [howner (by omega), howner' (by omega)]
  · have hfence := h.fences resource slot hslot
    unfold fenceOf at hfence ⊢
    cases hdurable : backend (leaseKeyFor resource) with
    | none =>
        rw [hdurable] at hfence
        exact hfence.trans (Nat.zero_le _)
    | some durable =>
        obtain ⟨durable', hdurable', hle, -⟩ := hadv _ durable hdurable
        rw [hdurable] at hfence
        rw [hdurable']
        exact hfence.trans hle

/-- The next generation of a resource. -/
theorem Advances.persist {record : FencedLeaseRecord T} {resource : String}
    (hfence : fenceOf leaseKeyFor backend resource < record.fence) :
    Advances backend (Function.update backend (leaseKeyFor resource) (some record)) := by
  intro key durable hdurable
  rw [Function.update_apply]
  split
  · rename_i hkey
    subst hkey
    rw [fenceOf_eq hdurable] at hfence
    exact ⟨record, rfl, hfence.le, fun hsame => absurd hsame hfence.ne⟩
  · exact ⟨durable, hdurable, le_rfl, fun _ => rfl⟩

/-- The same generation of a resource, with another expiry. -/
theorem Advances.extend {record : FencedLeaseRecord T}
    (hdurable : backend (leaseKeyFor resource) = some durable)
    (hfence : record.fence = durable.fence) (howner : record.ownerId = durable.ownerId) :
    Advances backend (Function.update backend (leaseKeyFor resource) (some record)) := by
  intro key other hother
  rw [Function.update_apply]
  split
  · rename_i hkey
    subst hkey
    obtain rfl := Option.some.inj (hdurable.symm.trans hother)
    exact ⟨record, rfl, hfence.ge, fun _ => howner.symm⟩
  · exact ⟨other, hother, le_rfl, fun _ => rfl⟩

/-- Two leases under one id are of one generation. -/
theorem Local.same_generation {id : String} {lease other : StoredLease T} {m' : Manager T}
    (h : Local leaseKeyFor backend m) (h' : Local leaseKeyFor backend m')
    (hget : m.leases id = some lease) (hget' : m'.leases id = some other) :
    lease.resourceId = other.resourceId ∧ lease.fence = other.fence :=
  leaseIdFor_inj ((h.ids id lease hget).2.symm.trans (h'.ids id other hget').2)

theorem latest_setSlot (m : Manager T) (resource : String) (slot : ResourceLeaseSlot T) :
    ((m.setSlot resource slot).resources resource).bind (fun slot => slot.leaseId) =
      slot.leaseId := by
  unfold Manager.setSlot
  dsimp only
  rw [Function.update_self, Option.bind_some]

theorem Local.take {stored : StoredLease T} (h : Local leaseKeyFor backend m)
    (hid : stored.leaseId = leaseIdFor stored.resourceId stored.fence)
    (hfence : stored.fence = fenceOf leaseKeyFor backend stored.resourceId + 1)
    (contenders : List (String × T)) :
    Local leaseKeyFor (persistLive leaseKeyFor backend stored)
      ((m.setLease stored.leaseId stored).setSlot stored.resourceId
        ⟨stored.fence, some stored.leaseId, contenders⟩) := by
  have hrecord : persistLive leaseKeyFor backend stored (leaseKeyFor stored.resourceId) =
      some (toDurable stored) := Function.update_self _ _ _
  have hadvances : Advances backend (persistLive leaseKeyFor backend stored) := by
    refine .persist ?_
    show fenceOf leaseKeyFor backend stored.resourceId < stored.fence
    omega
  have hlease := (h.advances hadvances).setLease stored hid ⟨_, hrecord, le_rfl, fun _ => rfl⟩
  refine hlease.setSlot (fun id hlatest => ?_) (fenceOf_eq hrecord).ge
  obtain rfl := Option.some.inj hlatest
  exact ⟨stored, Function.update_self _ _ _, rfl⟩

theorem synthesizeFromDurable_known (hdurable : backend (leaseKeyFor resource) = some durable)
    (hresource : durable.resourceId = resource) :
    Known leaseKeyFor backend (synthesizeFromDurable durable) :=
  ⟨durable, (congrArg (backend ∘ leaseKeyFor) hresource).trans hdurable, le_rfl, fun _ => rfl⟩

theorem records_update {record : FencedLeaseRecord T} (hkey : Function.Injective leaseKeyFor)
    (h : Records leaseKeyFor backend) (hresource : record.resourceId = resource) :
    Records leaseKeyFor (Function.update backend (leaseKeyFor resource) (some record)) := by
  intro other durable hdurable
  rw [Function.update_apply] at hdurable
  split at hdurable
  · rename_i hsame
    obtain rfl := Option.some.inj hdurable
    exact hresource.trans (hkey hsame).symm
  · exact h other durable hdurable

theorem fenceOf_mono (hadv : Advances backend backend') :
    fenceOf leaseKeyFor backend resource ≤ fenceOf leaseKeyFor backend' resource := by
  unfold fenceOf
  cases hdurable : backend (leaseKeyFor resource) with
  | none => exact Nat.zero_le _
  | some durable =>
      obtain ⟨durable', hdurable', hle, -⟩ := hadv _ durable hdurable
      rw [hdurable']
      exact hle

end Local

section Live

variable {T : Type} [LinearOrder T] {num : Numbers T} {leaseKeyFor : String → String}
  {m : Manager T} {backend : Backend T} {resource : String} {now : T}
  {lease : StoredLease T} {durable : FencedLeaseRecord T}

/-- The lease is the generation of a record that is live at the instant. -/
def Projects (durable : FencedLeaseRecord T) (lease : StoredLease T) : Prop :=
  lease.resourceId = durable.resourceId ∧ lease.fence = durable.fence ∧
    lease.holder = durable.ownerId ∧ lease.expiresAtMs = durable.expiresAtMs

/-- A live record leaves its generation as the latest lease of the slot. -/
theorem hydrateFromDurable_spec (h : Local leaseKeyFor backend m)
    (hrecords : Records leaseKeyFor backend)
    (hdurable : backend (leaseKeyFor resource) = some durable)
    (hlive : now < durable.expiresAtMs) :
    Local leaseKeyFor backend (hydrateFromDurable m resource
        { m.slot resource with fence := max (m.slot resource).fence durable.fence } durable now).1 ∧
      ∃ live, (hydrateFromDurable m resource
        { m.slot resource with fence := max (m.slot resource).fence durable.fence } durable now).2 =
          some live ∧ Projects durable live := by
  have hresource := hrecords resource durable hdurable
  have hrefreshed := h.refreshed hdurable
  have hlease : Local leaseKeyFor backend
      (m.setLease (synthesizeFromDurable durable).leaseId (synthesizeFromDurable durable)) :=
    h.setLease _ rfl (synthesizeFromDurable_known hdurable hresource)
  have hsynthesized : Local leaseKeyFor backend
      ((m.setLease (synthesizeFromDurable durable).leaseId (synthesizeFromDurable durable)).setSlot
        resource
        { m.slot resource with
          leaseId := some (synthesizeFromDurable durable).leaseId
          fence := max (max (m.slot resource).fence durable.fence) durable.fence }) := by
    refine hlease.setSlot (fun id hid => ?_) ?_
    · obtain rfl := Option.some.inj hid
      exact ⟨synthesizeFromDurable durable, Function.update_self _ _ _, hresource⟩
    · have hfence := h.slot_fence resource
      rw [fenceOf_eq hdurable] at hfence ⊢
      exact max_le (max_le hfence le_rfl) le_rfl
  unfold hydrateFromDurable
  rw [if_neg (not_le_of_gt hlive)]
  dsimp only
  cases hexisting : m.leaseOf (m.slot resource) with
  | none =>
      have hnone : m.leaseOf { m.slot resource with
          fence := max (m.slot resource).fence durable.fence } = none := hexisting
      rw [hnone]
      exact ⟨hsynthesized, _, rfl, rfl, rfl, rfl, rfl⟩
  | some existing =>
      have hsome : m.leaseOf { m.slot resource with
          fence := max (m.slot resource).fence durable.fence } = some existing := hexisting
      rw [hsome]
      dsimp only
      split
      · rename_i hmatches
        simp only [matchesDurable, Bool.and_eq_true, decide_eq_true_eq] at hmatches
        obtain ⟨⟨hfence, hholder⟩, -⟩ := hmatches
        obtain ⟨-, hget, hown⟩ := h.leaseOf hexisting
        obtain ⟨-, hid⟩ := h.ids _ existing hget
        refine ⟨?_, _, rfl, hown.trans hresource.symm, hfence, hholder, rfl⟩
        exact hrefreshed.setLease { existing with expiresAtMs := durable.expiresAtMs } hid
          (h.known _ existing hget)
      · exact ⟨hsynthesized, _, rfl, rfl, rfl, rfl, rfl⟩

theorem lapse_same (num : Numbers T) (durable : FencedLeaseRecord T) (now : T)
    (lease : StoredLease T) :
    (lapse num durable now lease).leaseId = lease.leaseId ∧
      (lapse num durable now lease).resourceId = lease.resourceId ∧
      (lapse num durable now lease).fence = lease.fence ∧
      (lapse num durable now lease).holder = lease.holder := by
  unfold lapse
  dsimp only
  split <;> exact ⟨rfl, rfl, rfl, rfl⟩

/-- What `liveLeaseOf` finds is the generation of a live record; else nothing is live. -/
theorem liveLeaseOf_spec (h : Local leaseKeyFor backend m)
    (hrecords : Records leaseKeyFor backend) (num : Numbers T) (resource : String) (now : T) :
    Local leaseKeyFor backend (liveLeaseOf num leaseKeyFor m backend resource now).1 ∧
      match (liveLeaseOf num leaseKeyFor m backend resource now).2 with
      | some live => ∃ durable, backend (leaseKeyFor resource) = some durable ∧
          now < durable.expiresAtMs ∧ Projects durable live
      | none => ∀ durable, backend (leaseKeyFor resource) = some durable →
          durable.expiresAtMs ≤ now := by
  cases hdurable : backend (leaseKeyFor resource) with
  | none =>
      cases hslot : m.resources resource with
      | none =>
          simp only [liveLeaseOf, hdurable, hslot]
          exact ⟨h, fun durable hnone => nomatch hnone⟩
      | some slot =>
          have hlease : m.leaseOf slot = none := by
            cases hlease : m.leaseOf slot with
            | none => rfl
            | some lease =>
                -- every lease there is belongs to a record
                obtain ⟨id, hid, hget⟩ := Option.bind_eq_some_iff.mp hlease
                obtain ⟨other, hother, hresource⟩ := h.slots resource slot id hslot hid
                obtain ⟨durable, hsome, -⟩ := h.known id other hother
                rw [hresource, hdurable] at hsome
                cases hsome
          simp only [liveLeaseOf, hdurable, hslot, hlease, Option.filter_none]
          exact ⟨h, fun durable hnone => nomatch hnone⟩
  | some durable =>
      by_cases hlive : now < durable.expiresAtMs
      · simp only [liveLeaseOf, hdurable, if_pos hlive]
        obtain ⟨hlocal, live, hsome, hprojects⟩ := hydrateFromDurable_spec h hrecords hdurable hlive
        refine ⟨hlocal, ?_⟩
        rw [hsome]
        exact ⟨durable, rfl, hlive, hprojects⟩
      · have hlapsed : ∀ other, some durable = some other → other.expiresAtMs ≤ now := by
          intro other hother
          obtain rfl := Option.some.inj hother
          exact le_of_not_gt hlive
        cases hslot : m.resources resource with
        | none =>
            simp only [liveLeaseOf, hdurable, if_neg hlive, hslot]
            exact ⟨h, hlapsed⟩
        | some slot =>
            have hrefreshed := h.refreshed hdurable
            have hsame : m.slot resource = slot := by simp [Manager.slot, hslot]
            rw [hsame] at hrefreshed
            simp only [liveLeaseOf, hdurable, if_neg hlive, hslot]
            cases hlease : m.leaseOf slot with
            | none => exact ⟨hrefreshed, hlapsed⟩
            | some lease =>
                dsimp only
                split
                · have hlatest : m.leaseOf (m.slot resource) = some lease := hsame ▸ hlease
                  obtain ⟨-, hget, -⟩ := h.leaseOf hlatest
                  obtain ⟨-, hid⟩ := h.ids _ lease hget
                  obtain ⟨hleaseId, hresource, hfence, hholder⟩ := lapse_same num durable now lease
                  refine ⟨?_, hlapsed⟩
                  rw [← hleaseId]
                  refine hrefreshed.setLease _ (by rw [hleaseId, hresource, hfence]; exact hid) ?_
                  unfold Known
                  rw [hresource, hfence, hholder]
                  exact h.known _ lease hget
                · exact ⟨hrefreshed, hlapsed⟩

/-- While the record is live its generation is the latest lease of the slot. -/
theorem liveLeaseOf_latest (h : Local leaseKeyFor backend m)
    (hrecords : Records leaseKeyFor backend)
    (hdurable : backend (leaseKeyFor resource) = some durable)
    (hlive : now < durable.expiresAtMs) :
    ((liveLeaseOf num leaseKeyFor m backend resource now).1.resources resource).bind
      (fun slot => slot.leaseId) = some (leaseIdFor resource durable.fence) := by
  have hresource := hrecords resource durable hdurable
  simp only [liveLeaseOf, hdurable, if_pos hlive]
  unfold hydrateFromDurable
  rw [if_neg (not_le_of_gt hlive)]
  dsimp only
  split
  · rename_i existing hexisting
    obtain ⟨hlatest, hget, hown⟩ := h.leaseOf hexisting
    split
    · rename_i hmatches
      simp only [matchesDurable, Bool.and_eq_true, decide_eq_true_eq] at hmatches
      refine (latest_setSlot m _ _).trans (hlatest.trans ?_)
      rw [(h.ids _ existing hget).2, hown, hmatches.1.1]
    · exact (latest_setSlot m _ _).trans (congrArg some (congrArg (leaseIdFor · _) hresource))
  · exact (latest_setSlot m _ _).trans (congrArg some (congrArg (leaseIdFor · _) hresource))

/-- Once the record has lapsed the latest lease of the slot is over. -/
theorem liveLeaseOf_lapsed (h : Local leaseKeyFor backend m)
    (hdurable : backend (leaseKeyFor resource) = some durable)
    (hlapsed : durable.expiresAtMs ≤ now) (hget : m.leases lease.leaseId = some lease)
    (hlatest : ((liveLeaseOf num leaseKeyFor m backend resource now).1.resources resource).bind
      (fun slot => slot.leaseId) = some lease.leaseId) :
    ∃ last, (liveLeaseOf num leaseKeyFor m backend resource now).1.leases lease.leaseId =
      some last ∧ (last.status = .released ∨ last.expiresAtMs ≤ now) := by
  cases hslot : m.resources resource with
  | none =>
      simp only [liveLeaseOf, hdurable, if_neg (not_lt_of_ge hlapsed), hslot] at hlatest
      cases hlatest
  | some slot =>
      have hid : slot.leaseId = some lease.leaseId := by
        have hcaught := latest_setSlot m resource
          { slot with fence := max slot.fence durable.fence }
        simp only [liveLeaseOf, hdurable, if_neg (not_lt_of_ge hlapsed), hslot] at hlatest
        split at hlatest
        · split at hlatest <;> exact hcaught.symm.trans hlatest
        · exact hcaught.symm.trans hlatest
      have hlease : m.leaseOf slot = some lease := by
        rw [Manager.leaseOf, hid, Option.bind_some, hget]
      obtain ⟨other, hother, hle, -⟩ := h.known _ lease hget
      obtain ⟨found, hfound, hresource⟩ := h.slots resource slot _ hslot hid
      obtain rfl := Option.some.inj (hget.symm.trans hfound)
      rw [hresource, hdurable] at hother
      obtain rfl := Option.some.inj hother
      simp only [liveLeaseOf, hdurable, if_neg (not_lt_of_ge hlapsed), hslot, hlease]
      split
      · refine ⟨_, Function.update_self _ _ _, ?_⟩
        unfold lapse
        dsimp only
        split
        · exact .inl rfl
        · exact .inr ((min_le_right _ _).trans hlapsed)
      · rename_i hover
        refine ⟨lease, hget, .inl ?_⟩
        cases hstatus : lease.status with
        | active => exact absurd ⟨hstatus, hle⟩ hover
        | released => rfl

end Live

section Renew

variable {T : Type} [LinearOrder T] {num : Numbers T} {leaseKeyFor : String → String}
  {m : Manager T} {backend : Backend T} {now : T}

/-- A renewal finds nothing wrong only with the generation of a live record. -/
theorem renewIssues_nil (h : Local leaseKeyFor backend m)
    (hrecords : Records leaseKeyFor backend) {leaseId holder : String}
    {peeked stored : StoredLease T} (hpeeked : m.leases leaseId = some peeked)
    (hstored : stored = if hydratedId leaseKeyFor m backend peeked.resourceId now = some leaseId
      then peeked
      else ((liveLeaseOf num leaseKeyFor m backend peeked.resourceId now).1.leases leaseId).getD
        peeked)
    (hissues : renewIssues (liveLeaseOf num leaseKeyFor m backend peeked.resourceId now).1 leaseId
      holder stored now = []) :
    ∃ durable, backend (leaseKeyFor stored.resourceId) = some durable ∧
      now < durable.expiresAtMs ∧ stored.leaseId = leaseId ∧
      leaseId = leaseIdFor stored.resourceId stored.fence ∧ stored.fence = durable.fence ∧
      stored.holder = durable.ownerId := by
  obtain ⟨hlocal, -⟩ := liveLeaseOf_spec h hrecords num peeked.resourceId now
  obtain ⟨hpeekedId, hpeekedName⟩ := h.ids _ peeked hpeeked
  obtain ⟨durable, hdurable, -, -⟩ := h.known _ peeked hpeeked
  -- whichever object it is, it is a known lease of the same generation
  have hsame : stored.resourceId = peeked.resourceId ∧ stored.fence = peeked.fence ∧
      stored.leaseId = leaseId ∧ Known leaseKeyFor backend stored := by
    have hself : peeked.resourceId = peeked.resourceId ∧ peeked.fence = peeked.fence ∧
        peeked.leaseId = leaseId ∧ Known leaseKeyFor backend peeked :=
      ⟨rfl, rfl, hpeekedId, h.known _ peeked hpeeked⟩
    rw [hstored]
    split
    · exact hself
    · cases hfound : (liveLeaseOf num leaseKeyFor m backend peeked.resourceId now).1.leases
          leaseId with
      | none => exact hself
      | some found =>
          obtain ⟨hresource, hfence⟩ := h.same_generation hlocal hpeeked hfound
          exact ⟨hresource.symm, hfence.symm, (hlocal.ids _ found hfound).1,
            hlocal.known _ found hfound⟩
  obtain ⟨hresource, hfence, hid, hknown⟩ := hsame
  simp only [renewIssues, List.append_eq_nil_iff, ite_eq_right_iff, List.cons_ne_nil,
    imp_false, not_not] at hissues
  obtain ⟨⟨hlatest, hstatus⟩, -⟩ := hissues
  rw [hresource] at hlatest
  by_cases hlive : now < durable.expiresAtMs
  · have hname := Option.some.inj (hlatest.symm.trans (liveLeaseOf_latest h hrecords hdurable hlive))
    obtain ⟨-, hgeneration⟩ := leaseIdFor_inj (hpeekedName.symm.trans hname)
    obtain ⟨other, hother, -, howner⟩ := hknown
    rw [hresource, hdurable] at hother
    obtain rfl := Option.some.inj hother
    refine ⟨durable, hresource ▸ hdurable, hlive, hid, ?_, hfence.trans hgeneration,
      howner (hfence.trans hgeneration)⟩
    rw [hresource, hfence]
    exact hpeekedName
  · have hlapsed := le_of_not_gt hlive
    rw [← hpeekedId] at hpeeked hlatest
    obtain ⟨last, hlast, hover⟩ := liveLeaseOf_lapsed h hdurable hlapsed hpeeked hlatest
    have horphan : hydratedId leaseKeyFor m backend peeked.resourceId now ≠ some leaseId := by
      simp [hydratedId, hdurable, hlapsed]
    rw [if_neg horphan, ← hpeekedId, hlast, Option.getD_some] at hstored
    subst hstored
    split at hstatus
    · cases hstatus
    · rename_i hactive
      rcases hover with hreleased | hexpired
      · exact absurd hreleased hactive
      · rw [if_pos hexpired] at hstatus
        cases hstatus

end Renew

section Calls

variable {T : Type} [LinearOrder T] {num : Numbers T} {leaseKeyFor : String → String}
  {m : Manager T} {backend : Backend T}

variable (leaseKeyFor backend) in
/-- What an acquire does to the record of its resource. -/
inductive Acquired (now : Option T) (o : Outcome T) : Prop
  | refused (hok : o.result.ok = false) (hbackend : o.backend = backend)
  | held (instant : T) (durable : FencedLeaseRecord T) (shown : MissionLease T)
      (hnow : now = some instant) (hok : o.result.ok = true) (hshown : o.result.lease = some shown)
      (hfollowers : o.result.suspendedFollowers = none) (hbackend : o.backend = backend)
      (hdurable : backend (leaseKeyFor shown.lease.resourceId) = some durable)
      (hlive : instant < durable.expiresAtMs) (hprojects : Projects durable shown.lease)
  | taken (instant : T) (shown : MissionLease T) (hnow : now = some instant)
      (hok : o.result.ok = true) (hshown : o.result.lease = some shown)
      (hfree : ∀ durable, backend (leaseKeyFor shown.lease.resourceId) = some durable →
        durable.expiresAtMs ≤ instant)
      (hfence : shown.lease.fence = fenceOf leaseKeyFor backend shown.lease.resourceId + 1)
      (hbackend : o.backend = persistLive leaseKeyFor backend shown.lease)

theorem acquireLease_spec (num : Numbers T) (h : Local leaseKeyFor backend m)
    (hrecords : Records leaseKeyFor backend) (input : AcquireInput T) :
    Acquired leaseKeyFor backend input.now (acquireLease num leaseKeyFor m backend input) ∧
      Local leaseKeyFor (acquireLease num leaseKeyFor m backend input).backend
        (acquireLease num leaseKeyFor m backend input).manager := by
  unfold acquireLease
  dsimp only
  split
  · rename_i now deadline hissues hnow hdeadline
    have hstart : Local leaseKeyFor backend
        (m.setSlot (trim input.resource) (m.slot (trim input.resource))) :=
      h.setSlot (fun id hid => h.slot_latest hid) (h.slot_fence _)
    obtain ⟨hlocal, hspec⟩ := liveLeaseOf_spec hstart hrecords num (trim input.resource) now
    split
    · rename_i refreshed live hlive
      rw [hlive] at hlocal hspec
      obtain ⟨durable, hdurable, hafter, hprojects⟩ := hspec
      have hown := hrecords _ durable hdurable
      split
      · refine ⟨.refused rfl rfl, hlocal.setSlot (fun id hid => hlocal.slot_latest ?_) ?_⟩
        · unfold contend at hid
          split at hid <;> exact hid
        · unfold contend
          split <;> exact hlocal.slot_fence _
      · refine ⟨.held now durable (toPublic live now) hnow rfl rfl rfl rfl ?_ hafter hprojects,
          hlocal⟩
        rw [← hdurable, ← hown]
        exact congrArg (backend ∘ leaseKeyFor) hprojects.1
    · rename_i refreshed hlive
      rw [hlive] at hlocal hspec
      have hfence := hlocal.slot_fence (trim input.resource)
      have hnext : (takeoverLease leaseKeyFor refreshed backend (trim input.resource)
          (trim input.holder) now deadline).fence =
            fenceOf leaseKeyFor backend (trim input.resource) + 1 :=
        congrArg (· + 1) (max_eq_right hfence)
      exact ⟨.taken now (toPublic _ now) hnow rfl rfl hspec hnext rfl, hlocal.take rfl hnext _⟩
  · exact ⟨.refused rfl rfl, h⟩

variable (leaseKeyFor backend) in
/-- What a renewal does: it extends the generation of a live record. -/
inductive Renewed (leaseId : String) (now : Option T) (o : Outcome T) : Prop
  | refused (hok : o.result.ok = false) (hbackend : o.backend = backend)
  | renewed (instant : T) (durable : FencedLeaseRecord T) (shown : MissionLease T)
      (hnow : now = some instant) (hok : o.result.ok = true) (hshown : o.result.lease = some shown)
      (hid : leaseId = leaseIdFor shown.lease.resourceId shown.lease.fence)
      (hdurable : backend (leaseKeyFor shown.lease.resourceId) = some durable)
      (hlive : instant < durable.expiresAtMs) (hfence : shown.lease.fence = durable.fence)
      (hholder : shown.lease.holder = durable.ownerId)
      (hbackend : o.backend = persistLive leaseKeyFor backend shown.lease)

theorem renewLease_spec (num : Numbers T) (h : Local leaseKeyFor backend m)
    (hrecords : Records leaseKeyFor backend) (input : RenewInput T) :
    Renewed leaseKeyFor backend (trim input.leaseId) input.now
        (renewLease num leaseKeyFor m backend input) ∧
      Local leaseKeyFor (renewLease num leaseKeyFor m backend input).backend
        (renewLease num leaseKeyFor m backend input).manager := by
  unfold renewLease
  dsimp only
  split
  · rename_i now deadline hissues hnow hdeadline
    cases hpeeked : m.leases (trim input.leaseId) with
    | none => exact ⟨.refused rfl rfl, h⟩
    | some peeked =>
        dsimp only
        obtain ⟨hlocal, -⟩ := liveLeaseOf_spec h hrecords num peeked.resourceId now
        simp only [decide_eq_true_eq]
        obtain ⟨stored, hstored⟩ : ∃ stored, stored =
            if hydratedId leaseKeyFor m backend peeked.resourceId now = some (trim input.leaseId)
            then peeked
            else ((liveLeaseOf num leaseKeyFor m backend peeked.resourceId now).1.leases
              (trim input.leaseId)).getD peeked := ⟨_, rfl⟩
        rw [← hstored]
        split
        · rename_i hnil
          obtain ⟨durable, hdurable, hlive, hid, hname, hfence, hholder⟩ :=
            renewIssues_nil h hrecords hpeeked hstored hnil
          refine ⟨.renewed now durable (toPublic _ now) hnow rfl rfl hname hdurable hlive hfence
            hholder rfl, ?_⟩
          have hadvances : Advances backend (persistLive leaseKeyFor backend { stored with
              expiresAtMs := deadline
              renewedAtMs := now
              renewCount := stored.renewCount + 1 }) := .extend hdurable hfence hholder
          split
          · exact hlocal.advances hadvances
          · have hset := (hlocal.advances hadvances).setLease { stored with
              expiresAtMs := deadline
              renewedAtMs := now
              renewCount := stored.renewCount + 1 } (hid.trans hname)
                ⟨_, Function.update_self _ _ _, le_rfl, fun _ => rfl⟩
            rw [← hid]
            exact hset
        · exact ⟨.refused rfl rfl, hlocal⟩
  · exact ⟨.refused rfl rfl, h⟩

variable (leaseKeyFor) in
/-- The released lease is of the generation of the record: no later lease is there. -/
def releasesLatest (backend : Backend T) (m : Manager T) (input : ReleaseInput T) : Bool :=
  (m.leases (trim input.leaseId)).all fun stored =>
    stored.status = .released || stored.holder ≠ trim input.holder ||
      (backend (leaseKeyFor stored.resourceId)).all fun record => record.fence ≤ stored.fence

variable (num leaseKeyFor backend) in
/-- What a release does: it ends the generation of a record. -/
inductive Released (leaseId : String) (o : Outcome T) : Prop
  | refused (hok : o.result.ok = false) (hbackend : o.backend = backend)
  | released (durable : FencedLeaseRecord T) (shown : MissionLease T) (hok : o.result.ok = true)
      (hshown : o.result.lease = some shown)
      (hid : leaseId = leaseIdFor shown.lease.resourceId shown.lease.fence)
      (hdurable : backend (leaseKeyFor shown.lease.resourceId) = some durable)
      (hfence : shown.lease.fence = durable.fence) (hholder : shown.lease.holder = durable.ownerId)
      (hbackend : o.backend = persistReleased num leaseKeyFor backend shown.lease)

theorem releaseLease_spec (num : Numbers T) (h : Local leaseKeyFor backend m) (input : ReleaseInput T)
    (hlatest : releasesLatest leaseKeyFor backend m input = true) :
    Released num leaseKeyFor backend (trim input.leaseId)
        (releaseLease num leaseKeyFor m backend input) ∧
      Local leaseKeyFor (releaseLease num leaseKeyFor m backend input).backend
        (releaseLease num leaseKeyFor m backend input).manager := by
  unfold releaseLease
  dsimp only
  split
  · rename_i now hissues hnow
    cases hstored : m.leases (trim input.leaseId) with
    | none => exact ⟨.refused rfl rfl, h⟩
    | some stored =>
        dsimp only
        split
        · rename_i hnil
          simp only [List.append_eq_nil_iff, ite_eq_right_iff, List.cons_ne_nil, imp_false,
            not_not] at hnil
          obtain ⟨hactive, hholder⟩ := hnil
          obtain ⟨hid, hname⟩ := h.ids _ stored hstored
          obtain ⟨durable, hdurable, hle, howner⟩ := h.known _ stored hstored
          have hfence : stored.fence = durable.fence := by
            simp only [releasesLatest, hstored, Option.all_some, hactive, decide_false, hholder,
              ne_eq, not_true_eq_false, Bool.or_self, Bool.false_or, hdurable,
              decide_eq_true_eq] at hlatest
            omega
          refine ⟨.released durable (toPublic _ now) rfl rfl hname hdurable hfence (howner hfence)
            rfl, ?_⟩
          have hadvances : Advances backend (persistReleased num leaseKeyFor backend { stored with
              status := .released
              releasedAtMs := some now }) := .extend hdurable hfence (howner hfence)
          have hset := (h.advances hadvances).setLease { stored with
            status := .released
            releasedAtMs := some now } (hid.trans hname)
              ⟨_, Function.update_self _ _ _, le_rfl, fun _ => rfl⟩
          rw [← hid]
          exact hset
        · exact ⟨.refused rfl rfl, h⟩
  · exact ⟨.refused rfl rfl, h⟩

theorem suspendFollowers_spec (num : Numbers T) (h : Local leaseKeyFor backend m)
    (hrecords : Records leaseKeyFor backend) (input : SuspendInput T) :
    (suspendFollowers num leaseKeyFor m backend input).result.lease = none ∧
      (suspendFollowers num leaseKeyFor m backend input).backend = backend ∧
        Local leaseKeyFor (suspendFollowers num leaseKeyFor m backend input).backend
          (suspendFollowers num leaseKeyFor m backend input).manager := by
  unfold suspendFollowers
  dsimp only
  split
  · rename_i now hissues hnow
    obtain ⟨hlocal, -⟩ := liveLeaseOf_spec h hrecords num (trim input.resource) now
    split
    · rename_i slot refreshed live hslot hlive
      rw [hlive] at hlocal
      refine ⟨rfl, rfl, ?_⟩
      -- contenders are all that a follower adds to the slot
      have hcontend (ids : List String) (slot : ResourceLeaseSlot T) :
          (ids.foldl (fun slot id => contend slot id now) slot).leaseId = slot.leaseId ∧
            (ids.foldl (fun slot id => contend slot id now) slot).fence = slot.fence := by
        induction ids generalizing slot with
        | nil => exact ⟨rfl, rfl⟩
        | cons id ids ih =>
            rw [List.foldl_cons, (ih _).1, (ih _).2]
            unfold contend
            split <;> exact ⟨rfl, rfl⟩
      refine hlocal.setSlot (fun id hid => hlocal.slot_latest ?_) ?_
      · exact (hcontend _ _).1.symm.trans hid
      · exact (hcontend _ _).2.trans_le (hlocal.slot_fence _)
    · rename_i refreshed live hlive _
      rw [hlive] at hlocal
      exact ⟨rfl, rfl, hlocal⟩
  · exact ⟨rfl, rfl, h⟩

end Calls

section Books

variable {T : Type} [LinearOrder T] {num : Numbers T} {leaseKeyFor : String → String}
  {backend : Backend T} {clock clock' : Option T} {told : Holding → Option T}
  {durable : FencedLeaseRecord T} {resource : String}

variable (leaseKeyFor backend clock) in
/-- A lease that its holder has not released is of the record's generation, or it has lapsed. -/
def Told (x : Holding) (expiry : T) : Prop :=
  ∃ durable, backend (leaseKeyFor x.resource) = some durable ∧
    ((x.fence < durable.fence ∧ ∃ instant, clock = some instant ∧ expiry ≤ instant) ∨
      (x.fence = durable.fence ∧ x.holder = durable.ownerId ∧ expiry ≤ durable.expiresAtMs))

variable (leaseKeyFor backend clock told) in
/-- The records and what the holders were told. -/
structure BooksInv : Prop where
  records : Records leaseKeyFor backend
  told : ∀ x expiry, told x = some expiry → Told leaseKeyFor backend clock x expiry

/-- The clock does not go back. -/
def ClockLe (clock clock' : Option T) : Prop :=
  ∀ instant, clock = some instant → ∃ instant', clock' = some instant' ∧ instant ≤ instant'

theorem BooksInv.later (h : BooksInv leaseKeyFor backend clock told)
    (hclock : ClockLe clock clock') : BooksInv leaseKeyFor backend clock' told where
  records := h.records
  told x expiry hx := by
    obtain ⟨durable, hdurable, ⟨hfence, instant, hinstant, hle⟩ | hlatest⟩ := h.told x expiry hx
    · obtain ⟨instant', hinstant', hle'⟩ := hclock instant hinstant
      exact ⟨durable, hdurable, .inl ⟨hfence, instant', hinstant', hle.trans hle'⟩⟩
    · exact ⟨durable, hdurable, .inr hlatest⟩

/-- The next generation of a resource whose record has lapsed. -/
theorem BooksInv.persist (hkey : Function.Injective leaseKeyFor)
    (h : BooksInv leaseKeyFor backend clock told) (record : FencedLeaseRecord T) {instant : T}
    (hclock : clock = some instant) (hresource : record.resourceId = resource)
    (hfree : ∀ durable, backend (leaseKeyFor resource) = some durable →
      durable.expiresAtMs ≤ instant)
    (hfence : fenceOf leaseKeyFor backend resource < record.fence) :
    BooksInv leaseKeyFor (Function.update backend (leaseKeyFor resource) (some record)) clock
      told where
  records := records_update hkey h.records hresource
  told x expiry hx := by
    obtain ⟨durable, hdurable, hcases⟩ := h.told x expiry hx
    by_cases hsame : x.resource = resource
    · subst hsame
      refine ⟨record, Function.update_self _ _ _, .inl ?_⟩
      rw [fenceOf_eq hdurable] at hfence
      rcases hcases with ⟨hlt, hlapsed⟩ | ⟨heq, -, hle⟩
      · exact ⟨hlt.trans hfence, hlapsed⟩
      · exact ⟨heq ▸ hfence, instant, hclock, hle.trans (hfree durable hdurable)⟩
    · refine ⟨durable, ?_, hcases⟩
      rw [Function.update_of_ne (fun heq => hsame (hkey heq)), hdurable]

/-- The holder of a generation is told another expiry of it, or has released it. -/
theorem BooksInv.retell (hkey : Function.Injective leaseKeyFor)
    (h : BooksInv leaseKeyFor backend clock told) (record : FencedLeaseRecord T)
    (expiry : Option T) (hdurable : backend (leaseKeyFor resource) = some durable)
    (hresource : record.resourceId = resource) (hfence : record.fence = durable.fence)
    (howner : record.ownerId = durable.ownerId)
    (hexpiry : ∀ last, expiry = some last → last ≤ record.expiresAtMs) :
    BooksInv leaseKeyFor (Function.update backend (leaseKeyFor resource) (some record)) clock
      (Function.update told ⟨resource, record.fence, record.ownerId⟩ expiry) where
  records := records_update hkey h.records hresource
  told x last hx := by
    rw [Function.update_apply] at hx
    split at hx
    · rename_i hsame
      subst hsame
      exact ⟨record, Function.update_self _ _ _, .inr ⟨rfl, rfl, hexpiry last hx⟩⟩
    · rename_i hother
      obtain ⟨found, hfound, hcases⟩ := h.told x last hx
      by_cases hsame : x.resource = resource
      · subst hsame
        obtain rfl := Option.some.inj (hdurable.symm.trans hfound)
        refine ⟨record, Function.update_self _ _ _, ?_⟩
        rcases hcases with ⟨hlt, hlapsed⟩ | ⟨heq, hholder, -⟩
        · exact .inl ⟨hfence ▸ hlt, hlapsed⟩
        · refine absurd ?_ hother
          rw [hfence, howner, ← heq, ← hholder]
      · refine ⟨found, ?_, hcases⟩
        rw [Function.update_of_ne (fun heq => hsame (hkey heq)), hfound]

end Books

section Called

variable {T : Type} {op : LeaseOp T} {o : Outcome T} {shown : MissionLease T}

/-- The world after a call. -/
def World.called (w : World T) (i : ℕ) (op : LeaseOp T) (o : Outcome T) : World T :=
  World.tell
    { w with
      backend := o.backend
      managers := Function.update w.managers i o.manager
      clock := op.now.or w.clock } op o.result

theorem called_same (w : World T) (i : ℕ) (op : LeaseOp T) (o : Outcome T) :
    (w.called i op o).backend = o.backend ∧
    (w.called i op o).managers = Function.update w.managers i o.manager ∧
    (w.called i op o).clock = op.now.or w.clock := by
  unfold World.called World.tell
  split
  · cases op <;> exact ⟨rfl, rfl, rfl⟩
  · exact ⟨rfl, rfl, rfl⟩

theorem called_untold (w : World T) (i : ℕ) (op : LeaseOp T)
    (h : o.result.ok = false ∨ o.result.lease = none) :
    (w.called i op o).told = w.told ∧ (w.called i op o).handed = w.handed := by
  unfold World.called World.tell
  split
  · rename_i hok hshown
    rcases h with hrefused | hnone
    · rw [hrefused] at hok
      cases hok
    · rw [hnone] at hshown
      cases hshown
  · exact ⟨rfl, rfl⟩

/-- What a holder is told after an acquire or a renewal. -/
theorem called_told (w : World T) (i : ℕ) (hop : ∀ input, op ≠ .release input) (hok : o.result.ok = true)
    (hshown : o.result.lease = some shown) :
    (w.called i op o).told = Function.update w.told
        ⟨shown.lease.resourceId, shown.lease.fence, shown.lease.holder⟩
        (some shown.lease.expiresAtMs) ∧
      (w.called i op o).handed = Function.update w.handed shown.lease.resourceId
        (shown.lease.fence :: w.handed shown.lease.resourceId) := by
  unfold World.called World.tell
  rw [hok, hshown]
  dsimp only
  split
  · rename_i input
    exact absurd rfl (hop input)
  · exact ⟨rfl, rfl⟩

end Called

section World

variable {T : Type} [LinearOrder T] {num : Numbers T} {leaseKeyFor : String → String}
  {w : World T} {i : ℕ} {op : LeaseOp T} {o : Outcome T} {shown : MissionLease T}

variable (leaseKeyFor w) in
structure WorldInv : Prop where
  books : BooksInv leaseKeyFor w.backend w.clock w.told
  locals : ∀ i, Local leaseKeyFor w.backend (w.managers i)
  handed : ∀ resource, ∀ fence ∈ w.handed resource, fence ≤ fenceOf leaseKeyFor w.backend resource

theorem clockLe_called (h : w.inTime op = true) : ClockLe w.clock (op.now.or w.clock) := by
  intro instant hinstant
  cases hnow : op.now with
  | none => exact ⟨instant, hinstant, le_rfl⟩
  | some now =>
      rw [World.inTime, hinstant, hnow] at h
      exact ⟨now, rfl, by simpa using h⟩

theorem WorldInv.called (h : WorldInv leaseKeyFor w) (hlocal : Local leaseKeyFor o.backend o.manager)
    (hadv : Advances w.backend o.backend)
    (hbooks : BooksInv leaseKeyFor o.backend (op.now.or w.clock) (w.called i op o).told)
    (hhanded : ∀ resource, ∀ fence ∈ (w.called i op o).handed resource,
      fence ∈ w.handed resource ∨ fence ≤ fenceOf leaseKeyFor o.backend resource) :
    WorldInv leaseKeyFor (w.called i op o) := by
  obtain ⟨hbackend, hmanagers, hclock⟩ := called_same w i op o
  refine ⟨?_, fun j => ?_, fun resource fence hfence => ?_⟩
  · rw [hbackend, hclock]
    exact hbooks
  · rw [hbackend, hmanagers, Function.update_apply]
    split
    · exact hlocal
    · exact (h.locals j).advances hadv
  · rw [hbackend]
    rcases hhanded resource fence hfence with hold | hnew
    · exact (h.handed resource fence hold).trans (fenceOf_mono hadv)
    · exact hnew

/-- A call that only looked. -/
theorem WorldInv.untouched (h : WorldInv leaseKeyFor w) (htime : w.inTime op = true)
    (hlocal : Local leaseKeyFor o.backend o.manager) (hbackend : o.backend = w.backend)
    (huntold : o.result.ok = false ∨ o.result.lease = none) :
    WorldInv leaseKeyFor (w.called i op o) := by
  obtain ⟨htold, hhanded⟩ := called_untold w i op huntold
  refine h.called hlocal ?_ ?_ fun resource fence hfence => .inl (hhanded ▸ hfence)
  · rw [hbackend]
    exact fun _ durable hdurable => ⟨durable, hdurable, le_rfl, fun _ => rfl⟩
  · rw [htold, hbackend]
    exact h.books.later (clockLe_called htime)

theorem WorldInv.told (h : WorldInv leaseKeyFor w) (hop : ∀ input, op ≠ .release input)
    (hok : o.result.ok = true) (hshown : o.result.lease = some shown)
    (hlocal : Local leaseKeyFor o.backend o.manager) (hadv : Advances w.backend o.backend)
    (hfence : shown.lease.fence ≤ fenceOf leaseKeyFor o.backend shown.lease.resourceId)
    (hbooks : BooksInv leaseKeyFor o.backend (op.now.or w.clock) (Function.update w.told
      ⟨shown.lease.resourceId, shown.lease.fence, shown.lease.holder⟩
      (some shown.lease.expiresAtMs))) :
    WorldInv leaseKeyFor (w.called i op o) := by
  obtain ⟨htold, hhanded⟩ := called_told w i hop hok hshown
  refine h.called hlocal hadv (htold ▸ hbooks) fun resource fence hmem => ?_
  rw [hhanded, Function.update_apply] at hmem
  split at hmem
  · rename_i hsame
    subst hsame
    rcases List.mem_cons.mp hmem with rfl | hold
    · exact .inr hfence
    · exact .inl hold
  · exact .inl hmem

theorem WorldInv.acquired (hkey : Function.Injective leaseKeyFor) (h : WorldInv leaseKeyFor w)
    {input : AcquireInput T} (htime : w.inTime (.acquire input) = true)
    (hlocal : Local leaseKeyFor o.backend o.manager)
    (heffect : Acquired leaseKeyFor w.backend input.now o) :
    WorldInv leaseKeyFor (w.called i (.acquire input) o) := by
  have hlater := h.books.later (clockLe_called htime)
  have hop : ∀ other, LeaseOp.acquire input ≠ .release other := fun other heq => nomatch heq
  cases heffect with
  | refused hok hbackend => exact h.untouched htime hlocal hbackend (.inl hok)
  | held instant durable shown hnow hok hshown hfollowers hbackend hdurable hlive hprojects =>
      obtain ⟨hresource, hfence, hholder, hexpiry⟩ := hprojects
      refine h.told hop hok hshown hlocal ?_ ?_ ?_
      · rw [hbackend]
        exact fun _ durable hdurable => ⟨durable, hdurable, le_rfl, fun _ => rfl⟩
      · rw [hbackend, fenceOf_eq hdurable, hfence]
      · have hbooks := hlater.retell hkey durable (some durable.expiresAtMs) hdurable
          hresource.symm rfl rfl fun last hlast => (Option.some.inj hlast).ge
        rw [← hdurable, Function.update_eq_self] at hbooks
        rw [hbackend, hfence, hholder, hexpiry]
        exact hbooks
  | taken instant shown hnow hok hshown hfree hfence hbackend =>
      have hlt : fenceOf leaseKeyFor w.backend shown.lease.resourceId < shown.lease.fence := by
        omega
      have hrecord : o.backend (leaseKeyFor shown.lease.resourceId) =
          some (toDurable shown.lease) := by
        rw [hbackend]
        exact Function.update_self _ _ _
      have hclock : (LeaseOp.now (.acquire input)).or w.clock = some instant := by
        show input.now.or w.clock = some instant
        rw [hnow, Option.some_or]
      refine h.told hop hok hshown hlocal ?_ (fenceOf_eq hrecord).ge ?_
      · rw [hbackend]
        exact .persist hlt
      · have htaken := hlater.persist hkey (toDurable shown.lease) hclock rfl hfree hlt
        have hbooks := htaken.retell hkey (toDurable shown.lease) (some shown.lease.expiresAtMs)
          (Function.update_self _ _ _) rfl rfl rfl fun last hlast => (Option.some.inj hlast).ge
        rw [Function.update_idem] at hbooks
        rw [hbackend]
        exact hbooks

theorem WorldInv.renewed (hkey : Function.Injective leaseKeyFor) (h : WorldInv leaseKeyFor w)
    {input : RenewInput T} (htime : w.inTime (.renew input) = true)
    (hlocal : Local leaseKeyFor o.backend o.manager)
    (heffect : Renewed leaseKeyFor w.backend (trim input.leaseId) input.now o) :
    WorldInv leaseKeyFor (w.called i (.renew input) o) := by
  have hlater := h.books.later (clockLe_called htime)
  have hop : ∀ other, LeaseOp.renew input ≠ .release other := fun other heq => nomatch heq
  cases heffect with
  | refused hok hbackend => exact h.untouched htime hlocal hbackend (.inl hok)
  | renewed instant durable shown hnow hok hshown hid hdurable hlive hfence hholder hbackend =>
      have hrecord : o.backend (leaseKeyFor shown.lease.resourceId) =
          some (toDurable shown.lease) := by
        rw [hbackend]
        exact Function.update_self _ _ _
      refine h.told hop hok hshown hlocal ?_ (fenceOf_eq hrecord).ge ?_
      · rw [hbackend]
        exact .extend hdurable hfence hholder
      · rw [hbackend]
        exact hlater.retell hkey (toDurable shown.lease) (some shown.lease.expiresAtMs) hdurable rfl
          hfence hholder fun last hlast => (Option.some.inj hlast).ge

theorem WorldInv.released (hkey : Function.Injective leaseKeyFor) (h : WorldInv leaseKeyFor w)
    {input : ReleaseInput T} (htime : w.inTime (.release input) = true)
    (hlocal : Local leaseKeyFor o.backend o.manager)
    (heffect : Released num leaseKeyFor w.backend (trim input.leaseId) o) :
    WorldInv leaseKeyFor (w.called i (.release input) o) := by
  have hlater := h.books.later (clockLe_called htime)
  cases heffect with
  | refused hok hbackend => exact h.untouched htime hlocal hbackend (.inl hok)
  | released durable shown hok hshown hid hdurable hfence hholder hbackend =>
      have hcalled : (w.called i (.release input) o).told = Function.update w.told
          ⟨shown.lease.resourceId, shown.lease.fence, shown.lease.holder⟩ none ∧
            (w.called i (.release input) o).handed = w.handed := by
        unfold World.called World.tell
        rw [hok, hshown]
        exact ⟨rfl, rfl⟩
      refine h.called hlocal ?_ ?_ fun resource fence hmem => .inl (hcalled.2 ▸ hmem)
      · rw [hbackend]
        exact .extend hdurable hfence hholder
      · rw [hbackend, hcalled.1]
        exact hlater.retell hkey { toDurable shown.lease with expiresAtMs := num.zero } none
          hdurable rfl hfence hholder fun last hlast => nomatch hlast

end World

section Runs

variable {T : Type} [LinearOrder T] {num : Numbers T} {leaseKeyFor : String → String} {w : World T}

variable (leaseKeyFor) in
/-- The call releases no lease that has been taken over. -/
def releasesNoOlder (w : World T) (a : ℕ × LeaseOp T) : Bool :=
  match a.2 with
  | .release input => releasesLatest leaseKeyFor w.backend (w.managers a.1) input
  | _ => true

/-- At most one holder has been told of a lease that it has not released and that is not over. -/
def Exclusive (w : World T) : Prop :=
  ∀ now, (∀ clock, w.clock = some clock → clock ≤ now) → ∀ x x' expiry expiry',
    w.told x = some expiry → w.told x' = some expiry' → x.resource = x'.resource →
      now < expiry → now < expiry' → x.holder = x'.holder

theorem WorldInv.exclusive (h : WorldInv leaseKeyFor w) : Exclusive w := by
  intro now hnow x x' expiry expiry' hx hx' hresource hlive hlive'
  have hcurrent (y : Holding) (last : T) (hy : w.told y = some last) (hafter : now < last) :
      ∃ durable, w.backend (leaseKeyFor y.resource) = some durable ∧
        y.holder = durable.ownerId := by
    obtain ⟨durable, hdurable, ⟨-, clock, hclock, hle⟩ | ⟨-, hholder, -⟩⟩ :=
      h.books.told y last hy
    · exact absurd (hle.trans (hnow clock hclock)) (not_le_of_gt hafter)
    · exact ⟨durable, hdurable, hholder⟩
  obtain ⟨durable, hdurable, hholder⟩ := hcurrent x expiry hx hlive
  obtain ⟨durable', hdurable', hholder'⟩ := hcurrent x' expiry' hx' hlive'
  rw [hresource, hdurable'] at hdurable
  obtain rfl := Option.some.inj hdurable
  rw [hholder, hholder']

theorem WorldInv.step (hkey : Function.Injective leaseKeyFor) (h : WorldInv leaseKeyFor w)
    {a : ℕ × LeaseOp T} {t : World T} (hok : releasesNoOlder leaseKeyFor w a = true)
    (hstep : (leaseManagers num leaseKeyFor).step w a = some t) : WorldInv leaseKeyFor t := by
  obtain ⟨htime, rfl⟩ := Option.ite_some_none_eq_some.mp hstep
  obtain ⟨i, op⟩ := a
  cases op with
  | acquire input =>
      obtain ⟨heffect, hlocal⟩ := acquireLease_spec num (h.locals i) h.books.records input
      exact h.acquired hkey htime hlocal heffect
  | renew input =>
      obtain ⟨heffect, hlocal⟩ := renewLease_spec num (h.locals i) h.books.records input
      exact h.renewed hkey htime hlocal heffect
  | release input =>
      obtain ⟨heffect, hlocal⟩ := releaseLease_spec num (h.locals i) input hok
      exact h.released hkey htime hlocal heffect
  | suspendFollowers input =>
      obtain ⟨hnone, hbackend, hlocal⟩ := suspendFollowers_spec num (h.locals i) h.books.records input
      have huntold : WorldInv leaseKeyFor (w.called i (.suspendFollowers input)
          (suspendFollowers num leaseKeyFor (w.managers i) w.backend input)) :=
        h.untouched htime hlocal hbackend (.inr hnone)
      exact huntold

theorem worldInv_reach (hkey : Function.Injective leaseKeyFor)
    (hs : (leaseManagers num leaseKeyFor).Reach
      (fun w a => releasesNoOlder leaseKeyFor w a = true) w) : WorldInv leaseKeyFor w := by
  refine hs.invariant (fun w hw => ?_) fun w a t h hok hstep => h.step hkey hok hstep
  obtain rfl : w = .start T := hw
  refine ⟨⟨?_, ?_⟩, fun i => .new, ?_⟩
  · intro resource durable hdurable
    cases hdurable
  · intro x expiry hx
    cases hx
  · intro resource fence hfence
    cases hfence

/-- The lease that a renewal or a release names. -/
def LeaseOp.leaseId : LeaseOp T → Option String
  | .renew input => some (trim input.leaseId)
  | .release input => some (trim input.leaseId)
  | _ => none

/-- A renewal or a release of an older lease leaves the record of a newer one alone. -/
theorem older_untouched (h : WorldInv leaseKeyFor w) {i : ℕ} {op : LeaseOp T}
    (hok : releasesNoOlder leaseKeyFor w (i, op) = true) {id : String} {lease : StoredLease T}
    {durable : FencedLeaseRecord T} (hid : op.leaseId = some id)
    (hlease : (w.managers i).leases id = some lease)
    (hdurable : w.backend (leaseKeyFor lease.resourceId) = some durable)
    (holder : lease.fence < durable.fence) :
    (op.run num leaseKeyFor (w.managers i) w.backend).backend = w.backend := by
  have hname := ((h.locals i).ids _ lease hlease).2
  have hnewer {shown : MissionLease T} {latest : FencedLeaseRecord T}
      (hshown : id = leaseIdFor shown.lease.resourceId shown.lease.fence)
      (hlatest : w.backend (leaseKeyFor shown.lease.resourceId) = some latest)
      (hfence : shown.lease.fence = latest.fence) : False := by
    obtain ⟨hresource, hsame⟩ := leaseIdFor_inj (hname.symm.trans hshown)
    rw [hresource, hlatest] at hdurable
    obtain rfl := Option.some.inj hdurable
    omega
  cases op with
  | acquire input => cases hid
  | suspendFollowers input => cases hid
  | renew input =>
      obtain rfl := Option.some.inj hid
      cases (renewLease_spec num (h.locals i) h.books.records input).1 with
      | refused hrefused hbackend => exact hbackend
      | renewed instant latest shown hnow hrenewed hshown hid hlatest hlive hfence hholder
          hbackend => exact (hnewer hid hlatest hfence).elim
  | release input =>
      obtain rfl := Option.some.inj hid
      cases (releaseLease_spec num (h.locals i) input hok).1 with
      | refused hrefused hbackend => exact hbackend
      | released latest shown hreleased hshown hid hlatest hfence hholder hbackend =>
          exact (hnewer hid hlatest hfence).elim

/-- A takeover gets a fence above every fence there was. -/
theorem takeover_fence (h : WorldInv leaseKeyFor w) {i : ℕ} {input : AcquireInput T}
    {shown : MissionLease T}
    (hok : (acquireLease num leaseKeyFor (w.managers i) w.backend input).result.ok = true)
    (htaken : (acquireLease num leaseKeyFor (w.managers i)
      w.backend input).result.suspendedFollowers.isSome = true)
    (hshown : (acquireLease num leaseKeyFor (w.managers i) w.backend input).result.lease =
      some shown) {fence : ℕ} (hfence : fence ∈ w.handed shown.lease.resourceId) :
    fence < shown.lease.fence := by
  cases (acquireLease_spec num (h.locals i) h.books.records input).1 with
  | refused hrefused hbackend =>
      rw [hrefused] at hok
      cases hok
  | held instant durable other hnow hheld hother hfollowers hbackend hdurable hlive hprojects =>
      rw [hfollowers] at htaken
      cases htaken
  | taken instant other hnow htaken hother hfree hnext hbackend =>
      obtain rfl := Option.some.inj (hshown.symm.trans hother)
      have hle := h.handed _ fence hfence
      omega

/-- In a run that releases no lease that has been taken over, one holder at most is told of a live
lease, takeovers raise the fence, and older leases leave the record of a newer one alone. -/
theorem mission_lease_exclusive (hkey : Function.Injective leaseKeyFor)
    (hs : (leaseManagers num leaseKeyFor).Reach
      (fun w a => releasesNoOlder leaseKeyFor w a = true) w) :
    Exclusive w ∧
      (∀ i input shown fence,
        (acquireLease num leaseKeyFor (w.managers i) w.backend input).result.ok = true →
        (acquireLease num leaseKeyFor (w.managers i)
          w.backend input).result.suspendedFollowers.isSome = true →
        (acquireLease num leaseKeyFor (w.managers i) w.backend input).result.lease = some shown →
        fence ∈ w.handed shown.lease.resourceId → fence < shown.lease.fence) ∧
      ∀ i op id lease durable, releasesNoOlder leaseKeyFor w (i, op) = true →
        op.leaseId = some id → (w.managers i).leases id = some lease →
        w.backend (leaseKeyFor lease.resourceId) = some durable → lease.fence < durable.fence →
        (op.run num leaseKeyFor (w.managers i) w.backend).backend = w.backend := by
  have h := worldInv_reach hkey hs
  exact ⟨h.exclusive, fun i input shown fence hok htaken hshown hfence =>
    takeover_fence h hok htaken hshown hfence, fun i op id lease durable hok hid hlease hdurable
      holder => older_untouched h hok hid hlease hdurable holder⟩

def milliseconds : Numbers ℤ where
  zero := 0
  add a b := some (a + b)

def defaultLeaseKeyFor (resource : String) : String :=
  "mission-lease:" ++ resource

def acquire (i : ℕ) (holder : String) (now : ℤ) : ℕ × LeaseOp ℤ :=
  (i, .acquire ⟨"thread", holder, some 10, some now⟩)

def release (i : ℕ) (id holder : String) (now : ℤ) : ℕ × LeaseOp ℤ :=
  (i, .release ⟨id, holder, some now⟩)

theorem defaultLeaseKeyFor_injective : Function.Injective defaultLeaseKeyFor :=
  fun _ _ h => String.append_right_inj _ |>.mp h

theorem mission_lease_exclusive_after_takeover : ∃ w : World ℤ,
    w.told ⟨"thread", 2, "b"⟩ = some 20 ∧ w.told ⟨"thread", 1, "a"⟩ = some 10 ∧ Exclusive w := by
  obtain ⟨w, hs, hb, ha⟩ := (leaseManagers milliseconds defaultLeaseKeyFor).exists_reach_of_execOk
    (releasesNoOlder defaultLeaseKeyFor) (s := .start ℤ) [acquire 0 "a" 0, acquire 1 "b" 10]
    (fun w => w.told ⟨"thread", 2, "b"⟩ = some 20 ∧ w.told ⟨"thread", 1, "a"⟩ = some 10) rfl
    (by decide +kernel)
  exact ⟨w, hb, ha, (mission_lease_exclusive defaultLeaseKeyFor_injective hs).1⟩

/-- A late release of a lapsed lease ends the lease that has taken over. -/
theorem late_release_lets_two_hold :
    ¬ ∀ w : World ℤ, (leaseManagers milliseconds defaultLeaseKeyFor).Reachable w →
      Exclusive w := by
  intro h
  obtain ⟨w, hs, hclock, hb, hc⟩ := Transition.System.exists_reachable_of_exec
    (S := leaseManagers milliseconds defaultLeaseKeyFor) (s := .start ℤ)
    [acquire 0 "a" 0, acquire 1 "b" 10, release 0 "lease-thread-1" "a" 11, acquire 2 "c" 12]
    (fun w => w.clock = some 12 ∧ w.told ⟨"thread", 2, "b"⟩ = some 20 ∧
      w.told ⟨"thread", 2, "c"⟩ = some 22) rfl (by decide +kernel)
  have hsame := h w hs 12 (fun clock hsome => by
    rw [hclock] at hsome
    exact (Option.some.inj hsome).ge) _ _ _ _ hb hc rfl (by decide) (by decide)
  revert hsame
  decide

end Runs

end Kyberion.Mission
