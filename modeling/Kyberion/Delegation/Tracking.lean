import Kyberion.Delegation.ChildRegistry
import Mathlib.Data.List.Nodup

/-!
The file tracks every registered child as long as each write still knows the children that the file
names, and as long as no id is given out twice. A process that writes back an older copy, or that
counts up to an id of another process, drops a live child.
-/

namespace Kyberion.Delegation

variable {P : Type} [DecidableEq P]

/-- The copy has a record of every child that the file has one of. -/
def knowsFile (s : ChildRegistry P) (seen : List (DelegationChildRecord P)) : Bool :=
  s.file.all fun record => seen.any fun copy => copy.child = record.child

/-- No registered child of another process has the id of the record. -/
def idFree (s : ChildRegistry P) (record : DelegationChildRecord P) : Bool :=
  s.registered.all fun child => child.2 ≠ record.id || child.1 = record.process

/-- The write drops no child: what was read is still current, and a new id is nobody else's. -/
def keepsChildren (s : ChildRegistry P) : ChildAction P → Bool
  | .write p =>
      match s.pending p with
      | some (.register record seen) => knowsFile s seen && idFree s record
      | some (.unregister _ seen) => knowsFile s seen
      | none => true
  | _ => true

def PendingInv (s : ChildRegistry P) (p : P) : PendingWrite P → Prop
  | .register record seen => record.process = p ∧ (seen.map (·.id)).Nodup
  | .unregister id seen => (p, id) ∈ s.registered ∧ (seen.map (·.id)).Nodup ∧
      ∀ record ∈ s.activeChildren p, record.id ≠ id

structure RegistryInv (s : ChildRegistry P) : Prop where
  ids : (s.file.map (·.id)).Nodup
  tracked : ∀ child ∈ s.registered, ∃ record ∈ s.file, record.child = child
  pending : ∀ p write, s.pending p = some write → PendingInv s p write
  active : ∀ p, ∀ record ∈ s.activeChildren p, (p, record.id) ∈ s.registered ∨
    ∃ new seen, s.pending p = some (.register new seen) ∧ new.id = record.id

section Lists

omit [DecidableEq P]

variable {id : String} {records seen : List (DelegationChildRecord P)}
  {record : DelegationChildRecord P}

theorem mem_withoutId : record ∈ withoutId id records ↔ record ∈ records ∧ record.id ≠ id := by
  simp [withoutId]

theorem nodup_withoutId (h : (records.map (·.id)).Nodup) :
    ((withoutId id records).map (·.id)).Nodup :=
  h.sublist (List.filter_sublist.map _)

theorem nodup_register (h : (records.map (·.id)).Nodup) :
    ((withoutId record.id records ++ [record]).map (·.id)).Nodup := by
  rw [List.map_append, List.map_singleton, List.nodup_append]
  refine ⟨nodup_withoutId h, List.nodup_singleton _, fun id hid other hother => ?_⟩
  obtain ⟨old, hold, rfl⟩ := List.mem_map.mp hid
  rw [List.mem_singleton.mp hother]
  exact (mem_withoutId.mp hold).2

theorem withoutId_eq_self (h : (withoutId id records).length = records.length)
    (hrecord : record ∈ records) : record.id ≠ id := by
  have heq := List.filter_sublist.eq_of_length h
  rw [← heq] at hrecord
  exact (mem_withoutId.mp hrecord).2

end Lists

variable {s t : ChildRegistry P} {p : P}

/-- A record of the child in an up-to-date copy. -/
theorem copy_of_knowsFile {seen : List (DelegationChildRecord P)} (h : knowsFile s seen = true)
    {record : DelegationChildRecord P} (hrecord : record ∈ s.file) :
    ∃ copy ∈ seen, copy.child = record.child := by
  simp only [knowsFile, List.all_eq_true, List.any_eq_true, decide_eq_true_eq] at h
  exact h record hrecord

/-- The write of an unregistration keeps the records of all other children. -/
theorem RegistryInv.others_kept (h : RegistryInv s) {id : String}
    {seen : List (DelegationChildRecord P)} (hpending : s.pending p = some (.unregister id seen))
    (hknows : knowsFile s seen = true) {record : DelegationChildRecord P}
    (hrecord : record ∈ s.file) (hother : record.child ≠ (p, id)) :
    ∃ copy ∈ withoutId id seen, copy.child = record.child := by
  obtain ⟨hregistered, hnodup, -⟩ := h.pending p _ hpending
  obtain ⟨copy, hcopy, hchild⟩ := copy_of_knowsFile hknows hrecord
  refine ⟨copy, mem_withoutId.mpr ⟨hcopy, fun hid => hother ?_⟩, hchild⟩
  -- The child that is unregistered has a record of its own in the copy, and ids come once.
  obtain ⟨own, hown, hownChild⟩ := h.tracked _ hregistered
  obtain ⟨ownCopy, hownCopy, hownEq⟩ := copy_of_knowsFile hknows hown
  rw [hownChild] at hownEq
  have hownId : ownCopy.id = id := congrArg Prod.snd hownEq
  have hsame : ownCopy = copy :=
    List.inj_on_of_nodup_map hnodup hownCopy hcopy (hownId.trans hid.symm)
  rw [← hchild, ← hsame, hownEq]

section Steps

omit [DecidableEq P] in
theorem RegistryInv.count (h : RegistryInv s) (count : P → ℕ) :
    RegistryInv { s with idCounter := count } :=
  ⟨h.ids, h.tracked, fun q write hwrite => by cases write <;> exact h.pending q _ hwrite,
    h.active⟩

omit [DecidableEq P] in
/-- The pending write of a process that the step does not touch. -/
theorem PendingInv.other {q : P} {write : PendingWrite P} (h : PendingInv s q write)
    (hregistered : ∀ child ∈ s.registered, child.1 = q → child ∈ t.registered)
    (hactive : t.activeChildren q = s.activeChildren q) : PendingInv t q write := by
  cases write with
  | register _ _ => exact h
  | unregister id seen =>
      refine ⟨hregistered _ h.1 rfl, h.2.1, fun record hrecord => h.2.2 record ?_⟩
      rwa [← hactive]

theorem RegistryInv.register (h : RegistryInv s) {record : DelegationChildRecord P}
    (hidle : s.pending record.process = none) : RegistryInv (s.registerActiveChild record) where
  ids := h.ids
  tracked := h.tracked
  pending q write hwrite := by
    by_cases hq : q = record.process
    · subst hq
      rw [ChildRegistry.registerActiveChild_pending, Function.update_self] at hwrite
      obtain rfl := Option.some.inj hwrite
      exact ⟨rfl, h.ids⟩
    · rw [ChildRegistry.registerActiveChild_pending, Function.update_of_ne hq] at hwrite
      exact (h.pending q write hwrite).other (fun _ hchild _ => hchild)
        (Function.update_of_ne hq ..)
  active q other hother := by
    rw [ChildRegistry.registerActiveChild_activeChildren] at hother
    rw [ChildRegistry.registerActiveChild_pending]
    by_cases hq : q = record.process
    · subst hq
      rw [Function.update_self] at hother ⊢
      rcases List.mem_append.mp hother with hold | hnew
      · have hbefore := h.active _ other (mem_withoutId.mp hold).1
        rcases hbefore with hregistered | ⟨_, _, hpending, -⟩
        · exact .inl hregistered
        · rw [hidle] at hpending
          cases hpending
      · exact .inr ⟨record, s.file, rfl, by rw [List.mem_singleton.mp hnew]⟩
    · rw [Function.update_of_ne hq] at hother ⊢
      exact h.active q other hother

omit [DecidableEq P] in
/-- The children of a process that is not in a call are registered. -/
theorem RegistryInv.registered_of_idle (h : RegistryInv s) (hidle : s.pending p = none)
    {record : DelegationChildRecord P} (hrecord : record ∈ s.activeChildren p) :
    (p, record.id) ∈ s.registered := by
  rcases h.active p record hrecord with hregistered | ⟨_, _, hpending, -⟩
  · exact hregistered
  · rw [hidle] at hpending
    cases hpending

theorem RegistryInv.startUnregister (h : RegistryInv s) (hidle : s.pending p = none)
    {own : DelegationChildRecord P} (hown : own ∈ s.activeChildren p) :
    RegistryInv (s.startUnregister p own.id) where
  ids := h.ids
  tracked := h.tracked
  pending q write hwrite := by
    by_cases hq : q = p
    · subst hq
      rw [ChildRegistry.startUnregister_pending, Function.update_self] at hwrite
      obtain rfl := Option.some.inj hwrite
      refine ⟨h.registered_of_idle hidle hown, h.ids, fun other hother => ?_⟩
      rw [ChildRegistry.startUnregister_activeChildren, Function.update_self] at hother
      exact (mem_withoutId.mp hother).2
    · rw [ChildRegistry.startUnregister_pending, Function.update_of_ne hq] at hwrite
      exact (h.pending q write hwrite).other (fun _ hchild _ => hchild)
        (Function.update_of_ne hq ..)
  active q other hother := by
    rw [ChildRegistry.startUnregister_activeChildren] at hother
    by_cases hq : q = p
    · subst hq
      rw [Function.update_self] at hother
      exact .inl (h.registered_of_idle hidle (mem_withoutId.mp hother).1)
    · rw [Function.update_of_ne hq] at hother
      rw [ChildRegistry.startUnregister_pending, Function.update_of_ne hq]
      exact h.active q other hother

theorem RegistryInv.unregister (h : RegistryInv s) (hidle : s.pending p = none) (id : String) :
    RegistryInv (s.unregisterActiveChild p id) := by
  unfold ChildRegistry.unregisterActiveChild
  split
  · rename_i hany
    obtain ⟨own, hown, hid⟩ := List.any_eq_true.mp hany
    obtain rfl := of_decide_eq_true hid
    split
    · exact h.startUnregister hidle hown
    · -- The child that is unregistered has a record in the file.
      rename_i hlength
      obtain ⟨record, hrecord, hchild⟩ := h.tracked _ (h.registered_of_idle hidle hown)
      exact absurd (congrArg Prod.snd hchild)
        (withoutId_eq_self (not_not.mp hlength) hrecord)
  · exact h

theorem RegistryInv.write_register (h : RegistryInv s) {record : DelegationChildRecord P}
    {seen : List (DelegationChildRecord P)} (hpending : s.pending p = some (.register record seen))
    (hknows : knowsFile s seen = true) (hfree : idFree s record = true) :
    RegistryInv (s.writePersistedRegistry p (.register record seen)) := by
  obtain ⟨hprocess, hnodup⟩ := h.pending p _ hpending
  refine ⟨nodup_register hnodup, fun child hchild => ?_, fun q write hwrite => ?_,
    fun q other hother => ?_⟩
  · rcases List.mem_insert_iff.mp hchild with rfl | hold
    · exact ⟨record, List.mem_append_right _ (List.mem_singleton.mpr rfl), rfl⟩
    · obtain ⟨tracked, htracked, rfl⟩ := h.tracked child hold
      by_cases hid : tracked.id = record.id
      · have hsame := hfree
        simp only [idFree, List.all_eq_true, Bool.or_eq_true, decide_eq_true_eq] at hsame
        refine ⟨record, List.mem_append_right _ (List.mem_singleton.mpr rfl), ?_⟩
        exact Prod.ext ((hsame _ hold).resolve_left (not_not.mpr hid)).symm hid.symm
      · obtain ⟨copy, hcopy, hsame⟩ := copy_of_knowsFile hknows htracked
        refine ⟨copy, List.mem_append_left _ (mem_withoutId.mpr ⟨hcopy, ?_⟩), hsame⟩
        rwa [show copy.id = tracked.id from congrArg Prod.snd hsame]
  · rw [ChildRegistry.writePersistedRegistry_pending] at hwrite
    by_cases hq : q = p
    · subst hq
      rw [Function.update_self] at hwrite
      cases hwrite
    · rw [Function.update_of_ne hq] at hwrite
      exact (h.pending q write hwrite).other (fun _ hchild _ => List.mem_insert_of_mem hchild) rfl
  · rcases h.active q other hother with hregistered | ⟨new, copy, hnew, hid⟩
    · exact .inl (List.mem_insert_of_mem hregistered)
    · by_cases hq : q = p
      · subst hq
        have hsame := Option.some.inj (hpending.symm.trans hnew)
        obtain ⟨rfl, rfl⟩ := PendingWrite.register.inj hsame
        refine .inl (List.mem_insert_iff.mpr (.inl ?_))
        rw [← hid, ← hprocess]
        rfl
      · refine .inr ⟨new, copy, ?_, hid⟩
        rw [ChildRegistry.writePersistedRegistry_pending, Function.update_of_ne hq, hnew]

theorem RegistryInv.write_unregister (h : RegistryInv s) {id : String}
    {seen : List (DelegationChildRecord P)} (hpending : s.pending p = some (.unregister id seen))
    (hknows : knowsFile s seen = true) :
    RegistryInv (s.writePersistedRegistry p (.unregister id seen)) := by
  obtain ⟨-, hnodup, hgone⟩ := h.pending p _ hpending
  have hmem : ∀ {child : P × String}, child ∈ s.registered → child ≠ (p, id) →
      child ∈ s.registered.filter fun child => child ≠ (p, id) := by
    intro child hchild hne
    exact List.mem_filter.mpr ⟨hchild, decide_eq_true hne⟩
  refine ⟨nodup_withoutId hnodup, fun child hchild => ?_, fun q write hwrite => ?_,
    fun q other hother => ?_⟩
  · obtain ⟨hchild, hne⟩ := List.mem_filter.mp hchild
    obtain ⟨tracked, htracked, rfl⟩ := h.tracked child hchild
    exact h.others_kept hpending hknows htracked (of_decide_eq_true hne)
  · rw [ChildRegistry.writePersistedRegistry_pending] at hwrite
    by_cases hq : q = p
    · subst hq
      rw [Function.update_self] at hwrite
      cases hwrite
    · rw [Function.update_of_ne hq] at hwrite
      refine (h.pending q write hwrite).other (fun child hchild hprocess => ?_) rfl
      exact hmem hchild fun heq => hq (hprocess.symm.trans (congrArg Prod.fst heq))
  · rcases h.active q other hother with hregistered | ⟨new, copy, hnew, hid⟩
    · refine .inl (hmem hregistered fun heq => ?_)
      obtain ⟨rfl, hid⟩ := Prod.mk.inj heq
      exact hgone other hother hid
    · have hq : q ≠ p := by
        rintro rfl
        cases Option.some.inj (hpending.symm.trans hnew)
      refine .inr ⟨new, copy, ?_, hid⟩
      rw [ChildRegistry.writePersistedRegistry_pending, Function.update_of_ne hq, hnew]

theorem RegistryInv.step (h : RegistryInv s) {a : ChildAction P} (hok : keepsChildren s a = true)
    (hstep : (childRegistry P).step s a = some t) : RegistryInv t := by
  cases a with
  | register p child =>
      obtain ⟨hidle, rfl⟩ := Option.ite_some_none_eq_some.mp hstep
      exact (h.count _).register (Option.isNone_iff_eq_none.mp hidle)
  | renew p id deadlineAt =>
      obtain ⟨hidle, hrenew⟩ := Option.ite_none_right_eq_some.mp hstep
      obtain ⟨record, -, rfl⟩ := Option.map_eq_some_iff.mp hrenew
      exact h.register (Option.isNone_iff_eq_none.mp hidle)
  | unregister p id =>
      obtain ⟨hidle, rfl⟩ := Option.ite_some_none_eq_some.mp hstep
      exact h.unregister (Option.isNone_iff_eq_none.mp hidle) id
  | write p =>
      obtain ⟨write, hpending, rfl⟩ := Option.map_eq_some_iff.mp hstep
      simp only [keepsChildren, hpending] at hok
      cases write with
      | register record seen =>
          obtain ⟨hknows, hfree⟩ := Bool.and_eq_true_iff.mp hok
          exact h.write_register hpending hknows hfree
      | unregister id seen => exact h.write_unregister hpending hok

end Steps

/-- While every write keeps the children: the file has a record of each registered child, and the
write of an unregistration keeps the records of the other children. -/
theorem children_tracked
    (hs : (childRegistry P).Reach (fun s a => keepsChildren s a = true) s) :
    (∀ child ∈ s.registered, ∃ record ∈ s.file, record.child = child) ∧
      ∀ id seen, s.pending p = some (.unregister id seen) →
        keepsChildren s (.write p) = true → (childRegistry P).step s (.write p) = some t →
        ∀ record ∈ s.file, record.child ≠ (p, id) →
          ∃ kept ∈ t.file, kept.child = record.child := by
  have h : RegistryInv s := by
    refine hs.invariant (fun s hinit => ?_) fun s a t h hok hstep => h.step hok hstep
    obtain ⟨hfile, -, hactive, hpending, hregistered⟩ := hinit
    refine ⟨by simp [hfile], by simp [hregistered], fun p write hwrite => ?_,
      fun p record hrecord => ?_⟩
    · have hnone := hpending p
      rw [hwrite] at hnone
      cases hnone
    · rw [hactive] at hrecord
      cases hrecord
  refine ⟨h.tracked, fun id seen hpending hok hstep record hrecord hother => ?_⟩
  obtain ⟨write, hwrite, rfl⟩ := Option.map_eq_some_iff.mp hstep
  obtain rfl := Option.some.inj (hpending.symm.trans hwrite)
  simp only [keepsChildren, hpending] at hok
  exact h.others_kept hpending hok hrecord hother

def claudeChild : ChildInput where
  provider := "claude"
  startedAt := "2026-01-01T00:00:00.000Z"
  deadlineAt := "2026-01-01T00:10:00.000Z"
  budgetMs := 600000

def codexChild : ChildInput :=
  { claudeChild with provider := "codex" }

def emptyRegistry : ChildRegistry Bool :=
  ⟨[], fun _ => 0, fun _ => [], fun _ => none, []⟩

/-- Two children of different providers, one after the other; the second is unregistered. -/
theorem children_tracked_unregistered : ∃ s : ChildRegistry Bool,
    s.registered = [(true, "codex-1"), (false, "claude-1")] ∧
      (∀ child ∈ s.registered, ∃ record ∈ s.file, record.child = child) ∧
      ∃ t, (childRegistry Bool).step s (.write true) = some t ∧
        ∀ record ∈ s.file, record.child ≠ (true, "codex-1") →
          ∃ kept ∈ t.file, kept.child = record.child := by
  obtain ⟨s, hs, hregistered, hpending, hok⟩ := Transition.System.exists_reach_of_execOk
    (S := childRegistry Bool) (fun s a => keepsChildren s a) (s := emptyRegistry)
    [.register false claudeChild, .write false, .register true codexChild, .write true,
      .unregister true "codex-1"]
    (fun s => s.registered = [(true, "codex-1"), (false, "claude-1")] ∧
      s.pending true = some (.unregister "codex-1" s.file) ∧
      keepsChildren s (.write true) = true)
    ⟨rfl, fun _ => rfl, fun _ => rfl, fun _ => rfl, rfl⟩ (by decide +kernel)
  have hstep : (childRegistry Bool).step s (.write true) =
      some (s.writePersistedRegistry true (.unregister "codex-1" s.file)) :=
    congrArg (Option.map _) hpending
  obtain ⟨htracked, hkept⟩ := children_tracked (p := true)
    (t := s.writePersistedRegistry true (.unregister "codex-1" s.file)) hs
  exact ⟨s, hregistered, htracked, _, hstep, hkept "codex-1" s.file hpending hok hstep⟩

/-- Two processes register at the same time; another pair counts up to one id. -/
theorem child_dropped : ¬ ∀ s, (childRegistry Bool).Reachable s →
    ∀ child ∈ s.registered, ∃ record ∈ s.file, record.child = child := by
  intro h
  obtain ⟨s, hs, hregistered, hfile⟩ := Transition.System.exists_reachable_of_exec
    (S := childRegistry Bool) (s := emptyRegistry)
    [.register false claudeChild, .register true codexChild, .write false, .write true]
    (fun s => (false, "claude-1") ∈ s.registered ∧
      s.file.map DelegationChildRecord.child = [(true, "codex-1")])
    ⟨rfl, fun _ => rfl, fun _ => rfl, fun _ => rfl, rfl⟩ (by decide +kernel)
  obtain ⟨record, hrecord, hchild⟩ := h s hs _ hregistered
  have hmem := List.mem_map_of_mem (f := DelegationChildRecord.child) hrecord
  rw [hfile, hchild] at hmem
  cases List.mem_singleton.mp hmem

end Kyberion.Delegation
