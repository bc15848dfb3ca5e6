import Kyberion.Workforce.WorkspaceLedger
import Mathlib.Data.Fintype.Basic
import Mathlib.Data.List.Nodup

/-!
A deletion removes the path between its two locked phases. As long as nothing registers the path or
one below it in between, and no reconcile of the record becomes pending, the removal and the drop
hit a released record only. A re-registration in between gives the removal a live workspace.
-/

namespace Kyberion.Workforce

variable {C : Type}

/-- A registration of the path leaves the deletion its released record. -/
def leavesDelete (records : List WorkspaceRecord) (path : WorkspacePath) :
    Option DeleteCall → Bool
  | some (.staged record) => ¬ isPathInsideOrEqual record.path path
  | some (.removed record _) => records.all fun other => other.id ≠ record.id ∨ other.path ≠ path
  | _ => true

/-- The record that a deletion is about to stage holds no reconcile, and nothing live lies in it. -/
def staysReleased (records : List WorkspaceRecord) : Option DeleteCall → Bool
  | some (.probed id guard _) => !guard.expect.hasPendingReconcile &&
      records.all fun record => record.id ≠ id || records.all fun other =>
        other.id = id || !isPathInsideOrEqual record.path other.path || !other.live
  | _ => true

/-- No deletion of the record is between its phases. -/
def notStaged (id : String) (phase : Option DeleteCall) : Bool :=
  (phase.bind DeleteCall.record).all fun record => record.id ≠ id

def Undisturbed (s : WorkspaceLedger C) : WorkspaceAction C → Prop
  | .registerWorkspace _ input _ => ∀ call, leavesDelete s.records input.path (s.deletes call)
  | .annotateWorkspace id update => update.pendingReconcile.any Option.isSome →
      (findRecord s.records id).isSome → ∀ call, notStaged id (s.deletes call)
  | .validate call _ => staysReleased s.records (s.deletes call)
  | _ => True

instance [Fintype C] (s : WorkspaceLedger C) : (a : WorkspaceAction C) → Decidable (Undisturbed s a)
  | .registerWorkspace _ input _ =>
      inferInstanceAs (Decidable
        (∀ call, leavesDelete s.records input.path (s.deletes call) = true))
  | .annotateWorkspace id update =>
      inferInstanceAs (Decidable (update.pendingReconcile.any Option.isSome = true →
        (findRecord s.records id).isSome = true → ∀ call, notStaged id (s.deletes call) = true))
  | .validate call _ =>
      inferInstanceAs (Decidable (staysReleased s.records (s.deletes call) = true))
  | .releaseWorkspace _ _ _ | .deleteRegisteredWorkspace _ _ _ | .probe _ _ _ | .remove _ _
  | .drop _ => .isTrue trivial

variable [DecidableEq C]

/-- No removal hits the path of a live record, no step drops a live record or one with a pending
reconcile, and no path has two records. -/
structure NeverReclaimsLive (s : WorkspaceLedger C) : Prop where
  removal : ∀ call disk record, s.deletes call = some (.staged record) →
    (removeWorkspaceFromDisk record disk).deletes = true →
    ∀ other ∈ s.records, isPathInsideOrEqual record.path other.path → other.live = false
  kept : ∀ a t, (workspaceLedger C).step s a = some t → ∀ record ∈ s.records,
    record.live = true ∨ record.pendingReconcile.isSome →
    ∃ kept ∈ t.records, kept.id = record.id ∧ kept.path = record.path
  paths : (s.records.map (·.path)).Nodup

/-- Between the phases of a deletion its record is released and holds no pending reconcile. -/
structure DeleteInv (s : WorkspaceLedger C) (record : WorkspaceRecord) : Prop where
  issued : record.id ∈ s.issued
  released : ∀ other ∈ s.records, other.id = record.id →
    other.path = record.path ∧ other.live = false ∧ other.pendingReconcile = none

structure LedgerInv (s : WorkspaceLedger C) : Prop where
  ids : (s.records.map (·.id)).Nodup
  paths : (s.records.map (·.path)).Nodup
  issued : ∀ record ∈ s.records, record.id ∈ s.issued
  deletes : ∀ call record, (s.deletes call).bind DeleteCall.record = some record →
    DeleteInv s record
  staged : ∀ call record, s.deletes call = some (.staged record) →
    ∀ other ∈ s.records, isPathInsideOrEqual record.path other.path → other.live = false

section Records

variable {records : List WorkspaceRecord} {id now : String} {record new existing : WorkspaceRecord}

theorem mem_replaceRecord (h : record ∈ replaceRecord records new) :
    record = new ∨ record ∈ records ∧ record.id ≠ new.id := by
  obtain ⟨old, hold, heq⟩ := List.mem_map.mp h
  split at heq
  · exact .inl heq.symm
  · rename_i hid
    exact .inr (heq ▸ ⟨hold, hid⟩)

theorem map_id_replaceRecord :
    (replaceRecord records new).map (·.id) = records.map (·.id) := by
  rw [replaceRecord, List.map_map]
  refine List.map_congr_left fun record _ => ?_
  rw [Function.comp_apply]
  split
  · rename_i hid
    exact hid.symm
  · rfl

theorem map_path_replaceRecord (hids : (records.map (·.id)).Nodup) (hexisting : existing ∈ records)
    (hid : new.id = existing.id) (hpath : new.path = existing.path) :
    (replaceRecord records new).map (·.path) = records.map (·.path) := by
  rw [replaceRecord, List.map_map]
  refine List.map_congr_left fun record hrecord => ?_
  rw [Function.comp_apply]
  split
  · rename_i hsame
    rw [hpath, List.inj_on_of_nodup_map hids hrecord hexisting (hsame.trans hid)]
  · rfl

/-- A replacement keeps the ids and the paths of all records. -/
theorem kept_replaceRecord (hids : (records.map (·.id)).Nodup) (hexisting : existing ∈ records)
    (hid : new.id = existing.id) (hpath : new.path = existing.path) (hrecord : record ∈ records) :
    ∃ kept ∈ replaceRecord records new, kept.id = record.id ∧ kept.path = record.path := by
  refine ⟨_, List.mem_map_of_mem hrecord, ?_⟩
  split
  · rename_i hsame
    rw [List.inj_on_of_nodup_map hids hrecord hexisting (hsame.trans hid)]
    exact ⟨hid, hpath⟩
  · exact ⟨rfl, rfl⟩

theorem findRecord_spec (h : findRecord records id = some record) :
    record ∈ records ∧ record.id = id :=
  ⟨List.mem_of_find?_eq_some h, by simpa using List.find?_some h⟩

/-- What a registration writes: the record of its path again, or a new one of a new path. -/
theorem registerWithId_cases {input : RegisterWorkspaceInput}
    {out : List WorkspaceRecord × WorkspaceRecord}
    (h : registerWithId records id input now = .ok out) :
    (∃ existing ∈ records, existing.path = input.path ∧
      out.1 = replaceRecord records (reactivated existing input)) ∨
    (∀ record ∈ records, record.path ≠ input.path) ∧
      out.1 = records ++ [registered id input now] := by
  unfold registerWithId at h
  cases hfind : records.find? fun record => record.path = input.path with
  | some existing =>
      rw [hfind] at h
      obtain ⟨-, hout⟩ := Js.throwIf_eq_ok.mp h
      obtain rfl := Except.ok.inj hout
      exact .inl ⟨existing, List.mem_of_find?_eq_some hfind, by simpa using List.find?_some hfind,
        rfl⟩
  | none =>
      rw [hfind] at h
      obtain rfl := Except.ok.inj h
      exact .inr ⟨fun record hrecord => by simpa using List.find?_eq_none.mp hfind record hrecord,
        rfl⟩

/-- A deletion stages the record of its id as the guard saw it. -/
theorem stageDelete_spec {guard : DeleteWorkspaceGuard} {probed : Option WorkspaceRecordSnapshot}
    {resolved : Option WorkspacePath}
    (h : stageDelete records id guard probed resolved = .ok record) :
    record ∈ records ∧ record.id = id ∧
      ∀ expected ∈ guard.expect, workspaceRecordSnapshot record = expected := by
  unfold stageDelete at h
  cases hfind : findRecord records id with
  | none =>
      rw [hfind] at h
      cases h
  | some found =>
      rw [hfind] at h
      simp only [Js.throwIf_eq_ok, Except.ok.injEq] at h
      obtain ⟨hexpect, -, -, rfl⟩ := h
      obtain ⟨hmem, hid⟩ := findRecord_spec hfind
      refine ⟨hmem, hid, fun expected hexpected => ?_⟩
      by_contra hne
      exact hexpect ⟨expected, hexpected, hne⟩

end Records

section Edits

omit [DecidableEq C]

variable {s : WorkspaceLedger C}

theorem LedgerInv.issue (h : LedgerInv s) (id : String) :
    LedgerInv { s with issued := id :: s.issued } :=
  ⟨h.ids, h.paths, fun record hrecord => List.mem_cons_of_mem _ (h.issued record hrecord),
    fun call record hrecord => ⟨List.mem_cons_of_mem _ (h.deletes call record hrecord).issued,
      (h.deletes call record hrecord).released⟩,
    h.staged⟩

/-- The record of one id and path changes: what each deletion needs of it carries over. -/
theorem LedgerInv.replace (h : LedgerInv s) {new existing : WorkspaceRecord}
    (hexisting : existing ∈ s.records) (hid : new.id = existing.id)
    (hpath : new.path = existing.path)
    (hdeletes : ∀ call record, (s.deletes call).bind DeleteCall.record = some record →
      existing.id = record.id → new.live = false ∧ new.pendingReconcile = none)
    (hstaged : ∀ call record, s.deletes call = some (.staged record) →
      isPathInsideOrEqual record.path existing.path → new.live = false) :
    LedgerInv { s with records := replaceRecord s.records new } where
  ids := map_id_replaceRecord.symm ▸ h.ids
  paths := (map_path_replaceRecord h.ids hexisting hid hpath).symm ▸ h.paths
  issued record hrecord := by
    rcases mem_replaceRecord hrecord with rfl | ⟨hold, -⟩
    · rw [hid]
      exact h.issued existing hexisting
    · exact h.issued record hold
  deletes call record hrecord := by
    have hdelete := h.deletes call record hrecord
    refine ⟨hdelete.issued, fun other hother hsame => ?_⟩
    rcases mem_replaceRecord hother with rfl | ⟨hold, -⟩
    · rw [hid] at hsame
      refine ⟨?_, hdeletes call record hrecord hsame⟩
      rw [hpath]
      exact (hdelete.released existing hexisting hsame).1
    · exact hdelete.released other hold hsame
  staged call record hrecord other hother hinside := by
    rcases mem_replaceRecord hother with rfl | ⟨hold, -⟩
    · rw [hpath] at hinside
      exact hstaged call record hrecord hinside
    · exact h.staged call record hrecord other hold hinside

theorem LedgerInv.append (h : LedgerInv s) {new : WorkspaceRecord}
    (hid : new.id ∉ s.issued) (hpath : ∀ record ∈ s.records, record.path ≠ new.path)
    (hstaged : ∀ call record, s.deletes call = some (.staged record) →
      ¬ isPathInsideOrEqual record.path new.path) :
    LedgerInv { s with records := s.records ++ [new], issued := new.id :: s.issued } where
  ids := by
    rw [List.map_append, List.map_singleton, List.nodup_append]
    refine ⟨h.ids, List.nodup_singleton _, fun id hold other hnew => ?_⟩
    obtain ⟨record, hrecord, rfl⟩ := List.mem_map.mp hold
    rw [List.mem_singleton.mp hnew]
    exact fun heq => hid (heq ▸ h.issued record hrecord)
  paths := by
    rw [List.map_append, List.map_singleton, List.nodup_append]
    refine ⟨h.paths, List.nodup_singleton _, fun path hold other hnew => ?_⟩
    obtain ⟨record, hrecord, rfl⟩ := List.mem_map.mp hold
    rw [List.mem_singleton.mp hnew]
    exact hpath record hrecord
  issued record hrecord := by
    rcases List.mem_append.mp hrecord with hold | hnew
    · exact List.mem_cons_of_mem _ (h.issued record hold)
    · rw [List.mem_singleton.mp hnew]
      exact List.mem_cons_self
  deletes call record hrecord := by
    have hdelete := h.deletes call record hrecord
    refine ⟨List.mem_cons_of_mem _ hdelete.issued, fun other hother hsame => ?_⟩
    rcases List.mem_append.mp hother with hold | hnew
    · exact hdelete.released other hold hsame
    · rw [List.mem_singleton.mp hnew] at hsame
      exact absurd (hsame ▸ hdelete.issued) hid
  staged call record hrecord other hother hinside := by
    rcases List.mem_append.mp hother with hold | hnew
    · exact h.staged call record hrecord other hold hinside
    · rw [List.mem_singleton.mp hnew] at hinside
      exact absurd hinside (hstaged call record hrecord)

theorem LedgerInv.register (h : LedgerInv s) {id now : String} {input : RegisterWorkspaceInput}
    (hfresh : id ∉ s.issued)
    (hok : ∀ call, leavesDelete s.records input.path (s.deletes call) = true) :
    LedgerInv (s.register id input now) := by
  have hstaged : ∀ call record, s.deletes call = some (.staged record) →
      ¬ isPathInsideOrEqual record.path input.path := by
    intro call record hrecord
    have hleaves := hok call
    rw [hrecord] at hleaves
    exact of_decide_eq_true hleaves
  unfold WorkspaceLedger.register
  cases hresult : registerWithId s.records id input now with
  | error _ => exact h.issue id
  | ok out =>
      dsimp only [Except.map, Js.commit]
      rcases registerWithId_cases hresult with ⟨existing, hexisting, hpath, hout⟩ | ⟨hpath, hout⟩
      · rw [hout]
        refine (h.issue id).replace hexisting rfl rfl (fun call record hrecord hsame => ?_)
          fun call record hrecord hinside => absurd (hpath ▸ hinside) (hstaged call record hrecord)
        -- The deletion would be of this record, at this path.
        exfalso
        cases hphase : s.deletes call with
        | none => simp [hphase] at hrecord
        | some phase =>
            have hleaves := hok call
            have hown := ((h.deletes call record hrecord).released existing hexisting hsame).1
            simp only [hphase, Option.bind_some] at hrecord
            cases phase with
            | called _ _ => cases hrecord
            | probed _ _ _ => cases hrecord
            | staged record =>
                obtain rfl := Option.some.inj hrecord
                refine hstaged call record hphase ?_
                rw [← hpath, hown]
                exact List.prefix_rfl
            | removed record _ =>
                obtain rfl := Option.some.inj hrecord
                simp only [hphase, leavesDelete, List.all_eq_true, decide_eq_true_eq] at hleaves
                exact (hleaves existing hexisting).elim (· hsame) (· hpath)
      · rw [hout]
        exact h.append hfresh hpath hstaged

theorem LedgerInv.release (h : LedgerInv s) (id now : String) (bytes : Option ℤ) :
    LedgerInv { s with records := (releaseWorkspace s.records id now bytes).1 } := by
  unfold releaseWorkspace
  cases hfind : findRecord s.records id with
  | none => exact h
  | some existing =>
      have hmem := (findRecord_spec hfind).1
      dsimp only
      split
      · refine h.replace hmem rfl rfl (fun call record hrecord hsame => ?_) fun _ _ _ _ => rfl
        exact ⟨rfl, ((h.deletes call record hrecord).released existing hmem hsame).2.2⟩
      · exact h

theorem LedgerInv.annotate (h : LedgerInv s) {id : String} {update : WorkspaceAnnotation}
    (hok : Undisturbed s (.annotateWorkspace id update)) :
    LedgerInv { s with records := (annotateWorkspace s.records id update).1 } := by
  unfold annotateWorkspace
  cases hfind : findRecord s.records id with
  | none => exact h
  | some existing =>
      obtain ⟨hmem, hid⟩ := findRecord_spec hfind
      refine h.replace hmem rfl rfl (fun call record hrecord hsame => ?_)
        fun call record hrecord hinside => h.staged call record hrecord existing hmem hinside
      obtain ⟨-, hlive, hpending⟩ := (h.deletes call record hrecord).released existing hmem hsame
      refine ⟨hlive, ?_⟩
      cases hupdate : update.pendingReconcile with
      | none => simp [annotated, hupdate, hpending]
      | some reconcile =>
          cases reconcile with
          | none => simp [annotated, hupdate]
          | some pending =>
              have hfree := hok (by simp [hupdate]) (by simp [hfind]) call
              simp [notStaged, hrecord, ← hsame, hid] at hfree

theorem LedgerInv.drop (h : LedgerInv s) (record : WorkspaceRecord) :
    LedgerInv { s with records := dropRecord s.records record } :=
  ⟨h.ids.sublist (List.filter_sublist.map _), h.paths.sublist (List.filter_sublist.map _),
    fun other hother => h.issued other (List.mem_filter.mp hother).1,
    fun call staged hstaged => ⟨(h.deletes call staged hstaged).issued,
      fun other hother => (h.deletes call staged hstaged).released other
        (List.mem_filter.mp hother).1⟩,
    fun call staged hstaged other hother => h.staged call staged hstaged other
      (List.mem_filter.mp hother).1⟩

end Edits

section Steps

variable {s : WorkspaceLedger C}

/-- A call moves on: what its new phase needs holds. -/
theorem LedgerInv.setDelete (h : LedgerInv s) (call : C) {phase : Option DeleteCall}
    (hdelete : ∀ record, phase.bind DeleteCall.record = some record → DeleteInv s record)
    (hstaged : ∀ record, phase = some (.staged record) →
      ∀ other ∈ s.records, isPathInsideOrEqual record.path other.path → other.live = false) :
    LedgerInv (s.setDelete call phase) where
  ids := h.ids
  paths := h.paths
  issued := h.issued
  deletes other record hrecord := by
    rw [WorkspaceLedger.setDelete_deletes] at hrecord
    by_cases hcall : other = call
    · rw [hcall, Function.update_self] at hrecord
      exact ⟨(hdelete record hrecord).issued, (hdelete record hrecord).released⟩
    · rw [Function.update_of_ne hcall] at hrecord
      exact ⟨(h.deletes other record hrecord).issued, (h.deletes other record hrecord).released⟩
  staged other record hrecord := by
    rw [WorkspaceLedger.setDelete_deletes] at hrecord
    by_cases hcall : other = call
    · rw [hcall, Function.update_self] at hrecord
      exact hstaged record hrecord
    · rw [Function.update_of_ne hcall] at hrecord
      exact h.staged other record hrecord

theorem LedgerInv.endDelete (h : LedgerInv s) (call : C) : LedgerInv (s.setDelete call none) :=
  h.setDelete call (fun _ hrecord => by cases hrecord) fun _ hrecord => by cases hrecord

theorem LedgerInv.validate (h : LedgerInv s) {call : C} {id : String} {guard : ReleasedGuard}
    {snapshot : Option WorkspaceRecordSnapshot} {resolved : Option WorkspacePath}
    (hok : staysReleased s.records (some (.probed id guard snapshot)) = true) :
    LedgerInv (s.setDelete call <| Except.toOption <|
      (stageDelete s.records id guard.toGuard snapshot resolved).map .staged) := by
  cases hstage : stageDelete s.records id guard.toGuard snapshot resolved with
  | error _ => exact h.endDelete call
  | ok record =>
      obtain ⟨hmem, hid, hexpect⟩ := stageDelete_spec hstage
      have hsnapshot := hexpect guard.expect rfl
      simp only [staysReleased, Bool.and_eq_true, Bool.not_eq_true', List.all_eq_true,
        Bool.or_eq_true, decide_eq_true_eq, decide_eq_false_iff_not] at hok
      obtain ⟨hpending, hbelow⟩ := hok
      have hlive : record.live = false :=
        (congrArg WorkspaceRecordSnapshot.live hsnapshot).trans guard.released
      have hnone : record.pendingReconcile = none := by
        have hsame := congrArg WorkspaceRecordSnapshot.hasPendingReconcile hsnapshot
        rw [hpending] at hsame
        exact Option.isNone_iff_eq_none.mp (by simpa [workspaceRecordSnapshot] using hsame)
      have hunique : ∀ other ∈ s.records, other.id = record.id → other = record :=
        fun other hother hsame => List.inj_on_of_nodup_map h.ids hother hmem hsame
      refine h.setDelete call (fun staged hstaged => ?_)
        fun staged hstaged other hother hinside => ?_
      · obtain rfl := Option.some.inj hstaged
        refine ⟨h.issued record hmem, fun other hother hsame => ?_⟩
        rw [hunique other hother hsame]
        exact ⟨rfl, hlive, hnone⟩
      · obtain rfl := DeleteCall.staged.inj (Option.some.inj hstaged)
        rcases (hbelow record hmem).resolve_left (not_not.mpr hid) other hother with
          (hsame | houtside) | hdead
        · rw [hunique other hother (hsame.trans hid.symm)]
          exact hlive
        · exact absurd hinside houtside
        · exact hdead

theorem LedgerInv.step (h : LedgerInv s) {t : WorkspaceLedger C} {a : WorkspaceAction C}
    (hok : Undisturbed s a) (hstep : (workspaceLedger C).step s a = some t) : LedgerInv t := by
  cases a with
  | registerWorkspace id input now =>
      obtain ⟨hfresh, rfl⟩ := Option.ite_some_none_eq_some.mp hstep
      exact h.register hfresh hok
  | releaseWorkspace id now bytes =>
      obtain rfl := Option.some.inj hstep
      exact h.release id now bytes
  | annotateWorkspace id update =>
      obtain rfl := Option.some.inj hstep
      exact h.annotate hok
  | deleteRegisteredWorkspace call id guard =>
      obtain ⟨-, rfl⟩ := Option.ite_some_none_eq_some.mp hstep
      exact h.setDelete call (fun _ hrecord => by cases hrecord) fun _ hrecord => by cases hrecord
  | probe call resolved unsaved =>
      dsimp only [workspaceLedger] at hstep
      split at hstep
      · rename_i id guard _
        obtain rfl := Option.some.inj hstep
        cases probeWorktreeBeforeLock s.records id guard.toGuard resolved unsaved with
        | error _ => exact h.endDelete call
        | ok snapshot =>
            exact h.setDelete call (fun _ hrecord => by cases hrecord)
              fun _ hrecord => by cases hrecord
      · cases hstep
  | validate call resolved =>
      dsimp only [workspaceLedger] at hstep
      split at hstep
      · rename_i id guard snapshot hphase
        obtain rfl := Option.some.inj hstep
        rw [Undisturbed, hphase] at hok
        exact h.validate hok
      · cases hstep
  | remove call disk =>
      dsimp only [workspaceLedger] at hstep
      split at hstep
      · rename_i record hphase
        obtain rfl := Option.some.inj hstep
        cases (removeWorkspaceFromDisk record disk).returned with
        | none => exact h.endDelete call
        | some removedFromDisk =>
            refine h.setDelete call (fun other hother => ?_) fun _ hrecord => by cases hrecord
            obtain rfl := Option.some.inj hother
            exact h.deletes call record (by rw [hphase]; rfl)
      · cases hstep
  | drop call =>
      dsimp only [workspaceLedger] at hstep
      split at hstep
      · rename_i record _ _
        obtain rfl := Option.some.inj hstep
        exact (h.endDelete call).drop record
      · cases hstep

/-- Every step keeps the live records and the ones with a pending reconcile. -/
theorem LedgerInv.kept (h : LedgerInv s) {t : WorkspaceLedger C} {a : WorkspaceAction C}
    (hstep : (workspaceLedger C).step s a = some t) {record : WorkspaceRecord}
    (hrecord : record ∈ s.records)
    (hheld : record.live = true ∨ record.pendingReconcile.isSome = true) :
    ∃ kept ∈ t.records, kept.id = record.id ∧ kept.path = record.path := by
  have hself : ∃ kept ∈ s.records, kept.id = record.id ∧ kept.path = record.path :=
    ⟨record, hrecord, rfl, rfl⟩
  cases a with
  | registerWorkspace id input now =>
      obtain ⟨-, rfl⟩ := Option.ite_some_none_eq_some.mp hstep
      unfold WorkspaceLedger.register
      cases hresult : registerWithId s.records id input now with
      | error _ => exact hself
      | ok out =>
          dsimp only [Except.map, Js.commit]
          rcases registerWithId_cases hresult with ⟨existing, hexisting, -, hout⟩ | ⟨-, hout⟩
          · rw [hout]
            exact kept_replaceRecord h.ids hexisting rfl rfl hrecord
          · rw [hout]
            exact ⟨record, List.mem_append_left _ hrecord, rfl, rfl⟩
  | releaseWorkspace id now bytes =>
      obtain rfl := Option.some.inj hstep
      unfold releaseWorkspace
      cases hfind : findRecord s.records id with
      | none => exact hself
      | some existing =>
          dsimp only
          split
          · exact kept_replaceRecord h.ids (findRecord_spec hfind).1 rfl rfl hrecord
          · exact hself
  | annotateWorkspace id update =>
      obtain rfl := Option.some.inj hstep
      unfold annotateWorkspace
      cases hfind : findRecord s.records id with
      | none => exact hself
      | some existing => exact kept_replaceRecord h.ids (findRecord_spec hfind).1 rfl rfl hrecord
  | deleteRegisteredWorkspace call id guard =>
      obtain ⟨-, rfl⟩ := Option.ite_some_none_eq_some.mp hstep
      exact hself
  | probe call resolved unsaved | validate call resolved | remove call disk =>
      dsimp only [workspaceLedger] at hstep
      split at hstep
      · obtain rfl := Option.some.inj hstep
        exact hself
      · cases hstep
  | drop call =>
      dsimp only [workspaceLedger] at hstep
      split at hstep
      · rename_i dropped _ hphase
        obtain rfl := Option.some.inj hstep
        refine ⟨record, List.mem_filter.mpr ⟨hrecord, decide_eq_true fun hsame => ?_⟩, rfl, rfl⟩
        have hdelete := h.deletes call dropped (by rw [hphase]; rfl)
        obtain ⟨-, hdead, hnone⟩ := hdelete.released record hrecord hsame.1
        simp [hdead, hnone] at hheld
      · cases hstep

end Steps

/-- While no registration and no pending reconcile comes between the phases of a deletion. -/
theorem live_never_reclaimed {s : WorkspaceLedger C}
    (hs : (workspaceLedger C).Reach Undisturbed s) : NeverReclaimsLive s := by
  have h : LedgerInv s := by
    refine hs.invariant (fun s hinit => ?_) fun s a t h hok hstep => h.step hok hstep
    obtain ⟨hrecords, hdeletes⟩ := hinit
    have hnone : ∀ call, s.deletes call = none := fun call =>
      Option.isNone_iff_eq_none.mp (hdeletes call)
    exact ⟨by simp [hrecords], by simp [hrecords], by simp [hrecords], by simp [hnone],
      by simp [hnone]⟩
  exact ⟨fun call _ record hphase _ => h.staged call record hphase, fun _ _ => h.kept, h.paths⟩

def firstScratch : RegisterWorkspaceInput where
  path := ["runtime", "workspaces", "a"]
  kind := .scratchDir
  owner := {}

def secondScratch : RegisterWorkspaceInput :=
  { firstScratch with path := ["runtime", "workspaces", "b"] }

/-- The snapshot of the first workspace after its release. -/
def releasedGuard : ReleasedGuard where
  expect := ⟨false, "2026-01-01", some "2026-01-02", none, none, false⟩
  released := rfl

def emptyLedger : WorkspaceLedger Bool :=
  ⟨[], [], fun _ => none⟩

/-- Two workspaces, of which the first is released and its deletion is under way. -/
def stagedFirst : List (WorkspaceAction Bool) :=
  [.registerWorkspace "ws-1" firstScratch "2026-01-01",
    .registerWorkspace "ws-2" secondScratch "2026-01-01",
    .releaseWorkspace "ws-1" "2026-01-02" none,
    .deleteRegisteredWorkspace false "ws-1" releasedGuard,
    .probe false none none,
    .validate false (some firstScratch.path)]

/-- The record of the first workspace after its release. -/
def releasedFirst : WorkspaceRecord :=
  released (registered "ws-1" firstScratch "2026-01-01") "2026-01-02" none

theorem live_never_reclaimed_staged : ∃ s : WorkspaceLedger Bool,
    s.deletes false = some (.staged releasedFirst) ∧
      registered "ws-2" secondScratch "2026-01-01" ∈ s.records ∧ NeverReclaimsLive s := by
  obtain ⟨s, hs, hstaged, hlive⟩ := Transition.System.exists_reach_of_execOk
    (S := workspaceLedger Bool) (fun s a => decide (Undisturbed s a)) (s := emptyLedger)
    stagedFirst
    (fun s => s.deletes false = some (.staged releasedFirst) ∧
      registered "ws-2" secondScratch "2026-01-01" ∈ s.records)
    ⟨rfl, fun _ => rfl⟩ (by decide +kernel)
  exact ⟨s, hstaged, hlive, live_never_reclaimed (hs.mono fun _ _ h => of_decide_eq_true h)⟩

/-- Between the phases the path is registered again: the removal hits a live workspace. -/
theorem live_reclaimed :
    ¬ ∀ s, (workspaceLedger Bool).Reachable s → NeverReclaimsLive s := by
  intro h
  obtain ⟨s, hs, hstaged, record, hrecord, hpath, hlive⟩ :=
    Transition.System.exists_reachable_of_exec (S := workspaceLedger Bool) (s := emptyLedger)
      (stagedFirst ++ [.registerWorkspace "ws-3" firstScratch "2026-01-03"])
      (fun s => s.deletes false = some (.staged releasedFirst) ∧
        ∃ record ∈ s.records, record.path = firstScratch.path ∧ record.live = true)
      ⟨rfl, fun _ => rfl⟩ (by decide +kernel)
  have hinside : isPathInsideOrEqual releasedFirst.path record.path := by
    rw [hpath]
    exact List.prefix_rfl
  have hdead := (h s hs).removal false ⟨true, false, true, true⟩ releasedFirst hstaged rfl record
    hrecord hinside
  rw [hdead] at hlive
  cases hlive

end Kyberion.Workforce
