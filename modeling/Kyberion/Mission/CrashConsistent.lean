import Kyberion.Mission.Provisioned

/-!
What the receipts say of the artifacts, over every run. A target without an unverified entry
holds the text its last receipt binds, and that receipt is its latest verified one; a target
whose write was cut short keeps its entry unverified.
-/

namespace Kyberion.Mission

open Js Transition

section Tracking

variable {records pending : List ProvisionedEntryRecord} {record : ProvisionedEntryRecord}

theorem find_concat (h : findUnverifiedProvisionedEntries records = .ok pending) :
    findUnverifiedProvisionedEntries (records ++ [record]) = trackEntry pending record := by
  rw [findUnverifiedProvisionedEntries, List.foldlM_append, ← findUnverifiedProvisionedEntries, h,
    except_ok_bind, List.foldlM_cons]
  cases trackEntry pending record <;> rfl

theorem track_provisioned (hphase : record.phase = .provisioned)
    (hfresh : ∀ r ∈ pending, r.entryId ≠ record.entryId) :
    trackEntry pending record = .ok (pending ++ [record]) := by
  have habsent : (pending.any (·.entryId = record.entryId)) = false := by simpa using hfresh
  rw [trackEntry, hphase]
  exact if_neg (by rw [habsent]; decide)

theorem track_verified (hphase : record.phase = .verified) {r : ProvisionedEntryRecord}
    (hmem : r ∈ pending) (hid : r.entryId = record.entryId) :
    trackEntry pending record = .ok (pending.filter (·.entryId ≠ record.entryId)) := by
  rw [trackEntry, hphase]
  exact if_pos (List.any_eq_true.mpr ⟨r, hmem, decide_eq_true hid⟩)

/-- The last receipt of a target, whatever its phase. -/
def lastReceipt (targetPath : String) (records : List ProvisionedEntryRecord) :
    Option ProvisionedEntryRecord :=
  lastFor (fun r : ProvisionedEntryRecord => some r.targetPath) targetPath records

theorem lastReceipt_concat (targetPath : String) :
    lastReceipt targetPath (records ++ [record]) =
      if record.targetPath = targetPath then some record else lastReceipt targetPath records := by
  rw [lastReceipt, lastFor_concat]
  simp only [Option.some.injEq]
  rfl

theorem getLast_receipts (targetPath : String) (records : List ProvisionedEntryRecord) :
    (records.filter (·.targetPath = targetPath)).getLast? = lastReceipt targetPath records := by
  rw [lastReceipt, lastFor]
  simp only [Option.some.injEq]

/-- Where the last receipt of a target is verified, it is the latest verified one. -/
theorem lastVerified_of_lastReceipt {targetPath : String}
    (hlast : lastReceipt targetPath records = some record) (hphase : record.phase = .verified) :
    lastFor verifiedTarget targetPath records = some record := by
  induction records using List.reverseRecOn with
  | nil => cases hlast
  | append_singleton records r ih =>
      rw [lastReceipt_concat] at hlast
      rw [lastFor_concat]
      split at hlast
      · rename_i htarget
        obtain rfl := Option.some.inj hlast
        rw [verifiedTarget, if_pos hphase, htarget, if_pos rfl]
      · rename_i htarget
        rw [if_neg]
        · exact ih hlast
        · rw [verifiedTarget]
          split
          · rwa [Option.some.injEq]
          · exact nofun

theorem filter_concat_target (targetPath : String) :
    (records ++ [record]).filter (·.targetPath = targetPath) =
      if record.targetPath = targetPath then records.filter (·.targetPath = targetPath) ++ [record]
      else records.filter (·.targetPath = targetPath) := by
  rw [List.filter_append, List.filter_singleton]
  by_cases htarget : record.targetPath = targetPath
  · rw [if_pos htarget, decide_eq_true htarget, cond_true]
  · rw [if_neg htarget, decide_eq_false htarget, cond_false, List.append_nil]

end Tracking

variable (host : ArtifactHost)

/-- The file of a target is the text its last receipt binds, and that receipt is verified. -/
def Settled (last : Option ProvisionedEntryRecord) (file : Option ByteArray) : Prop :=
  (last = none ∧ file = none) ∨
    ∃ record text, last = some record ∧ record.phase = .verified ∧
      file = some (String.toUTF8 text) ∧ receipted host text.toUTF8 record.contentHash = true

/-- The call that holds the lease: its entry is unverified, and the file is as the call left it. -/
structure Running (s : MissionArtifacts) (pending : List ProvisionedEntryRecord) (w : Writing) :
    Prop where
  recorded : w.record .provisioned ∈ pending
  alone : ∀ r ∈ pending, r.entryId = w.entry.id → r = w.record .provisioned
  minted : w.entry = provisionMissionEntry host w.entry.id w.write.content
  exact : ∀ content, w.write = .json content →
    readJson host w.write.fileText.toUTF8 = some content
  before : w.written = false → ∀ current content, w.write = .append current content →
    (s.files w.targetPath).getD .empty = current.toUTF8
  after : w.written = true → s.files w.targetPath = some w.write.fileText.toUTF8

structure Consistent (s : MissionArtifacts) (pending : List ProvisionedEntryRecord) : Prop where
  found : findUnverifiedProvisionedEntries s.records = .ok pending
  byTarget : ∀ targetPath,
    findUnverifiedProvisionedEntries (s.records.filter (·.targetPath = targetPath)) =
      .ok (pending.filter (·.targetPath = targetPath))
  settled : ∀ targetPath, (∀ r ∈ pending, r.targetPath ≠ targetPath) →
    Settled host (lastReceipt targetPath s.records) (s.files targetPath)
  running : ∀ w, s.writer = some w → Running host s pending w

variable {host}

section Hashes

theorem receipted_text (text : String) :
    receipted host text.toUTF8 (provisionedEntryHash host (.str text)) = true := by
  rw [receipted, host.readUtf8_toUTF8, decide_eq_true rfl, Bool.true_or]

theorem receipted_json {bytes : ByteArray} {content : Json}
    (h : readJson host bytes = some content) :
    receipted host bytes (provisionedEntryHash host content) = true := by
  rw [receipted, h, Option.any_some, decide_eq_true rfl, Bool.or_true]

/-- A file that is as the call left it hashes to the entry of the call. -/
theorem Running.receipted {s : MissionArtifacts} {pending : List ProvisionedEntryRecord}
    {w : Writing} (h : Running host s pending w) :
    Mission.receipted host w.write.fileText.toUTF8 w.entry.contentHash = true := by
  rw [h.minted]
  change Mission.receipted host w.write.fileText.toUTF8
    (provisionedEntryHash host w.write.content) = true
  cases hwrite : w.write with
  | json content =>
      have hread := h.exact content hwrite
      rw [hwrite] at hread
      exact receipted_json hread
  | text content => exact receipted_text content
  | append current content => exact receipted_text (current ++ content)

/-- What the call reads back passes its own check. -/
theorem Running.verify_eq_ok {s : MissionArtifacts} {pending : List ProvisionedEntryRecord}
    {w : Writing} (h : Running host s pending w) (hwritten : w.written = true) :
    w.verify host (s.files w.targetPath) = .ok () := by
  rw [h.after hwritten, Writing.verify]
  have hhash : w.entry.contentHash = provisionedEntryHash host w.write.content := by
    rw [h.minted]
    rfl
  cases hwrite : w.write with
  | json content =>
      have hread := h.exact content hwrite
      rw [hwrite] at hread hhash
      simp only [hread]
      refine throwIf_neg ?_
      rintro (hid | hcontent | hwrong)
      · exact hid rfl
      · exact hcontent rfl
      · exact hwrong hhash.symm
  | text content => exact throwIf_neg (not_not.mpr (host.readUtf8_toUTF8 _))
  | append current content => exact throwIf_neg (not_not.mpr (host.readUtf8_toUTF8 _))

end Hashes

section Steps

variable {s : MissionArtifacts} {pending : List ProvisionedEntryRecord} {w : Writing}

theorem consistent_start : Consistent host {} [] where
  found := rfl
  byTarget _ := rfl
  settled _ _ := .inl ⟨rfl, rfl⟩
  running _ h := nomatch h

/-- The receipt of an entry opens a call. -/
theorem Consistent.provision (hs : Consistent host s pending) {targetPath id : String}
    {write : ArtifactWrite} (hfresh : ∀ r ∈ pending, r.entryId ≠ id)
    (hexact : ∀ content, write = .json content →
      readJson host write.fileText.toUTF8 = some content)
    (hbefore : ∀ current content, write = .append current content →
      (s.files targetPath).getD .empty = current.toUTF8) :
    ∃ pending', Consistent host (s.provision host targetPath id write) pending' := by
  let w : Writing := ⟨targetPath, provisionMissionEntry host id write.content, write, false⟩
  have htrack (among : List ProvisionedEntryRecord) (hsub : among ⊆ pending) :
      trackEntry among (w.record .provisioned) = .ok (among ++ [w.record .provisioned]) :=
    track_provisioned rfl fun r hr => hfresh r (hsub hr)
  refine ⟨pending ++ [w.record .provisioned], ?_, ?_, ?_, ?_⟩
  · exact (find_concat hs.found).trans (htrack pending (List.Subset.refl _))
  · intro t
    change findUnverifiedProvisionedEntries
      ((s.records ++ [w.record .provisioned]).filter (·.targetPath = t)) = _
    rw [filter_concat_target, filter_concat_target]
    split
    · exact (find_concat (hs.byTarget t)).trans (htrack _ List.filter_sublist.subset)
    · exact hs.byTarget t
  · intro t ht
    have hne : (w.record .provisioned).targetPath ≠ t :=
      ht _ (List.mem_append_right _ (List.mem_singleton_self _))
    change Settled host (lastReceipt t (s.records ++ [w.record .provisioned])) (s.files t)
    rw [lastReceipt_concat, if_neg hne]
    exact hs.settled t fun r hr => ht r (List.mem_append_left _ hr)
  · intro w' hw'
    obtain rfl : w = w' := Option.some.inj hw'
    refine ⟨List.mem_append_right _ (List.mem_singleton_self _), ?_, rfl, hexact, ?_, nofun⟩
    · intro r hr hid
      rcases List.mem_append.mp hr with hold | hnew
      · exact absurd hid (hfresh r hold)
      · exact List.mem_singleton.mp hnew
    · exact fun _ => hbefore

/-- The artifact is written as its entry says. -/
theorem Running.bytes_eq (h : Running host s pending w) (hunwritten : w.written = false) :
    w.write.bytes (s.files w.targetPath) = w.write.fileText.toUTF8 := by
  cases hwrite : w.write with
  | json content => rfl
  | text content => rfl
  | append current content =>
      change (s.files w.targetPath).getD .empty ++ content.toUTF8 = (current ++ content).toUTF8
      rw [h.before hunwritten current content hwrite]
      exact String.toByteArray_append.symm

theorem Consistent.store (hs : Consistent host s pending) (hw : s.writer = some w)
    (hunwritten : w.written = false) : Consistent host (s.store w) pending := by
  have hrun := hs.running w hw
  refine ⟨hs.found, hs.byTarget, ?_, ?_⟩
  · intro t ht
    have hne : t ≠ w.targetPath := fun h => ht _ hrun.recorded h.symm
    change Settled host (lastReceipt t s.records) (Function.update s.files w.targetPath _ t)
    rw [Function.update_of_ne hne]
    exact hs.settled t ht
  · intro w' hw'
    obtain rfl : { w with written := true } = w' := Option.some.inj hw'
    refine ⟨hrun.recorded, hrun.alone, hrun.minted, hrun.exact, nofun, fun _ => ?_⟩
    change Function.update s.files w.targetPath _ w.targetPath = _
    rw [Function.update_self, hrun.bytes_eq hunwritten]

/-- A call that ends early leaves its entry unverified; only its own target may have changed. -/
theorem Consistent.release (hs : Consistent host s pending) (hw : s.writer = some w)
    {files : String → Option ByteArray} (hfiles : ∀ t, t ≠ w.targetPath → files t = s.files t) :
    Consistent host { s with files := files, writer := none } pending := by
  refine ⟨hs.found, hs.byTarget, ?_, fun _ h => nomatch h⟩
  intro t ht
  have hne : t ≠ w.targetPath := fun h => ht _ (hs.running w hw).recorded h.symm
  change Settled host (lastReceipt t s.records) (files t)
  rw [hfiles t hne]
  exact hs.settled t ht

/-- The entry of the call is verified. -/
theorem Consistent.verified (hs : Consistent host s pending) (hw : s.writer = some w)
    (hwritten : w.written = true) :
    Consistent host { s with records := s.records ++ [w.record .verified], writer := none }
      (pending.filter (·.entryId ≠ w.entry.id)) := by
  have hrun := hs.running w hw
  -- the entries that the receipt closes are those of the call
  have hother (t : String) (ht : w.targetPath ≠ t) :
      pending.filter (·.targetPath = t) =
        (pending.filter (·.entryId ≠ w.entry.id)).filter (·.targetPath = t) := by
    rw [List.filter_filter]
    apply List.filter_congr
    intro r hr
    by_cases hid : r.entryId = w.entry.id
    · have htarget : r.targetPath = w.targetPath := by rw [hrun.alone r hr hid]; rfl
      simp [hid, htarget, ht]
    · simp [hid]
  refine ⟨?_, ?_, ?_, fun _ h => nomatch h⟩
  · exact (find_concat hs.found).trans (track_verified rfl hrun.recorded rfl)
  · intro t
    change findUnverifiedProvisionedEntries
      ((s.records ++ [w.record .verified]).filter (·.targetPath = t)) = _
    rw [filter_concat_target]
    split
    · rename_i htarget
      have hmem : w.record .provisioned ∈ pending.filter (·.targetPath = t) :=
        List.mem_filter.mpr ⟨hrun.recorded, decide_eq_true htarget⟩
      have htrack : trackEntry (pending.filter (·.targetPath = t)) (w.record .verified) = _ :=
        track_verified rfl hmem rfl
      rw [find_concat (hs.byTarget t), htrack, List.filter_comm]
      rfl
    · rename_i htarget
      rw [hs.byTarget t, hother t htarget]
  · intro t ht
    change Settled host (lastReceipt t (s.records ++ [w.record .verified])) (s.files t)
    rw [lastReceipt_concat]
    split
    · rename_i htarget
      refine .inr ⟨w.record .verified, w.write.fileText, rfl, rfl, ?_, hrun.receipted⟩
      rw [← hrun.after hwritten, ← htarget]
      rfl
    · rename_i htarget
      apply hs.settled t
      intro r hr heq
      by_cases hid : r.entryId = w.entry.id
      · rw [hrun.alone r hr hid] at heq
        exact htarget heq
      · exact ht r (List.mem_filter.mpr ⟨hr, decide_eq_true hid⟩) heq

end Steps

section Appends

variable {s : MissionArtifacts} {pending : List ProvisionedEntryRecord} {targetPath : String}

/-- What an append does where the target carries no unverified entry. -/
theorem Consistent.appendsFrom_eq (hs : Consistent host s pending)
    (hclean : ∀ r ∈ pending, r.targetPath ≠ targetPath) (repair : Bool) :
    (s.files targetPath = none ∧
      appendsFrom host s.records (s.files targetPath) targetPath repair =
        if repair then .ok none else .ok (some "")) ∨
    ∃ record text legacyEmpty, lastReceipt targetPath s.records = some record ∧
      record.phase = .verified ∧ s.files targetPath = some (String.toUTF8 text) ∧
      receipted host text.toUTF8 record.contentHash = true ∧
      appendsFrom host s.records (s.files targetPath) targetPath repair =
        throwIf (record.contentHash ≠ provisionedEntryHash host (.str text) ∧ legacyEmpty = false)
          (.mismatch (some record.entryId))
          (if repair && (record.contentHash = provisionedEntryHash host (.str text) ||
            !legacyEmpty) then .ok none else .ok (some text)) := by
  have hfind := hs.byTarget targetPath
  have hnone : pending.filter (·.targetPath = targetPath) = [] := by
    rw [List.filter_eq_nil_iff]
    exact fun r hr => by simpa using hclean r hr
  rw [hnone] at hfind
  have hlast := getLast_receipts targetPath s.records
  rcases hs.settled targetPath hclean with
    ⟨hnone, hfile⟩ | ⟨record, text, hsome, hphase, hfile, hok⟩
  · refine .inl ⟨hfile, ?_⟩
    rw [hnone, List.getLast?_eq_none_iff] at hlast
    rw [hlast] at hfind
    rw [appendsFrom, hfile, hlast]
    simp only [hfind, except_ok_bind, Option.map_none, Option.getD_none]
    rw [throwIf_neg (not_not.mpr rfl), throwIf_neg fun h => h.1 rfl,
      throwIf_neg fun h => h.2 rfl]
    simp [legacyEmptyLedger]
  · refine .inr ⟨record, text, repair && legacyEmptyLedger host targetPath
      (s.records.filter (·.targetPath = targetPath)), hsome, hphase, hfile, hok, ?_⟩
    rw [hsome] at hlast
    have hne : s.records.filter (·.targetPath = targetPath) ≠ [] := by
      intro h
      rw [h] at hlast
      cases hlast
    rw [appendsFrom, hfile]
    simp only [hfind, except_ok_bind, Option.map_some, Option.getD_some, host.readUtf8_toUTF8,
      hlast, Option.any_some]
    rw [throwIf_neg (not_not.mpr rfl)]
    have hlater : ¬ (s.records.filter (·.targetPath = targetPath) = [] ∧ text ≠ "") :=
      fun h => hne h.1
    rw [throwIf_neg hlater]
    simp only [ne_eq, hne, not_false_eq_true, true_and, decide_eq_false_iff_not]

theorem Consistent.appendsFrom_pending (hs : Consistent host s pending)
    (hopen : ∃ r ∈ pending, r.targetPath = targetPath) (repair : Bool) :
    appendsFrom host s.records (s.files targetPath) targetPath repair =
      .error .unverifiedProvisionedEntries := by
  obtain ⟨r, hr, htarget⟩ := hopen
  have hne : pending.filter (·.targetPath = targetPath) ≠ [] :=
    List.ne_nil_of_mem (List.mem_filter.mpr ⟨hr, decide_eq_true htarget⟩)
  rw [appendsFrom]
  simp only [hs.byTarget targetPath, except_ok_bind]
  exact throwIf_pos hne

/-- An append goes on from the text of its file. -/
theorem Consistent.append_current (hs : Consistent host s pending) {repair : Bool}
    {current : String}
    (h : appendsFrom host s.records (s.files targetPath) targetPath repair = .ok (some current)) :
    (s.files targetPath).getD .empty = current.toUTF8 := by
  by_cases hopen : ∃ r ∈ pending, r.targetPath = targetPath
  · rw [hs.appendsFrom_pending hopen] at h
    cases h
  · have hclean : ∀ r ∈ pending, r.targetPath ≠ targetPath := fun r hr heq => hopen ⟨r, hr, heq⟩
    rcases hs.appendsFrom_eq hclean repair with
      ⟨hfile, heq⟩ | ⟨record, text, legacyEmpty, -, -, hfile, -, heq⟩
    · rw [heq] at h
      split at h
      · cases h
      · obtain rfl : "" = current := Option.some.inj (Except.ok.inj h)
        rw [hfile]
        rfl
    · rw [heq, throwIf_eq_ok] at h
      have hlast := h.2
      split at hlast
      · cases hlast
      · obtain rfl : text = current := Option.some.inj (Except.ok.inj hlast)
        rw [hfile]
        rfl

/-- A target whose latest receipt binds the JSON of its file, and not its text. -/
def BoundAsJson (host : ArtifactHost) (s : MissionArtifacts) (record : ProvisionedEntryRecord) :
    Prop :=
  ∃ bytes content, s.files record.targetPath = some bytes ∧ readJson host bytes = some content ∧
    provisionedEntryHash host content = record.contentHash ∧
    provisionedEntryHash host (.str (host.readUtf8 bytes)) ≠ record.contentHash

theorem Consistent.append_error (hs : Consistent host s pending) {repair : Bool}
    {error : ProvisionedError}
    (h : appendsFrom host s.records (s.files targetPath) targetPath repair = .error error) :
    (error = .unverifiedProvisionedEntries ∧ ∃ r ∈ pending, r.targetPath = targetPath) ∨
      ∃ record ∈ latestVerifiedByTarget s.records, record.targetPath = targetPath ∧
        error = .mismatch (some record.entryId) ∧ BoundAsJson host s record := by
  by_cases hopen : ∃ r ∈ pending, r.targetPath = targetPath
  · rw [hs.appendsFrom_pending hopen] at h
    exact .inl ⟨(Except.error.inj h).symm, hopen⟩
  · have hclean : ∀ r ∈ pending, r.targetPath ≠ targetPath := fun r hr heq => hopen ⟨r, hr, heq⟩
    rcases hs.appendsFrom_eq hclean repair with
      ⟨hfile, heq⟩ | ⟨record, text, legacyEmpty, hlast, hphase, hfile, hok, heq⟩
    · rw [heq] at h
      split at h <;> cases h
    · rw [heq, throwIf] at h
      split at h
      · rename_i hwrong
        have htarget : record.targetPath = targetPath := Option.some.inj (mem_of_lastFor hlast).2
        have hlatest := lastVerified_of_lastReceipt hlast hphase
        refine .inr ⟨record, ?_, htarget, (Except.error.inj h).symm, ?_⟩
        · exact mem_latestById.mpr ⟨targetPath, (mem_of_lastFor hlatest).2, hlatest⟩
        · rw [receipted, Bool.or_eq_true, decide_eq_true_eq, host.readUtf8_toUTF8] at hok
          have hjson := hok.resolve_left fun heq => hwrong.1 heq.symm
          obtain ⟨content, hread, hhash⟩ := (Option.any_eq_true _ _).mp hjson
          refine ⟨text.toUTF8, content, htarget ▸ hfile, hread, of_decide_eq_true hhash, ?_⟩
          rw [host.readUtf8_toUTF8]
          exact fun heq => hwrong.1 heq.symm
      · split at h <;> cases h

end Appends

section Runs

variable {s t : MissionArtifacts} {pending : List ProvisionedEntryRecord} {a : ArtifactStep}

theorem Consistent.next (hs : Consistent host s pending) (hok : a.Sound host s)
    (h : s.next host a = some t) : ∃ pending', Consistent host t pending' := by
  cases hw : s.writer with
  | none =>
      cases a with
      | writeJson targetPath id content =>
          simp only [MissionArtifacts.next, hw] at h
          obtain rfl := Option.some.inj h
          refine hs.provision (hok.1 pending hs.found) ?_ nofun
          intro content' heq
          obtain rfl := ArtifactWrite.json.inj heq
          exact hok.2
      | writeText targetPath id content =>
          simp only [MissionArtifacts.next, hw] at h
          obtain rfl := Option.some.inj h
          exact hs.provision (hok pending hs.found) nofun nofun
      | append targetPath id content repair =>
          simp only [MissionArtifacts.next, hw] at h
          split at h
          · rename_i current hfrom
            obtain rfl := Option.some.inj h
            refine hs.provision (hok pending hs.found) nofun ?_
            intro current' content' heq
            obtain ⟨rfl, -⟩ := ArtifactWrite.append.inj heq
            exact hs.append_current hfrom
          · obtain rfl := Option.some.inj h
            exact ⟨pending, hs⟩
      | write | torn count | confirm | crash =>
          simp only [MissionArtifacts.next, hw] at h
          cases h
  | some w =>
      cases a with
      | writeJson targetPath id content | writeText targetPath id content
      | append targetPath id content repair =>
          simp only [MissionArtifacts.next, hw] at h
          cases h
      | write =>
          simp only [MissionArtifacts.next, hw] at h
          split at h
          · cases h
          · rename_i hunwritten
            obtain rfl := Option.some.inj h
            exact ⟨pending, hs.store hw (Bool.eq_false_iff.mpr hunwritten)⟩
      | torn count =>
          simp only [MissionArtifacts.next, hw] at h
          split at h
          · split at h
            · cases h
            · obtain rfl := Option.some.inj h
              exact ⟨pending, hs.release hw fun t ht => Function.update_of_ne ht _ _⟩
          · cases h
      | confirm =>
          simp only [MissionArtifacts.next, hw] at h
          split at h
          · rename_i hwritten
            obtain rfl := Option.some.inj h
            rw [MissionArtifacts.finish, (hs.running w hw).verify_eq_ok hwritten]
            exact ⟨_, hs.verified hw hwritten⟩
          · cases h
      | crash =>
          simp only [MissionArtifacts.next, hw] at h
          obtain rfl := Option.some.inj h
          exact ⟨pending, hs.release hw fun _ _ => rfl⟩

theorem consistent_of_reach
    (hs : (artifactSystem host).Reach (fun s a => a.Sound host s) s) :
    ∃ pending, Consistent host s pending := by
  refine System.Reach.invariant (I := fun s => ∃ pending, Consistent host s pending) ?_ ?_ hs
  · rintro s rfl
    exact ⟨[], consistent_start⟩
  · rintro s a t ⟨pending, hs⟩ hok h
    exact hs.next hok h

/-- The step belongs to an append. -/
def MissionArtifacts.appending (s : MissionArtifacts) (a : ArtifactStep) : Prop :=
  match s.writer, a with
  | some w, _ => ∃ current content, w.write = .append current content
  | none, .append _ _ _ _ => True
  | none, _ => False

/-- Every file that was there goes on. -/
def Extends (s t : MissionArtifacts) : Prop :=
  ∀ targetPath bytes, s.files targetPath = some bytes →
    ∃ tail, t.files targetPath = some (bytes ++ tail)

theorem extends_of_files_eq (h : t.files = s.files) : Extends s t := by
  intro targetPath bytes hfile
  exact ⟨.empty, by rw [h, hfile, ByteArray.append_empty]⟩

theorem extends_of_update {targetPath : String} {tail : ByteArray}
    (h : t.files = Function.update s.files targetPath
      (some ((s.files targetPath).getD .empty ++ tail))) : Extends s t := by
  intro targetPath' bytes hfile
  rw [h]
  by_cases heq : targetPath' = targetPath
  · subst heq
    exact ⟨tail, by rw [Function.update_self, hfile, Option.getD_some]⟩
  · exact ⟨.empty, by rw [Function.update_of_ne heq, hfile, ByteArray.append_empty]⟩

theorem finish_files (w : Writing) : (s.finish host w).files = s.files := by
  unfold MissionArtifacts.finish
  split <;> rfl

/-- No step of an append removes or changes bytes of a file. -/
theorem extends_of_append (happend : s.appending a) (h : s.next host a = some t) :
    Extends s t := by
  cases hw : s.writer with
  | none =>
      cases a with
      | append targetPath id content repair =>
          simp only [MissionArtifacts.next, hw] at h
          split at h
          · obtain rfl := Option.some.inj h
            exact extends_of_files_eq rfl
          · obtain rfl := Option.some.inj h
            exact extends_of_files_eq rfl
      | writeJson | writeText | write | torn | confirm | crash =>
          simp only [MissionArtifacts.appending, hw] at happend
  | some w =>
      simp only [MissionArtifacts.appending, hw] at happend
      obtain ⟨current, content, hwrite⟩ := happend
      cases a with
      | writeJson | writeText | append =>
          simp only [MissionArtifacts.next, hw] at h
          cases h
      | write =>
          simp only [MissionArtifacts.next, hw] at h
          split at h
          · cases h
          · obtain rfl := Option.some.inj h
            have hfiles : (s.store w).files = Function.update s.files w.targetPath
                (some ((s.files w.targetPath).getD .empty ++ content.toUTF8)) := by
              rw [MissionArtifacts.store, hwrite]
              rfl
            exact extends_of_update hfiles
      | torn count =>
          simp only [MissionArtifacts.next, hw] at h
          split at h
          · split at h
            · cases h
            · obtain rfl := Option.some.inj h
              exact extends_of_update rfl
          · cases h
      | confirm =>
          simp only [MissionArtifacts.next, hw] at h
          split at h
          · obtain rfl := Option.some.inj h
            exact extends_of_files_eq (finish_files w)
          · cases h
      | crash =>
          simp only [MissionArtifacts.next, hw] at h
          obtain rfl := Option.some.inj h
          exact extends_of_files_eq rfl

end Runs

section Main

variable {s : MissionArtifacts} {pending : List ProvisionedEntryRecord}

/-- The file of the receipt's target hashes to it. -/
def Bound (host : ArtifactHost) (s : MissionArtifacts) (record : ProvisionedEntryRecord) : Prop :=
  ∃ bytes, s.files record.targetPath = some bytes ∧ receipted host bytes record.contentHash = true

theorem missingAmong_of_bound {records : List ProvisionedEntryRecord}
    (h : ∀ record ∈ records, Bound host s record) : missingAmong host s.files records = .ok [] := by
  induction records with
  | nil => rfl
  | cons record rest ih =>
      obtain ⟨bytes, hfile, hok⟩ := h record List.mem_cons_self
      rw [missingAmong, hfile]
      change throwIf _ _ _ = _
      rw [throwIf_neg (by rw [hok]; decide)]
      exact ih fun r hr => h r (List.mem_cons_of_mem record hr)

theorem Consistent.bound (hs : Consistent host s []) {record : ProvisionedEntryRecord}
    (hmem : record ∈ latestVerifiedByTarget s.records) : Bound host s record := by
  obtain ⟨targetPath, hkey, hlatest⟩ := mem_latestById.mp hmem
  have htarget : record.targetPath = targetPath := by
    rw [verifiedTarget] at hkey
    split at hkey
    · exact Option.some.inj hkey
    · cases hkey
  rcases hs.settled targetPath (fun _ h => nomatch h) with
    ⟨hnone, -⟩ | ⟨last, text, hlast, hphase, hfile, hok⟩
  · have habsent := lastFor_eq_none.mp hnone record (mem_of_lastFor hlatest).1
    exact absurd (congrArg some htarget) habsent
  · rw [lastVerified_of_lastReceipt hlast hphase] at hlatest
    obtain rfl := Option.some.inj hlatest
    exact ⟨text.toUTF8, htarget ▸ hfile, hok⟩

theorem Consistent.read (hs : Consistent host s pending) :
    ∃ missing, readProvisioned host s.files s.records = .ok (pending, missing) ∧
      (pending ≠ [] ∨ missing = [] ∧
        ∀ record ∈ latestVerifiedByTarget s.records, Bound host s record) := by
  refine ⟨[], ?_, ?_⟩
  · rw [readProvisioned, hs.found, except_ok_bind]
    by_cases hopen : pending ≠ []
    · rw [if_pos hopen]
      rfl
    · obtain rfl := not_not.mp hopen
      rw [if_neg hopen, findMissingProvisionedEntries,
        missingAmong_of_bound fun record hmem => hs.bound hmem]
      rfl
  · by_cases hopen : pending ≠ []
    · exact .inl hopen
    · obtain rfl := not_not.mp hopen
      exact .inr ⟨rfl, fun record hmem => hs.bound hmem⟩

/-- The receipts are read back, and what they do not report is so. A call finds its own artifact
as it wrote it; an append is refused where the target has an unverified entry or is bound as JSON,
and its steps only add bytes. -/
structure CrashConsistent (host : ArtifactHost) (s : MissionArtifacts) : Prop where
  reads : ∃ unverified missing, readProvisioned host s.files s.records = .ok (unverified, missing) ∧
    (unverified ≠ [] ∨ missing = [] ∧
      ∀ record ∈ latestVerifiedByTarget s.records, Bound host s record)
  checks : ∀ w, s.writer = some w → w.written = true →
    w.verify host (s.files w.targetPath) = .ok ()
  refuses : ∀ targetPath repair error,
    appendsFrom host s.records (s.files targetPath) targetPath repair = .error error →
    (error = .unverifiedProvisionedEntries ∧
      ∃ unverified, findUnverifiedProvisionedEntries s.records = .ok unverified ∧
        ∃ r ∈ unverified, r.targetPath = targetPath) ∨
    ∃ record ∈ latestVerifiedByTarget s.records, record.targetPath = targetPath ∧
      error = .mismatch (some record.entryId) ∧ BoundAsJson host s record
  appends : ∀ a t, s.appending a → s.next host a = some t → Extends s t

theorem provisioned_crash_consistent (host : ArtifactHost) {s : MissionArtifacts}
    (hs : (artifactSystem host).Reach (fun s a => a.Sound host s) s) : CrashConsistent host s := by
  obtain ⟨pending, hs⟩ := consistent_of_reach hs
  refine ⟨?_, ?_, ?_, fun a t => extends_of_append⟩
  · obtain ⟨missing, hread⟩ := hs.read
    exact ⟨pending, missing, hread⟩
  · intro w hw hwritten
    exact (hs.running w hw).verify_eq_ok hwritten
  · intro targetPath repair error h
    rcases hs.append_error h with ⟨herror, hopen⟩ | hjson
    · exact .inl ⟨herror, pending, hs.found, hopen⟩
    · exact .inr hjson

end Main

section Example

/-- The hashes of the texts that the example binds. -/
def digestOf (text : String) : String :=
  if text = "[]" then "4f53cda18c2baa0c0354bb5f9a3ecbe5ed12ab4d8e11ba873c2f11161202b945"
  else if text = "\"[]\\n\"" then "a733edff092b97ef188890bdb6cf123dcace5620f1b852e3f3b68217d4385cd9"
  else text

def exampleHost : ArtifactHost where
  sha256 := digestOf
  readNumber _ := .finite .zero
  readUtf8 bytes := (String.fromUTF8? bytes).getD "\uFFFD"
  readUtf8_toUTF8 text := by
    have h : text.toUTF8.IsValidUTF8 := text.isValidUTF8
    rw [String.fromUTF8?, dif_pos h]
    rfl

/-- A plan is written as JSON. -/
def planWritten : MissionArtifacts :=
  let s := ({} : MissionArtifacts).provision exampleHost "plan.json" "PE-1" (.json (.arr []))
  let w : Writing := ⟨"plan.json", provisionMissionEntry exampleHost "PE-1" (.arr []),
    .json (.arr []), false⟩
  (s.store w).finish exampleHost { w with written := true }

theorem reach_planWritten :
    (artifactSystem exampleHost).Reach (fun s a => a.Sound exampleHost s) planWritten := by
  refine .next (a := .confirm) (.next (a := .write)
    (.next (a := .writeJson "plan.json" "PE-1" (.arr [])) (.start rfl) ⟨?_, ?_⟩ rfl) trivial rfl)
    trivial rfl
  · intro unverified h
    obtain rfl : [] = unverified := Except.ok.inj h
    exact nofun
  · rw [readJson, exampleHost.readUtf8_toUTF8]
    rfl

theorem provisioned_crash_consistent_plan : CrashConsistent exampleHost planWritten :=
  provisioned_crash_consistent exampleHost reach_planWritten

/-- Every receipt is verified and bound, and an append to the plan is refused as corrupt. -/
theorem append_reports_json_corrupt :
    ∃ s, (artifactSystem exampleHost).Reach (fun s a => a.Sound exampleHost s) s ∧
      readProvisioned exampleHost s.files s.records = .ok ([], []) ∧
      appendsFrom exampleHost s.records (s.files "plan.json") "plan.json" false =
        .error (.mismatch (some "PE-1")) :=
  ⟨planWritten, reach_planWritten, by decide +kernel, by decide +kernel⟩

end Example

end Kyberion.Mission
