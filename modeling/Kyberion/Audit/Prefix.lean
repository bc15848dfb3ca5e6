import Kyberion.Audit.Payload
import Kyberion.Audit.Record
import Kyberion.HashChain

/-!
A verification with keyed entries required accepts only prefixes of what was
recorded. A clean scan leaves a linked chain of authentic entries; what the
digest does not cover are the numbers whose text reads back differently.
-/

namespace Kyberion.Audit

open Js

/-- The digested text of an entry that names the hash before it. -/
def AuditEntry.message (e : AuditEntry) : String :=
  e.payload e.previousHash

section Recorded

theorem requiredString_ok {record : Json} {key s : String}
    (h : requiredString record key = .ok s) : record.get key = some (.str s) := by
  obtain ⟨value, hvalue, hs⟩ := except_bind_ok h
  cases value with
  | none => cases hs
  | some t =>
      obtain rfl := Except.ok.inj hs
      unfold persistedString at hvalue
      split at hvalue
      · split at hvalue <;> cases hvalue
      · split at hvalue <;> cases hvalue
      · rename_i u hget
        split at hvalue
        · cases hvalue
        · obtain rfl := Option.some.inj (Except.ok.inj hvalue)
          exact hget
      · cases hvalue

theorem normalize_previousHash {v : Json} {e : AuditEntry}
    (h : normalizePersistedAuditEntry v = .ok e) :
    v.get "previousHash" = some (.str e.previousHash) := by
  unfold normalizePersistedAuditEntry at h
  obtain ⟨-, h⟩ := throwIf_eq_ok.mp h
  obtain ⟨id, -, h⟩ := except_bind_ok h
  obtain ⟨timestamp, -, h⟩ := except_bind_ok h
  obtain ⟨agentId, -, h⟩ := except_bind_ok h
  obtain ⟨action, -, h⟩ := except_bind_ok h
  obtain ⟨operation, -, h⟩ := except_bind_ok h
  obtain ⟨previousHash, hprevious, h⟩ := except_bind_ok h
  obtain ⟨currentHash, -, h⟩ := except_bind_ok h
  obtain ⟨result, -, h⟩ := except_bind_ok h
  obtain ⟨reason, -, h⟩ := except_bind_ok h
  obtain ⟨correlationId, -, h⟩ := except_bind_ok h
  obtain ⟨tenantSlug, -, h⟩ := except_bind_ok h
  obtain ⟨chainKeyId, -, h⟩ := except_bind_ok h
  obtain ⟨metadata, -, h⟩ := except_bind_ok h
  obtain ⟨compliance, -, h⟩ := except_bind_ok h
  obtain ⟨scope, -, h⟩ := except_bind_ok h
  obtain ⟨chainAlg, -, h⟩ := except_bind_ok h
  obtain rfl := Except.ok.inj h
  exact requiredString_ok hprevious

variable {H : Digests} {key : String}

/-- An appended entry names the cursor and carries the keyed hash of its text. -/
theorem appendUnderLock_ok {lastHash : String} {d : Draft} {e : AuditEntry}
    (h : appendUnderLock H key lastHash d = .ok e) :
    e.previousHash = lastHash ∧ e.currentHash = H.hmacSha256 key e.message := by
  unfold appendUnderLock at h
  obtain ⟨next, hnext, he⟩ := except_bind_ok h
  obtain rfl := Except.ok.inj he
  have hget := normalize_previousHash hnext
  simp only [Draft.object, Json.get, lookup_spread] at hget
  have hprev : next.previousHash = lastHash := by
    simpa [List.lookup_append, lookup_field, eq_comm] using hget
  refine ⟨hprev, ?_⟩
  change H.hmacSha256 key (next.payload lastHash) =
    H.hmacSha256 key (next.payload next.previousHash)
  rw [hprev]

theorem linked_recorded (H : Digests) (key : String) (lastHash : String) (ds : List Draft) :
    Linked AuditEntry.previousHash AuditEntry.currentHash lastHash (recorded H key lastHash ds) ∧
      ∀ r ∈ recorded H key lastHash ds, r.currentHash = H.hmacSha256 key r.message := by
  induction ds generalizing lastHash with
  | nil => exact ⟨trivial, fun r hr => absurd hr List.not_mem_nil⟩
  | cons d ds ih =>
      cases happend : appendUnderLock H key lastHash d with
      | error _ =>
          simp only [recorded, happend]
          exact ih lastHash
      | ok e =>
          obtain ⟨hprev, hhash⟩ := appendUnderLock_ok happend
          obtain ⟨hlinked, hall⟩ := ih e.currentHash
          simp only [recorded, happend]
          refine ⟨⟨hprev, hlinked⟩, fun r hr => ?_⟩
          rcases List.mem_cons.mp hr with rfl | hrest
          · exact hhash
          · exact hall r hrest

end Recorded

section Scan

variable {H : Digests} {key : String}

/-- An entry under the keyed algorithm whose hash is the keyed hash of its text. -/
def Authentic (H : Digests) (key : String) (e : AuditEntry) : Prop :=
  e.chainAlg = some .hmacSha256 ∧ e.currentHash = H.hmacSha256 key e.message

theorem sameHash_ok {left right : String} (h : sameHash left right = .ok true) : left = right := by
  unfold sameHash at h
  split at h
  · cases h
  · split at h
    · cases h
    · simpa using h

theorem verifyAuditEntryHash_ok {e : AuditEntry} {expected : String}
    (h : verifyAuditEntryHash H e expected .hmacSha256 (some key) = .ok ()) :
    e.previousHash = expected ∧ e.currentHash = H.hmacSha256 key e.message := by
  unfold verifyAuditEntryHash at h
  obtain ⟨hguard, h⟩ := throwIf_eq_ok.mp h
  obtain ⟨expectedHash, hdigest, h⟩ := except_bind_ok h
  obtain ⟨same, hsame, hsafe⟩ := except_bind_ok h
  have hprev : e.previousHash = expected := by simpa using hguard
  obtain rfl := Except.ok.inj hdigest
  obtain rfl : same = true := by simpa using hsafe
  exact ⟨hprev, by rw [sameHash_ok hsame, AuditEntry.message, hprev]⟩

theorem sameHash_self (s : String) : sameHash s s = .ok true := by
  simp [sameHash]

theorem verifyAuditEntryHash_authentic {e : AuditEntry} (h : Authentic H key e) :
    verifyAuditEntryHash H e e.previousHash .hmacSha256 (some key) = .ok () := by
  have hsame : sameHash e.currentHash (H.hmacSha256 key e.message) = .ok true := by
    rw [h.2]
    exact sameHash_self _
  unfold verifyAuditEntryHash
  rw [throwIf_neg fun hne => hne rfl]
  change (do
    let same ← sameHash e.currentHash (H.hmacSha256 key e.message)
    throwIf (!same) "current_hash_mismatch" (.ok ())) = .ok ()
  rw [hsame]
  rfl

theorem entryFinding_none {id : String} {algFinding : Option String} {check : Except String Unit}
    (h : entryFinding id algFinding check = none) : algFinding = none ∧ check = .ok () := by
  unfold entryFinding at h
  split at h
  · cases h
  · cases h
  · exact ⟨rfl, rfl⟩
  · cases h

theorem observe_requireKeyed (t : AlgTracker) (alg : ChainAlg) :
    (t.observe alg).2.requireKeyed = t.requireKeyed := by
  cases alg <;> rfl

theorem observe_none {t : AlgTracker} {alg : ChainAlg} (ht : t.requireKeyed = true)
    (h : (t.observe alg).1 = none) : alg = .hmacSha256 := by
  cases alg with
  | hmacSha256 => rfl
  | sha256 =>
      simp only [AlgTracker.observe, ht, if_true] at h
      split at h <;> cases h

/-- One entry of a scan that finds nothing. -/
theorem checkEntry_clean {s : Scan} {e : AuditEntry} (ht : s.tracker.requireKeyed = true)
    (h : (checkEntry H (some key) false s e).corrupted = []) :
    s.corrupted = [] ∧ e.previousHash = s.prevHash ∧ Authentic H key e := by
  obtain ⟨hbefore, hfinding⟩ := List.append_eq_nil_iff.mp h
  obtain ⟨halg, hcheck⟩ := entryFinding_none (Option.toList_eq_nil_iff.mp hfinding)
  have hkeyed := observe_none ht halg
  simp only [Bool.false_and, Bool.false_eq_true, if_false, hkeyed] at hcheck
  obtain ⟨hprev, hhash⟩ := verifyAuditEntryHash_ok hcheck
  refine ⟨hbefore, hprev, ?_, hhash⟩
  cases hchain : e.chainAlg with
  | none => rw [hchain] at hkeyed; cases hkeyed
  | some alg => rw [hchain] at hkeyed; exact congrArg some hkeyed

theorem foldl_checkEntry_requireKeyed (s : Scan) (es : List AuditEntry) :
    (es.foldl (checkEntry H (some key) false) s).tracker.requireKeyed =
      s.tracker.requireKeyed := by
  induction es generalizing s with
  | nil => rfl
  | cons e es ih => exact (ih _).trans (observe_requireKeyed _ _)

/-- An authentic entry that continues the chain gives nothing to report. -/
theorem checkEntry_authentic {s : Scan} {e : AuditEntry} (hprev : e.previousHash = s.prevHash)
    (h : Authentic H key e) :
    (checkEntry H (some key) false s e).corrupted = s.corrupted ∧
      (checkEntry H (some key) false s e).prevHash = e.currentHash := by
  have hcheck := verifyAuditEntryHash_authentic h
  rw [hprev] at hcheck
  refine ⟨?_, rfl⟩
  simp [checkEntry, h.1, AlgTracker.observe, hcheck, entryFinding]

/-- What a clean stretch of a scan says of its entries and of the state it ends in. -/
structure Clean (H : Digests) (key : String) (s t : Scan) (es : List AuditEntry) : Prop where
  before : s.corrupted = []
  linked : Linked AuditEntry.previousHash AuditEntry.currentHash s.prevHash es
  authentic : ∀ e ∈ es, Authentic H key e
  last : (s.prevHash :: es.map AuditEntry.currentHash).getLast? = some t.prevHash
  requireKeyed : t.tracker.requireKeyed = true

theorem Clean.append {s t u : Scan} {es fs : List AuditEntry} (h : Clean H key s t es)
    (h' : Clean H key t u fs) : Clean H key s u (es ++ fs) := by
  refine ⟨h.before, ?_, ?_, ?_, h'.requireKeyed⟩
  · refine h.linked.append fun last hlast => ?_
    obtain rfl := Option.some.inj (h.last.symm.trans hlast)
    exact h'.linked
  · intro e he
    rcases List.mem_append.mp he with hes | hfs
    · exact h.authentic e hes
    · exact h'.authentic e hfs
  · have hlast := h.last
    have hlast' := h'.last
    cases fs with
    | nil =>
        have hsame : t.prevHash = u.prevHash := by simpa using hlast'
        rw [List.append_nil, hlast, hsame]
    | cons f fs =>
        rw [List.map_append, ← List.cons_append, List.getLast?_append_of_ne_nil _ (by simp)]
        rwa [List.map_cons, List.getLast?_cons_cons, ← List.map_cons] at hlast'

theorem foldl_checkEntry_clean {s : Scan} {es : List AuditEntry}
    (ht : s.tracker.requireKeyed = true)
    (h : (es.foldl (checkEntry H (some key) false) s).corrupted = []) :
    Clean H key s (es.foldl (checkEntry H (some key) false) s) es := by
  induction es generalizing s with
  | nil => exact ⟨h, trivial, fun e he => absurd he List.not_mem_nil, rfl, ht⟩
  | cons e es ih =>
      have ht' : (checkEntry H (some key) false s e).tracker.requireKeyed = true := by
        rw [← ht]
        exact observe_requireKeyed _ _
      have hrest := ih ht' h
      obtain ⟨hbefore, hprev, hauth⟩ := checkEntry_clean ht hrest.before
      have hone : Clean H key s (checkEntry H (some key) false s e) [e] :=
        ⟨hbefore, ⟨hprev, trivial⟩, by simpa using hauth, rfl, ht'⟩
      exact hone.append hrest

theorem checkFile_clean {s : Scan} {file : DayFile} (ht : s.tracker.requireKeyed = true)
    (h : (checkFile H (some key) false s file).corrupted = []) :
    Clean H key s (checkFile H (some key) false s file) (readAuditFileForVerify file).entries := by
  have hscan := foldl_checkEntry_clean (H := H) (s := s.openFile file) ht h
  obtain ⟨hgap, -⟩ := List.append_eq_nil_iff.mp hscan.before
  obtain ⟨hbefore, -⟩ := List.append_eq_nil_iff.mp hgap
  exact ⟨hbefore, hscan.linked, hscan.authentic, hscan.last, hscan.requireKeyed⟩

theorem foldl_checkFile_clean {s : Scan} {files : List DayFile}
    (ht : s.tracker.requireKeyed = true)
    (h : (files.foldl (checkFile H (some key) false) s).corrupted = []) :
    Clean H key s (files.foldl (checkFile H (some key) false) s)
      (files.flatMap fun file => (readAuditFileForVerify file).entries) := by
  induction files generalizing s with
  | nil => exact ⟨h, trivial, fun e he => absurd he List.not_mem_nil, rfl, ht⟩
  | cons file files ih =>
      have ht' : (checkFile H (some key) false s file).tracker.requireKeyed = true := by
        rw [← ht]
        exact foldl_checkEntry_requireKeyed _ _
      have hrest := ih ht' h
      exact (checkFile_clean ht hrest.before).append hrest

theorem loadAll_clean {dir : List DayFile}
    (h : (verify H (some key) { requireKeyed := true } dir).corrupted = []) :
    Linked AuditEntry.previousHash AuditEntry.currentHash genesisHash (loadAll dir) ∧
      ∀ e ∈ loadAll dir, Authentic H key e := by
  have hwindow : (listAuditFiles dir).filter (inWindow none) = listAuditFiles dir :=
    List.filter_eq_self.mpr fun _ _ => rfl
  simp only [verify, hwindow] at h
  have hclean := foldl_checkFile_clean (H := H) rfl h
  exact ⟨hclean.linked, hclean.authentic⟩

end Scan

/-- The keyed hash as the verifier may rely on it, for what was recorded and what is read. -/
structure Unforged (H : Digests) (key : String) (rs es : List AuditEntry) : Prop where
  length : ∀ message, (H.hmacSha256 key message).length = 64
  /-- Without the key, a valid keyed hash in the files is one that a record computed. -/
  unforged : ∀ e ∈ es, Authentic H key e → ∃ r ∈ rs, e.message = r.message
  collisionFree : ∀ r ∈ rs, ∀ s ∈ rs,
    H.hmacSha256 key r.message = H.hmacSha256 key s.message → r.message = s.message
  notGenesis : ∀ r ∈ rs, H.hmacSha256 key r.message ≠ genesisHash

section Prefix

variable {H : Digests} {key : String}

theorem persisted_of_message {e r : AuditEntry}
    (hlen : e.previousHash.length = r.previousHash.length) (hhash : e.currentHash = r.currentHash)
    (h : e.message = r.message) :
    e.previousHash = r.previousHash ∧ e.persisted = r.persisted := by
  obtain ⟨hprev, hbody⟩ := AuditEntry.payload_inj hlen h
  refine ⟨hprev, ?_⟩
  have hrestore : ∀ f : AuditEntry, f.persisted = { f.body with currentHash := f.currentHash } :=
    fun _ => rfl
  rw [hrestore, hrestore, hbody, hhash]

/-- The entries a clean verification reads are, as their lines read back, a prefix of the
recorded ones. -/
theorem persisted_prefix {ds : List Draft} {dir : List DayFile}
    (hideal : Unforged H key (recorded H key genesisHash ds) (loadAll dir))
    (h : (verify H (some key) { requireKeyed := true } dir).corrupted = []) :
    (loadAll dir).map AuditEntry.persisted <+:
      (recorded H key genesisHash ds).map AuditEntry.persisted := by
  obtain ⟨hread, hauth⟩ := loadAll_clean h
  obtain ⟨hrecord, hhash⟩ := linked_recorded H key genesisHash ds
  have hgenesis : genesisHash.length = 64 := by decide
  have hlenRead := hread.forall_prev (P := fun t => t.length = 64) hgenesis
    fun e he => by rw [(hauth e he).2]; exact hideal.length _
  have hlenRecord := hrecord.forall_prev (P := fun t => t.length = 64) hgenesis
    fun r hr => by rw [hhash r hr]; exact hideal.length _
  refine hread.map_prefix hrecord ?_ ?_ ?_
  · intro r hr
    rw [hhash r hr]
    exact hideal.notGenesis r hr
  · intro r hr s hs heq
    have hmessage : r.message = s.message := by
      refine hideal.collisionFree r hr s hs ?_
      rw [← hhash r hr, ← hhash s hs, heq]
    exact (AuditEntry.payload_inj ((hlenRecord r hr).trans (hlenRecord s hs).symm) hmessage).1
  · intro e he
    obtain ⟨r, hr, hmessage⟩ := hideal.unforged e he (hauth e he)
    have hcurrent : e.currentHash = r.currentHash := by
      rw [(hauth e he).2, hhash r hr, hmessage]
    obtain ⟨hprev, hpersisted⟩ := persisted_of_message
      ((hlenRead e he).trans (hlenRecord r hr).symm) hcurrent hmessage
    exact ⟨r, hr, hpersisted, hprev, hcurrent⟩

/-- A clean verification reads a prefix of what was appended exactly when every number it
reads prints back to itself. -/
theorem verify_accepts_prefix_iff {ds : List Draft} {dir : List DayFile}
    (hideal : Unforged H key (recorded H key genesisHash ds) (loadAll dir))
    (h : (verify H (some key) { requireKeyed := true } dir).corrupted = []) :
    loadAll dir <+: (recorded H key genesisHash ds).map AuditEntry.persisted ↔
      ∀ e ∈ loadAll dir, e.exact = true := by
  constructor
  · intro hread e he
    obtain ⟨r, -, rfl⟩ := List.mem_map.mp (hread.subset he)
    exact AuditEntry.exact_persisted r
  · intro hexact
    have hself : (loadAll dir).map AuditEntry.persisted = loadAll dir := by
      refine (List.map_congr_left fun e he => ?_).trans (List.map_id _)
      exact (AuditEntry.persisted_eq_self_iff e).mpr (hexact e he)
    rw [← hself]
    exact persisted_prefix hideal h

end Prefix

def chainKey : String := "chain-key"

/-- The two digests on the one key and the one message of the chain below. -/
def chainDigests : Digests where
  sha256 _ := "e33d56d36df721144c1bcc13ba04b70d22064c6b6d7a79c119b3384e4cac0b34"
  hmacSha256 _ _ := "aca838eb39b3fa60c340cdd48fdb866937344261a8bd7dc0ec9942eed0f2781d"

def chainDraft : Draft where
  id := "AUD-1-1"
  timestamp := "2026-01-01T00:00:00.000Z"
  entry := [("agentId", .str "agent-1"), ("action", .str "trust_update"),
    ("operation", .str "score_change"), ("result", .str "completed"),
    ("metadata", .obj [("delta", .null)])]
  tenantSlug := none
  scope := none

/-- The entry of that record with a `delta` of one's choice. -/
def chainEntry (delta : Json) : AuditEntry where
  id := "AUD-1-1"
  timestamp := "2026-01-01T00:00:00.000Z"
  agentId := "agent-1"
  action := "trust_update"
  operation := "score_change"
  result := .completed
  reason := none
  correlationId := none
  metadata := some (.obj [("delta", delta)])
  compliance := none
  tenantSlug := none
  scope := none
  actor := none
  chainAlg := some .hmacSha256
  chainKeyId := some "e33d56d36df72114"
  previousHash := genesisHash
  currentHash := "aca838eb39b3fa60c340cdd48fdb866937344261a8bd7dc0ec9942eed0f2781d"

def chainDay (delta : Json) : List DayFile :=
  [⟨"audit-2026-01-01.jsonl", true, [.value (chainEntry delta).toJson]⟩]

theorem chainEntry_texts : ∀ s ∈ ["AUD-1-1", "2026-01-01T00:00:00.000Z", "agent-1",
    "trust_update", "score_change", genesisHash,
    "aca838eb39b3fa60c340cdd48fdb866937344261a8bd7dc0ec9942eed0f2781d"], isBlank s = false := by
  decide +kernel

theorem chainEntry_wellFormed (delta : Json) : (chainEntry delta).WellFormed where
  texts := chainEntry_texts
  optionalTexts := (by decide +kernel :
    ∀ s ∈ [none, none, none, some "e33d56d36df72114"], s.all (!isBlank ·) = true)
  records := by simp [chainEntry, Json.isRecord]
  compliance v hv := by cases hv
  actor a ha := by cases ha

theorem recorded_chainDraft :
    recorded chainDigests chainKey genesisHash [chainDraft] = [chainEntry .null] := by
  have happend : appendUnderLock chainDigests chainKey genesisHash chainDraft =
      .ok (chainEntry .null) := rfl
  simp [recorded, happend]

theorem read_chainDay {delta : Json} (h : delta.isSafeJsonValue = true) :
    ∀ file ∈ chainDay delta,
      readAuditFileForVerify file = ⟨[chainEntry delta], [], false⟩ := by
  have hsafe : (chainEntry delta).toJson.isSafeJsonValue = true := by
    simp [AuditEntry.toJson, AuditEntry.hashedFields, optionalField, chainEntry, Json.safeFields,
      Json.isSafeJsonValue, h]
  have hparse : parseEntry (chainEntry delta).toJson = .ok (chainEntry delta) := by
    rw [parseEntry, if_pos hsafe]
    exact AuditEntry.normalize_toJson (chainEntry_wellFormed delta)
  intro file hfile
  obtain rfl := List.mem_singleton.mp hfile
  simp [readAuditFileForVerify, readLines, hparse]

theorem listAuditFiles_chainDay (delta : Json) :
    listAuditFiles (chainDay delta) = chainDay delta := by
  have hdate : extractAuditDate "audit-2026-01-01.jsonl" = some "2026-01-01" := by decide
  simp [listAuditFiles, chainDay, hdate]

theorem loadAll_chainDay {delta : Json} (h : delta.isSafeJsonValue = true) :
    loadAll (chainDay delta) = [chainEntry delta] := by
  rw [loadAll, listAuditFiles_chainDay]
  simp [chainDay, read_chainDay h _ (List.mem_singleton_self _)]

theorem chainEntry_authentic (delta : Json) :
    Authentic chainDigests chainKey (chainEntry delta) :=
  ⟨rfl, rfl⟩

theorem verify_chainDay {delta : Json} (h : delta.isSafeJsonValue = true) :
    (verify chainDigests (some chainKey) { requireKeyed := true } (chainDay delta)).corrupted =
      [] := by
  have hread := read_chainDay h _ (List.mem_singleton_self _)
  have hwindow : (chainDay delta).filter (inWindow none) = chainDay delta :=
    List.filter_eq_self.mpr fun _ _ => rfl
  simp only [verify, listAuditFiles_chainDay, hwindow]
  simp only [chainDay, List.foldl_cons, List.foldl_nil, checkFile, hread]
  rw [(checkEntry_authentic rfl (chainEntry_authentic delta)).1]
  simp [Scan.openFile, hread, dateGap, readFindings]

/-- A value that reads back as `null` cannot be told from `null` by its digest. -/
theorem chain_unforged {delta : Json} (hsafe : delta.isSafeJsonValue = true)
    (h : delta.printed = .null) :
    Unforged chainDigests chainKey (recorded chainDigests chainKey genesisHash [chainDraft])
      (loadAll (chainDay delta)) := by
  have hpersisted : (chainEntry delta).persisted = (chainEntry .null).persisted := by
    simp [AuditEntry.persisted, chainEntry, Json.printed, Json.printedFields, h]
  have htext : (Json.obj (chainEntry delta).hashedFields).stringify =
      (Json.obj (chainEntry .null).hashedFields).stringify := by
    refine Json.stringify_eq_iff.mpr ?_
    rw [Json.printed, Json.printed, AuditEntry.printedFields_hashedFields,
      AuditEntry.printedFields_hashedFields, hpersisted]
  have hhash : ∀ message, chainDigests.hmacSha256 chainKey message =
      "aca838eb39b3fa60c340cdd48fdb866937344261a8bd7dc0ec9942eed0f2781d" := fun _ => rfl
  rw [recorded_chainDraft, loadAll_chainDay hsafe]
  refine ⟨fun message => by rw [hhash]; decide, ?_, ?_, ?_⟩
  · intro e he _
    obtain rfl := List.mem_singleton.mp he
    exact ⟨_, List.mem_singleton_self _, congrArg (genesisHash ++ ·) htext⟩
  · intro r hr s hs _
    rw [List.mem_singleton.mp hr, List.mem_singleton.mp hs]
  · intro r _
    rw [hhash]
    decide

/-- The untouched first day of a chain. -/
theorem verify_accepts_prefix_recorded :
    (loadAll (chainDay .null)).length = 1 ∧
      loadAll (chainDay .null) <+:
        (recorded chainDigests chainKey genesisHash [chainDraft]).map AuditEntry.persisted := by
  refine ⟨by rw [loadAll_chainDay rfl]; rfl, ?_⟩
  refine (verify_accepts_prefix_iff (chain_unforged rfl rfl) (verify_chainDay rfl)).mpr ?_
  rw [loadAll_chainDay rfl]
  intro e he
  obtain rfl := List.mem_singleton.mp he
  rfl

/-- The line edited to hold `1e999`: verification is clean, and the entry read is another one. -/
theorem verify_accepts_edited :
    ¬ ∀ (H : Digests) (key : String) (ds : List Draft) (dir : List DayFile),
      Unforged H key (recorded H key genesisHash ds) (loadAll dir) →
      (verify H (some key) { requireKeyed := true } dir).corrupted = [] →
      loadAll dir <+: (recorded H key genesisHash ds).map AuditEntry.persisted := by
  intro h
  have hread := h chainDigests chainKey [chainDraft] (chainDay (.num .notFinite))
    (chain_unforged rfl rfl) (verify_chainDay rfl)
  have hmem : chainEntry (.num .notFinite) ∈ loadAll (chainDay (.num .notFinite)) := by
    rw [loadAll_chainDay rfl]
    exact List.mem_singleton_self _
  obtain ⟨r, -, hr⟩ := List.mem_map.mp (hread.subset hmem)
  have hexact := AuditEntry.exact_persisted r
  rw [hr] at hexact
  exact absurd hexact (by decide)

end Kyberion.Audit
