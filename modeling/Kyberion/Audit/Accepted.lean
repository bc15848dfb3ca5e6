import Kyberion.Audit.Append
import Kyberion.Audit.Prefix
import Mathlib.Algebra.GroupWithZero.Nat

/-!
What the check of an entry guarantees. An accepted entry is well formed, so its
line passes the check again; the line holds the entry as it reads back, under the
same hash. Whether a call is accepted does not depend on where the chain stands.
-/

namespace Kyberion.Audit

open Js

section Fields

variable {record : Json} {key : String}

theorem persistedString_ok {nullable optional : Bool} {s : String}
    (h : persistedString record key nullable optional = .ok (some s)) : isBlank s = false := by
  unfold persistedString at h
  split at h
  · split at h <;> cases h
  · split at h <;> cases h
  · split at h
    · cases h
    · rename_i hblank
      obtain rfl := Option.some.inj (Except.ok.inj h)
      simpa using hblank
  · cases h

theorem requiredString_notBlank {s : String} (h : requiredString record key = .ok s) :
    isBlank s = false := by
  obtain ⟨value, hvalue, hs⟩ := except_bind_ok h
  cases value with
  | none => cases hs
  | some t =>
      obtain rfl := Except.ok.inj hs
      exact persistedString_ok hvalue

theorem optionalString_notBlank {s : Option String} (h : optionalString record key = .ok s) :
    s.all (!isBlank ·) = true := by
  cases s with
  | none => rfl
  | some s => simpa using persistedString_ok h

theorem persistedRecord_ok {v : Option Json} (h : persistedRecord record key = .ok v) :
    v.all Json.isRecord = true := by
  unfold persistedRecord at h
  split at h
  · obtain rfl := Except.ok.inj h
    rfl
  · split at h
    · rename_i hrecord
      obtain rfl := Except.ok.inj h
      exact hrecord
    · cases h

theorem persistedCompliance_ok {v : Option Json} (h : persistedCompliance record = .ok v) :
    v.all Json.isRecord = true ∧ ∀ compliance ∈ v,
      (requiredString compliance "framework").isOk = true ∧
        (requiredString compliance "control").isOk = true := by
  obtain ⟨value, hvalue, h⟩ := except_bind_ok h
  cases value with
  | none =>
      obtain rfl := Except.ok.inj h
      exact ⟨rfl, nofun⟩
  | some compliance =>
      obtain ⟨framework, hframework, h⟩ := except_bind_ok h
      obtain ⟨control, hcontrol, h⟩ := except_bind_ok h
      obtain rfl := Except.ok.inj h
      refine ⟨persistedRecord_ok hvalue, fun other hother => ?_⟩
      obtain rfl := Option.some.inj hother
      rw [hframework, hcontrol]
      exact ⟨rfl, rfl⟩

theorem isBlank_trim (s : String) : isBlank (trim s) = isBlank s := by
  simp [isBlank]

/-- A text that was found not blank is kept as it is. -/
theorem nonBlank_map (v : Option Json) : nonBlank ((nonBlank v).map .str) = nonBlank v := by
  cases h : nonBlank v with
  | none => rfl
  | some s =>
      unfold nonBlank at h
      split at h
      · split at h
        · cases h
        · rename_i hblank
          obtain rfl := Option.some.inj h
          simp [nonBlank, isBlank_trim, hblank]
      · cases h

theorem actorKind?_text (kind : ActorKind) : actorKind? kind.text = some kind := by
  cases kind <;> rfl

/-- A parsed actor parses to itself. -/
theorem parseActorRef_ok {v : Json} {a : ActorRef} (h : parseActorRef v = some a) :
    parseActorRef a.toJson = some a := by
  unfold parseActorRef at h
  split at h
  · split at h
    · cases h
    · split at h
      · cases h
      · rename_i hid
        obtain rfl := Option.some.inj h
        rw [Bool.or_eq_true, not_or, Bool.not_eq_true, Bool.not_eq_true, Bool.not_eq_false'] at hid
        simp [parseActorRef, ActorRef.toJson, Json.get, lookup_field, List.lookup_append,
          actorKind?_text, isBlank_trim, hid.1, hid.2, nonBlank_map]
  · cases h

end Fields

section Entry

variable {v w : Json} {e : AuditEntry}

/-- An accepted value gives a well-formed entry, with the identity and the links it names. -/
theorem normalize_ok (h : normalizePersistedAuditEntry v = .ok e) :
    e.WellFormed ∧ v.get "id" = some (.str e.id) ∧
      (v.get "chain_alg" = some (.str "hmac-sha256") → e.chainAlg = some .hmacSha256) := by
  unfold normalizePersistedAuditEntry at h
  obtain ⟨-, h⟩ := throwIf_eq_ok.mp h
  obtain ⟨id, hid, h⟩ := except_bind_ok h
  obtain ⟨timestamp, htimestamp, h⟩ := except_bind_ok h
  obtain ⟨agentId, hagent, h⟩ := except_bind_ok h
  obtain ⟨action, haction, h⟩ := except_bind_ok h
  obtain ⟨operation, hoperation, h⟩ := except_bind_ok h
  obtain ⟨previousHash, hprevious, h⟩ := except_bind_ok h
  obtain ⟨currentHash, hcurrent, h⟩ := except_bind_ok h
  obtain ⟨result, -, h⟩ := except_bind_ok h
  obtain ⟨reason, hreason, h⟩ := except_bind_ok h
  obtain ⟨correlationId, hcorrelation, h⟩ := except_bind_ok h
  obtain ⟨tenantSlug, htenant, h⟩ := except_bind_ok h
  obtain ⟨chainKeyId, hkey, h⟩ := except_bind_ok h
  obtain ⟨metadata, hmetadata, h⟩ := except_bind_ok h
  obtain ⟨compliance, hcompliance, h⟩ := except_bind_ok h
  obtain ⟨scope, hscope, h⟩ := except_bind_ok h
  obtain ⟨chainAlg, halg, h⟩ := except_bind_ok h
  obtain rfl := Except.ok.inj h
  refine ⟨⟨?_, ?_, ?_, (persistedCompliance_ok hcompliance).2, ?_⟩, requiredString_ok hid, ?_⟩
  · simp [requiredString_notBlank hid, requiredString_notBlank htimestamp,
      requiredString_notBlank hagent, requiredString_notBlank haction,
      requiredString_notBlank hoperation, requiredString_notBlank hprevious,
      requiredString_notBlank hcurrent]
  · simp only [List.forall_mem_cons]
    exact ⟨optionalString_notBlank hreason, optionalString_notBlank hcorrelation,
      optionalString_notBlank htenant, optionalString_notBlank hkey, nofun⟩
  · simp only [List.forall_mem_cons]
    exact ⟨persistedRecord_ok hmetadata, (persistedCompliance_ok hcompliance).1,
      persistedRecord_ok hscope, nofun⟩
  · intro a ha
    obtain ⟨value, -, hvalue⟩ := Option.bind_eq_some_iff.mp ha
    exact parseActorRef_ok hvalue
  · intro hkeyed
    rw [persistedChainAlg, hkeyed] at halg
    exact (Except.ok.inj halg).symm

/-- Acceptance reads the id and the previous hash only to see that they are there. -/
theorem normalize_isOk (h : normalizePersistedAuditEntry v = .ok e) (hrecord : w.isRecord = true)
    (hget : ∀ key, key ≠ "id" → key ≠ "previousHash" → w.get key = v.get key) {id previous : String}
    (hid : requiredString w "id" = .ok id)
    (hprevious : requiredString w "previousHash" = .ok previous) :
    (normalizePersistedAuditEntry w).isOk = true := by
  have hrequired : ∀ key, key ≠ "id" → key ≠ "previousHash" →
      requiredString w key = requiredString v key := by
    intro key hkey hkey'
    simp only [requiredString, persistedString, hget key hkey hkey']
  have hoptional : ∀ key, key ≠ "id" → key ≠ "previousHash" →
      optionalString w key = optionalString v key := by
    intro key hkey hkey'
    simp only [optionalString, persistedString, hget key hkey hkey']
  have hrecords : ∀ key, key ≠ "id" → key ≠ "previousHash" →
      persistedRecord w key = persistedRecord v key := by
    intro key hkey hkey'
    simp only [persistedRecord, hget key hkey hkey']
  have hobject : ¬ (!w.isRecord) = true := by simp [hrecord]
  unfold normalizePersistedAuditEntry at h
  obtain ⟨-, h⟩ := throwIf_eq_ok.mp h
  obtain ⟨_, -, h⟩ := except_bind_ok h
  obtain ⟨timestamp, htimestamp, h⟩ := except_bind_ok h
  obtain ⟨agentId, hagent, h⟩ := except_bind_ok h
  obtain ⟨action, haction, h⟩ := except_bind_ok h
  obtain ⟨operation, hoperation, h⟩ := except_bind_ok h
  obtain ⟨_, -, h⟩ := except_bind_ok h
  obtain ⟨currentHash, hcurrent, h⟩ := except_bind_ok h
  obtain ⟨result, hresult, h⟩ := except_bind_ok h
  obtain ⟨reason, hreason, h⟩ := except_bind_ok h
  obtain ⟨correlationId, hcorrelation, h⟩ := except_bind_ok h
  obtain ⟨tenantSlug, htenant, h⟩ := except_bind_ok h
  obtain ⟨chainKeyId, hkey, h⟩ := except_bind_ok h
  obtain ⟨metadata, hmetadata, h⟩ := except_bind_ok h
  obtain ⟨compliance, hcompliance, h⟩ := except_bind_ok h
  obtain ⟨scope, hscope, h⟩ := except_bind_ok h
  obtain ⟨chainAlg, halg, h⟩ := except_bind_ok h
  rw [← hrequired _ (by decide) (by decide)] at htimestamp hagent haction hoperation hcurrent
  rw [← hoptional _ (by decide) (by decide)] at hreason hcorrelation htenant hkey
  rw [← hrecords _ (by decide) (by decide)] at hmetadata hscope
  rw [persistedResult, ← hget "result" (by decide) (by decide), ← persistedResult] at hresult
  rw [persistedChainAlg, ← hget "chain_alg" (by decide) (by decide), ← persistedChainAlg] at halg
  rw [persistedCompliance, ← hrecords _ (by decide) (by decide), ← persistedCompliance]
    at hcompliance
  simp only [normalizePersistedAuditEntry, throwIf_neg hobject, hid, hprevious, htimestamp, hagent,
    haction, hoperation, hcurrent, hresult, hreason, hcorrelation, htenant, hkey, hmetadata,
    hcompliance, hscope, halg, bind, Except.bind]
  rfl

theorem requiredString_printed {record : Json} {key s : String}
    (h : requiredString record key = .ok s) : requiredString record.printed key = .ok s := by
  refine AuditEntry.requiredString_of_get ?_ (requiredString_notBlank h)
  rw [Json.get_printed, requiredString_ok h]
  rfl

/-- What is well formed stays so when its line is read back. -/
theorem wellFormed_persisted (h : e.WellFormed) : e.persisted.WellFormed where
  texts := h.texts
  optionalTexts := h.optionalTexts
  records := by
    have hrecord : ∀ v : Option Json, v.all Json.isRecord = true →
        (v.map Json.printed).all Json.isRecord = true := by
      intro v hv
      cases v with
      | none => rfl
      | some v => simpa [Json.isRecord_printed] using hv
    have hall := h.records
    simp only [List.forall_mem_cons] at hall ⊢
    exact ⟨hrecord _ hall.1, hrecord _ hall.2.1, hrecord _ hall.2.2.1, nofun⟩
  compliance := by
    intro v hv
    obtain ⟨compliance, hcompliance, rfl⟩ := Option.map_eq_some_iff.mp hv
    have hprinted : ∀ key, (requiredString compliance key).isOk = true →
        (requiredString compliance.printed key).isOk = true := by
      intro key hkey
      cases hs : requiredString compliance key with
      | error _ =>
          rw [hs] at hkey
          cases hkey
      | ok s => rw [requiredString_printed hs]; rfl
    obtain ⟨hframework, hcontrol⟩ := h.compliance compliance hcompliance
    exact ⟨hprinted _ hframework, hprinted _ hcontrol⟩
  actor := h.actor

theorem printed_toJson (e : AuditEntry) : e.toJson.printed = e.persisted.toJson := by
  simp only [AuditEntry.toJson, Json.printed, Json.printedFields_append,
    AuditEntry.printedFields_hashedFields]
  rfl

/-- The reader gives the entry back: its keys are safe and its line is not too long. -/
def Readable (e : AuditEntry) : Prop :=
  e.toJson.isSafeJsonValue = true ∧ e.toJson.stringify.utf8ByteSize ≤ maxLineBytes

theorem utf8ByteSize_ofList (cs : List Char) :
    (String.ofList cs).utf8ByteSize = (cs.map Char.utf8Size).sum := by
  induction cs with
  | nil => rfl
  | cons c cs ih =>
      rw [String.ofList_cons, String.utf8ByteSize_append, String.utf8ByteSize_singleton, ih,
        List.map_cons, List.sum_cons]

/-- Decided on the characters, which the kernel counts faster than the bytes. -/
instance (e : AuditEntry) : Decidable (Readable e) :=
  decidable_of_iff (e.toJson.isSafeJsonValue = true ∧
      (e.toJson.text.map Char.utf8Size).sum ≤ maxLineBytes) <| by
    rw [Readable, Json.stringify, utf8ByteSize_ofList]

theorem recordLine_readable (h : Readable e) (hwell : e.WellFormed) :
    recordLine e = .value e.persisted.toJson ∧ parseEntry e.persisted.toJson = .ok e.persisted := by
  constructor
  · rw [recordLine, if_neg (Nat.not_lt.mpr h.2), printed_toJson]
  · have hsafe : e.persisted.toJson.isSafeJsonValue = true := by
      rw [← printed_toJson, Json.isSafeJsonValue_printed]
      exact h.1
    rw [parseEntry, if_pos hsafe]
    exact AuditEntry.normalize_toJson (wellFormed_persisted hwell)

theorem message_persisted (e : AuditEntry) : e.persisted.message = e.message := by
  have htext : (Json.obj e.persisted.hashedFields).stringify =
      (Json.obj e.hashedFields).stringify := by
    rw [← AuditEntry.printedFields_hashedFields]
    exact congrArg String.ofList (Json.text_printed (.obj e.hashedFields))
  unfold AuditEntry.message AuditEntry.payload
  rw [htext]
  rfl

theorem authentic_persisted {H : Digests} {key : String} (h : Authentic H key e) :
    Authentic H key e.persisted :=
  ⟨h.1, by rw [message_persisted]; exact h.2⟩

end Entry

section Call

variable {H : Digests} {key lastHash : String} {call : RecordCall} {e : AuditEntry} {n : ℕ}

/-- What the chain itself puts into an entry. -/
def chainFields (H : Digests) (key lastHash : String) (d : Draft) : List (String × Json) :=
  optionalField "correlationId" d.correlationId ++
    optionalField "tenantSlug" (d.tenantSlug.map .str) ++ optionalField "scope" d.scope ++
    [("chain_alg", .str "hmac-sha256"), ("chain_key_id", .str (getAuditChainKeyId H key)),
      ("previousHash", .str lastHash), ("currentHash", .str "pending")]

theorem get_object (d : Draft) (key' : String) : (d.object H key lastHash).get key' =
    ((chainFields H key lastHash d).lookup key').or
      (((d.entry.filter fun field =>
        !(["tenantSlug", "scope", "correlationId"].contains field.1)).lookup key').or
          (if key' = "id" then some (.str d.id)
            else if key' = "timestamp" then some (.str d.timestamp) else none)) := by
  rw [Draft.object, Json.get, lookup_spread, lookup_spread, ← chainFields]
  simp [lookup_field]

theorem lookup_filter_none {fields : List (String × Json)} {p : String × Json → Bool}
    {key' : String} (h : fields.lookup key' = none) : (fields.filter p).lookup key' = none := by
  rw [List.lookup_eq_none_iff] at h ⊢
  exact fun field hfield => h field (List.mem_of_mem_filter hfield)

/-- An accepted call appends a well-formed entry under its own id. -/
theorem appendUnderLock_wellFormed (hex : ∀ message, isBlank (H.hmacSha256 key message) = false)
    (htyped : call.typed = true) (h : appendUnderLock H key lastHash (call.draft n) = .ok e) :
    e.WellFormed ∧ e.id = (call.draft n).id ∧ Authentic H key e ∧ e.previousHash = lastHash := by
  obtain ⟨hprevious, hcurrent⟩ := appendUnderLock_ok h
  unfold appendUnderLock at h
  obtain ⟨next, hnext, he⟩ := except_bind_ok h
  obtain rfl := Except.ok.inj he
  obtain ⟨hwell, hid, halg⟩ := normalize_ok hnext
  have hkeyed : next.chainAlg = some .hmacSha256 := by
    refine halg ?_
    simp [get_object, chainFields, List.lookup_append]
  have hnone : call.entry.lookup "id" = none := by
    unfold RecordCall.typed at htyped
    rw [Bool.and_eq_true, Option.isNone_iff_eq_none] at htyped
    exact htyped.1
  have hsame : next.id = (call.draft n).id := by
    have hfiltered := lookup_filter_none (p := fun field =>
      !(["tenantSlug", "scope", "correlationId"].contains field.1)) hnone
    have hget : (call.draft n).entry = call.entry := rfl
    rw [get_object, hget, hfiltered] at hid
    simpa [chainFields, List.lookup_append, lookup_field, eq_comm] using hid
  refine ⟨⟨?_, hwell.optionalTexts, hwell.records, hwell.compliance, hwell.actor⟩, hsame,
    ⟨hkeyed, hcurrent⟩, hprevious⟩
  have htexts := hwell.texts
  simp only [List.forall_mem_cons] at htexts ⊢
  obtain ⟨h1, h2, h3, h4, h5, h6, -, hnil⟩ := htexts
  exact ⟨h1, h2, h3, h4, h5, h6, hex _, hnil⟩

theorem isBlank_of_head {s : String} {c : Char} {cs : List Char} (h : s.toList = c :: cs)
    (hc : isWhiteSpace c = false) : isBlank s = false := by
  have hdrop : (c :: cs).dropWhile isWhiteSpace = c :: cs := by simp [hc]
  rw [isBlank, trim, h, hdrop, decide_eq_false_iff_not]
  intro hempty
  have hnil := (List.rdropWhile_eq_nil_iff).mp (String.ofList_eq_empty_iff.mp hempty) c
    List.mem_cons_self
  rw [hc] at hnil
  cases hnil

theorem isBlank_draft_id (call : RecordCall) (n : ℕ) : isBlank (call.draft n).id = false := by
  have hlist : (call.draft n).id.toList = 'A' :: ("UD-".toList ++ call.time.toList ++
      "-".toList ++ (toString n).toList) := by
    simp [RecordCall.draft]
  exact isBlank_of_head hlist (by decide)

/-- A call that is refused after some entry is refused on an empty chain too. -/
theorem appendUnderLock_refused {message : String} (hlast : isBlank lastHash = false)
    (htyped : call.typed = true)
    (h : appendUnderLock H key lastHash (call.draft n) = .error message) :
    (appendUnderLock H key genesisHash (call.draft 1)).isOk = false := by
  rw [← Bool.not_eq_true]
  intro hok
  cases happend : appendUnderLock H key genesisHash (call.draft 1) with
  | error _ =>
      rw [happend] at hok
      cases hok
  | ok e =>
      unfold appendUnderLock at happend h
      obtain ⟨next, hnext, -⟩ := except_bind_ok happend
      have hnone : call.entry.lookup "id" = none := by
        unfold RecordCall.typed at htyped
        rw [Bool.and_eq_true, Option.isNone_iff_eq_none] at htyped
        exact htyped.1
      have hid : requiredString ((call.draft n).object H key lastHash) "id" =
          .ok (call.draft n).id := by
        refine AuditEntry.requiredString_of_get ?_ (isBlank_draft_id _ _)
        have hfiltered := lookup_filter_none (p := fun field =>
          !(["tenantSlug", "scope", "correlationId"].contains field.1)) hnone
        rw [get_object, show (call.draft n).entry = call.entry from rfl, hfiltered]
        simp [chainFields, List.lookup_append, lookup_field]
      have hprevious : requiredString ((call.draft n).object H key lastHash) "previousHash" =
          .ok lastHash := by
        refine AuditEntry.requiredString_of_get ?_ hlast
        simp [get_object, chainFields, List.lookup_append, lookup_field]
      have hsame : ∀ key', key' ≠ "id" → key' ≠ "previousHash" →
          ((call.draft n).object H key lastHash).get key' =
            ((call.draft 1).object H key genesisHash).get key' := by
        intro key' hkey hkey'
        simp only [get_object, chainFields, List.lookup_append, lookup_field, if_neg hkey,
          if_neg hkey']
        rfl
      have haccepted := normalize_isOk hnext rfl hsame hid hprevious
      cases hnormal : normalizePersistedAuditEntry ((call.draft n).object H key lastHash) with
      | error _ =>
          rw [hnormal] at haccepted
          cases haccepted
      | ok next' =>
          rw [hnormal] at h
          cases h

end Call

end Kyberion.Audit
