import Kyberion.Audit.Entry

/-!
What the digest of an audit entry covers. The hashed text fixes the entry as
its line reads back, up to the hash itself.
-/

namespace Kyberion.Audit

open Js Js.Json

@[simp] theorem map_printed_str (value : Option String) :
    (value.map Json.str).map Json.printed = value.map Json.str := by
  cases value <;> rfl

theorem str_map_inj {a b : Option String} (h : a.map Json.str = b.map Json.str) : a = b :=
  Option.map_injective (fun _ _ hs => Json.str.inj hs) h

@[simp] theorem ActorRef.printed_toJson (a : ActorRef) : a.toJson.printed = a.toJson := by
  simp only [toJson, Json.printed, printedFields_append, printedFields_optionalField,
    map_printed_str, printedFields]

theorem ActorKind.text_inj {a b : ActorKind} (h : a.text = b.text) : a = b := by
  cases a <;> cases b <;> first | rfl | exact absurd h (by decide)

theorem Result.text_inj {a b : Result} (h : a.text = b.text) : a = b := by
  cases a <;> cases b <;> first | rfl | exact absurd h (by decide)

theorem ChainAlg.text_inj {a b : ChainAlg} (h : a.text = b.text) : a = b := by
  cases a <;> cases b <;> first | rfl | exact absurd h (by decide)

theorem ActorRef.toJson_inj {a b : ActorRef} (h : a.toJson = b.toJson) : a = b := by
  have hfields := Json.obj.inj h
  have hkind : a.kind.text = b.kind.text := by
    simpa [lookup_field, List.lookup_append] using congrArg (List.lookup "kind") hfields
  have hid : a.id = b.id := by
    simpa [lookup_field, List.lookup_append] using congrArg (List.lookup "id") hfields
  have hname : a.displayName.map Json.str = b.displayName.map Json.str := by
    simpa [lookup_field, List.lookup_append] using congrArg (List.lookup "display_name") hfields
  have hbehalf : a.onBehalfOf.map Json.str = b.onBehalfOf.map Json.str := by
    simpa [lookup_field, List.lookup_append] using congrArg (List.lookup "on_behalf_of") hfields
  obtain ⟨kind, id, displayName, onBehalfOf⟩ := a
  obtain rfl := ActorKind.text_inj hkind
  obtain rfl : id = b.id := hid
  obtain rfl := str_map_inj hname
  obtain rfl := str_map_inj hbehalf
  rfl

namespace AuditEntry

variable {e f : AuditEntry}

/-- Looking a key up in the hashed object. -/
theorem lookup_hashedFields (h : e.hashedFields = f.hashedFields) (key : String) :
    e.hashedFields.lookup key = f.hashedFields.lookup key :=
  congrArg (List.lookup key) h

theorem hashedFields_inj (h : e.hashedFields = f.hashedFields) :
    { e with currentHash := "" } = { f with currentHash := "" } := by
  have hlookup := lookup_hashedFields h
  have hid : e.id = f.id := by
    simpa [hashedFields, lookup_field, List.lookup_append] using hlookup "id"
  have htimestamp : e.timestamp = f.timestamp := by
    simpa [hashedFields, lookup_field, List.lookup_append] using hlookup "timestamp"
  have hagent : e.agentId = f.agentId := by
    simpa [hashedFields, lookup_field, List.lookup_append] using hlookup "agentId"
  have haction : e.action = f.action := by
    simpa [hashedFields, lookup_field, List.lookup_append] using hlookup "action"
  have hoperation : e.operation = f.operation := by
    simpa [hashedFields, lookup_field, List.lookup_append] using hlookup "operation"
  have hresult : e.result.text = f.result.text := by
    simpa [hashedFields, lookup_field, List.lookup_append] using hlookup "result"
  have hreason : e.reason.map Json.str = f.reason.map Json.str := by
    simpa [hashedFields, lookup_field, List.lookup_append] using hlookup "reason"
  have hcorrelation : e.correlationId.map Json.str = f.correlationId.map Json.str := by
    simpa [hashedFields, lookup_field, List.lookup_append] using hlookup "correlationId"
  have hmetadata : e.metadata = f.metadata := by
    simpa [hashedFields, lookup_field, List.lookup_append] using hlookup "metadata"
  have hcompliance : e.compliance = f.compliance := by
    simpa [hashedFields, lookup_field, List.lookup_append] using hlookup "compliance"
  have htenant : e.tenantSlug.map Json.str = f.tenantSlug.map Json.str := by
    simpa [hashedFields, lookup_field, List.lookup_append] using hlookup "tenantSlug"
  have hscope : e.scope = f.scope := by
    simpa [hashedFields, lookup_field, List.lookup_append] using hlookup "scope"
  have hactor : e.actor.map ActorRef.toJson = f.actor.map ActorRef.toJson := by
    simpa [hashedFields, lookup_field, List.lookup_append] using hlookup "actor"
  have halg : (e.chainAlg.map fun alg => Json.str alg.text) =
      f.chainAlg.map fun alg => Json.str alg.text := by
    simpa [hashedFields, lookup_field, List.lookup_append] using hlookup "chain_alg"
  have hkey : e.chainKeyId.map Json.str = f.chainKeyId.map Json.str := by
    simpa [hashedFields, lookup_field, List.lookup_append] using hlookup "chain_key_id"
  have hprevious : e.previousHash = f.previousHash := by
    simpa [hashedFields, lookup_field, List.lookup_append] using hlookup "previousHash"
  have halg' : e.chainAlg = f.chainAlg :=
    Option.map_injective (fun _ _ hs => ChainAlg.text_inj (Json.str.inj hs)) halg
  have hactor' : e.actor = f.actor :=
    Option.map_injective (fun _ _ hs => ActorRef.toJson_inj hs) hactor
  rw [hid, htimestamp, hagent, haction, hoperation, Result.text_inj hresult,
    str_map_inj hreason, str_map_inj hcorrelation, hmetadata, hcompliance, str_map_inj htenant,
    hscope, hactor', halg', str_map_inj hkey, hprevious]

theorem printedFields_hashedFields (e : AuditEntry) :
    printedFields e.hashedFields = e.persisted.hashedFields := by
  have hactor : (e.actor.map ActorRef.toJson).map Json.printed = e.actor.map ActorRef.toJson := by
    cases e.actor <;> simp
  have halg : (e.chainAlg.map fun alg => Json.str alg.text).map Json.printed =
      e.chainAlg.map fun alg => Json.str alg.text := by
    cases e.chainAlg <;> rfl
  simp only [hashedFields, persisted, printedFields_append, printedFields_optionalField,
    map_printed_str, hactor, halg, printedFields, Json.printed]

theorem persisted_eq_self_iff (e : AuditEntry) : e.persisted = e ↔ e.exact = true := by
  have hmap : ∀ v : Option Json, v.map Json.printed = v ↔ v.all Json.exact = true := by
    intro v
    cases v <;> simp [Json.printed_eq_self_iff]
  simp only [exact, Bool.and_eq_true, ← hmap]
  constructor
  · intro h
    exact ⟨⟨congrArg metadata h, congrArg compliance h⟩, congrArg scope h⟩
  · rintro ⟨⟨hmetadata, hcompliance⟩, hscope⟩
    rw [persisted, hmetadata, hcompliance, hscope]

theorem exact_persisted (e : AuditEntry) : e.persisted.exact = true := by
  have hmap : ∀ v : Option Json, (v.map Json.printed).all Json.exact = true := by
    intro v
    cases v <;> simp [Json.exact_printed]
  simp [exact, persisted, hmap]

/-- Equal payloads over previous hashes of one length cover the same entry. -/
theorem payload_inj {p q : String} (hlen : p.length = q.length)
    (h : e.payload p = f.payload q) : p = q ∧ e.body = f.body := by
  have hlist := congrArg String.toList h
  rw [payload, payload, String.toList_append, String.toList_append] at hlist
  obtain ⟨hprev, htext⟩ := List.append_inj hlist hlen
  refine ⟨String.toList_inj.mp hprev, ?_⟩
  have hprinted := stringify_eq_iff.mp (String.toList_inj.mp htext)
  simp only [Json.printed, Json.obj.injEq, printedFields_hashedFields] at hprinted
  exact hashedFields_inj hprinted

/-- What the reader's checks ask of an entry. -/
structure WellFormed (e : AuditEntry) : Prop where
  texts : ∀ s ∈ [e.id, e.timestamp, e.agentId, e.action, e.operation, e.previousHash,
    e.currentHash], isBlank s = false
  optionalTexts : ∀ s ∈ [e.reason, e.correlationId, e.tenantSlug, e.chainKeyId],
    s.all (!isBlank ·) = true
  records : ∀ v ∈ [e.metadata, e.compliance, e.scope], v.all Json.isRecord = true
  compliance : ∀ v ∈ e.compliance, (requiredString v "framework").isOk = true ∧
    (requiredString v "control").isOk = true
  actor : ∀ a ∈ e.actor, parseActorRef a.toJson = some a

theorem requiredString_of_get {record : Json} {key s : String}
    (hget : record.get key = some (.str s)) (hs : isBlank s = false) :
    requiredString record key = .ok s := by
  simp [requiredString, persistedString, hget, hs, bind, Except.bind]

theorem optionalString_of_get {record : Json} {key : String} {s : Option String}
    (hget : record.get key = s.map Json.str) (hs : s.all (!isBlank ·) = true) :
    optionalString record key = .ok s := by
  cases s with
  | none => simp [optionalString, persistedString, hget]
  | some s =>
      have hblank : isBlank s = false := by simpa using hs
      simp [optionalString, persistedString, hget, hblank]

theorem persistedRecord_of_get {record : Json} {key : String} {v : Option Json}
    (hget : record.get key = v) (hv : v.all Json.isRecord = true) :
    persistedRecord record key = .ok v := by
  cases v with
  | none => simp [persistedRecord, hget]
  | some v =>
      have hrecord : v.isRecord = true := by simpa using hv
      simp [persistedRecord, hget, hrecord]

/-- Reading a line by key. -/
theorem get_toJson (e : AuditEntry) (key : String) :
    e.toJson.get key = (e.hashedFields.lookup key).or
      (if key = "currentHash" then some (.str e.currentHash) else none) := by
  simp [toJson, Json.get, List.lookup_append, lookup_field]

theorem requiredString_toJson (e : AuditEntry) (key : String) (s : String)
    (hget : e.toJson.get key = some (.str s)) (h : e.WellFormed)
    (hs : s ∈ [e.id, e.timestamp, e.agentId, e.action, e.operation, e.previousHash,
      e.currentHash]) :
    requiredString e.toJson key = .ok s :=
  requiredString_of_get hget (h.texts s hs)

theorem optionalString_toJson (e : AuditEntry) (key : String) (s : Option String)
    (hget : e.toJson.get key = s.map Json.str) (h : e.WellFormed)
    (hs : s ∈ [e.reason, e.correlationId, e.tenantSlug, e.chainKeyId]) :
    optionalString e.toJson key = .ok s :=
  optionalString_of_get hget (h.optionalTexts s hs)

theorem persistedResult_toJson (e : AuditEntry) : persistedResult e.toJson = .ok e.result := by
  have hget : e.toJson.get "result" = some (.str e.result.text) := by
    simp [get_toJson, hashedFields, lookup_field]
  rw [persistedResult, hget]
  cases e.result <;> rfl

theorem persistedChainAlg_toJson (e : AuditEntry) :
    persistedChainAlg e.toJson = .ok e.chainAlg := by
  have hget : e.toJson.get "chain_alg" = e.chainAlg.map fun alg => .str alg.text := by
    simp [get_toJson, hashedFields, lookup_field, List.lookup_append]
  rw [persistedChainAlg, hget]
  cases e.chainAlg with
  | none => rfl
  | some alg => cases alg <;> rfl

theorem persistedCompliance_toJson {e : AuditEntry} (h : e.WellFormed) :
    persistedCompliance e.toJson = .ok e.compliance := by
  have hget : e.toJson.get "compliance" = e.compliance := by
    simp [get_toJson, hashedFields, lookup_field, List.lookup_append]
  have hrecord := persistedRecord_of_get hget (h.records _ (by simp))
  cases hcompliance : e.compliance with
  | none =>
      rw [hcompliance] at hrecord
      simp [persistedCompliance, hrecord, bind, Except.bind]
  | some v =>
      rw [hcompliance] at hrecord
      obtain ⟨hframework, hcontrol⟩ := h.compliance v hcompliance
      cases hf : requiredString v "framework" with
      | error err =>
          rw [hf] at hframework
          cases hframework
      | ok framework =>
          cases hc : requiredString v "control" with
          | error err =>
              rw [hc] at hcontrol
              cases hcontrol
          | ok control => simp [persistedCompliance, hrecord, hf, hc, bind, Except.bind]

theorem actor_toJson {e : AuditEntry} (h : e.WellFormed) :
    (e.toJson.get "actor").bind parseActorRef = e.actor := by
  have hget : e.toJson.get "actor" = e.actor.map ActorRef.toJson := by
    simp [get_toJson, hashedFields, lookup_field, List.lookup_append]
  rw [hget]
  cases hactor : e.actor with
  | none => rfl
  | some a => exact h.actor a hactor

/-- The line of a well-formed entry passes the reader's checks and gives the entry back. -/
theorem normalize_toJson {e : AuditEntry} (h : e.WellFormed) :
    normalizePersistedAuditEntry e.toJson = .ok e := by
  have hid := requiredString_toJson e "id" e.id
    (by simp [get_toJson, hashedFields]) h (by simp)
  have htimestamp := requiredString_toJson e "timestamp" e.timestamp
    (by simp [get_toJson, hashedFields, lookup_field]) h (by simp)
  have hagent := requiredString_toJson e "agentId" e.agentId
    (by simp [get_toJson, hashedFields, lookup_field]) h (by simp)
  have haction := requiredString_toJson e "action" e.action
    (by simp [get_toJson, hashedFields, lookup_field]) h (by simp)
  have hoperation := requiredString_toJson e "operation" e.operation
    (by simp [get_toJson, hashedFields, lookup_field]) h (by simp)
  have hprevious := requiredString_toJson e "previousHash" e.previousHash
    (by simp [get_toJson, hashedFields, lookup_field, List.lookup_append]) h (by simp)
  have hcurrent := requiredString_toJson e "currentHash" e.currentHash
    (by simp [get_toJson, hashedFields, lookup_field, List.lookup_append]) h (by simp)
  have hreason := optionalString_toJson e "reason" e.reason
    (by simp [get_toJson, hashedFields, lookup_field, List.lookup_append]) h (by simp)
  have hcorrelation := optionalString_toJson e "correlationId" e.correlationId
    (by simp [get_toJson, hashedFields, lookup_field, List.lookup_append]) h (by simp)
  have htenant := optionalString_toJson e "tenantSlug" e.tenantSlug
    (by simp [get_toJson, hashedFields, lookup_field, List.lookup_append]) h (by simp)
  have hkey := optionalString_toJson e "chain_key_id" e.chainKeyId
    (by simp [get_toJson, hashedFields, lookup_field, List.lookup_append]) h (by simp)
  have hmetadata : persistedRecord e.toJson "metadata" = .ok e.metadata :=
    persistedRecord_of_get
      (by simp [get_toJson, hashedFields, lookup_field, List.lookup_append]) (h.records _ (by simp))
  have hscope : persistedRecord e.toJson "scope" = .ok e.scope :=
    persistedRecord_of_get
      (by simp [get_toJson, hashedFields, lookup_field, List.lookup_append]) (h.records _ (by simp))
  have hobject : ¬ (!e.toJson.isRecord) = true := by simp [toJson, Json.isRecord]
  simp only [normalizePersistedAuditEntry, throwIf_neg hobject, hid, htimestamp, hagent, haction,
    hoperation, hprevious, hcurrent, hreason, hcorrelation, htenant, hkey, hmetadata, hscope,
    persistedResult_toJson, persistedChainAlg_toJson, persistedCompliance_toJson h,
    actor_toJson h, bind, Except.bind]

end AuditEntry

end Kyberion.Audit
