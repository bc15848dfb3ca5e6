import Kyberion.Grammar
import Kyberion.Js.Fields
import Kyberion.Js.JsonText
import Kyberion.Js.Text
import Kyberion.Js.Throw

/-!
Audit entries: the check of a persisted record, the object that is hashed and
written, and the fact that its text fixes every field it covers up to numbers
that do not print back to themselves.
-/

namespace Kyberion.Audit

open Js

inductive Result
  | allowed | denied | error | completed | failed
  deriving DecidableEq, Repr

inductive ChainAlg
  | sha256 | hmacSha256
  deriving DecidableEq, Repr

inductive ActorKind
  | human | agent | service
  deriving DecidableEq, Repr

structure ActorRef where
  kind : ActorKind
  id : String
  displayName : Option String
  onBehalfOf : Option String
  deriving DecidableEq, Repr

structure AuditEntry where
  id : String
  timestamp : String
  agentId : String
  action : String
  operation : String
  result : Result
  reason : Option String
  correlationId : Option String
  metadata : Option Json
  compliance : Option Json
  tenantSlug : Option String
  scope : Option Json
  actor : Option ActorRef
  chainAlg : Option ChainAlg
  chainKeyId : Option String
  previousHash : String
  currentHash : String

def Result.text : Result → String
  | .allowed => "allowed"
  | .denied => "denied"
  | .error => "error"
  | .completed => "completed"
  | .failed => "failed"

def ChainAlg.text : ChainAlg → String
  | .sha256 => "sha256"
  | .hmacSha256 => "hmac-sha256"

def ActorKind.text : ActorKind → String
  | .human => "human"
  | .agent => "agent"
  | .service => "service"

def actorKind? (kind : String) : Option ActorKind :=
  if kind = "human" then some .human
  else if kind = "agent" then some .agent
  else if kind = "service" then some .service
  else none

/-- The grammar of a trimmed actor id, kind by kind. -/
def actorIdOk (kind : ActorKind) (id : String) : Bool :=
  match kind with
  | .human => ("user:".toList.isPrefixOf? id.toList).any isValidMemberId
  | .agent => isNhiId id.toList
  | .service => ("service:".toList.isPrefixOf? id.toList).any isSlug

def nonBlank (v : Option Json) : Option String :=
  match v with
  | some (.str s) => if isBlank s then none else some (trim s)
  | _ => none

def parseActorRef (value : Json) : Option ActorRef :=
  match value.get "kind", value.get "id" with
  | some (.str kind), some (.str id) =>
      match actorKind? kind with
      | none => none
      | some kind =>
          if isBlank id || !actorIdOk kind (trim id) then none
          else some ⟨kind, trim id, nonBlank (value.get "display_name"),
            nonBlank (value.get "on_behalf_of")⟩
  | _, _ => none

def notAString (key : String) : String :=
  "audit." ++ key ++ " must be a non-empty string"

def persistedString (record : Json) (key : String) (nullable optional : Bool) :
    Except String (Option String) :=
  match record.get key with
  | none => if optional then .ok none else .error (notAString key)
  | some .null => if nullable then .ok none else .error (notAString key)
  | some (.str s) => if isBlank s then .error (notAString key) else .ok (some s)
  | some _ => .error (notAString key)

/-- A field that may be neither absent nor null. -/
def requiredString (record : Json) (key : String) : Except String String := do
  match ← persistedString record key false false with
  | some s => .ok s
  | none => .error (notAString key)

def optionalString (record : Json) (key : String) : Except String (Option String) :=
  persistedString record key true true

def persistedRecord (record : Json) (key : String) : Except String (Option Json) :=
  match record.get key with
  | none => .ok none
  | some v =>
      if v.isRecord then .ok (some v) else .error ("audit." ++ key ++ " must be an object")

def persistedResult (record : Json) : Except String Result :=
  match record.get "result" with
  | some (.str "allowed") => .ok .allowed
  | some (.str "denied") => .ok .denied
  | some (.str "error") => .ok .error
  | some (.str "completed") => .ok .completed
  | some (.str "failed") => .ok .failed
  | _ => .error "audit.result is invalid"

def persistedChainAlg (record : Json) : Except String (Option ChainAlg) :=
  match record.get "chain_alg" with
  | none => .ok none
  | some (.str "sha256") => .ok (some .sha256)
  | some (.str "hmac-sha256") => .ok (some .hmacSha256)
  | some _ => .error "audit.chain_alg is invalid"

def persistedCompliance (record : Json) : Except String (Option Json) := do
  match ← persistedRecord record "compliance" with
  | none => .ok none
  | some compliance => do
      let _ ← requiredString compliance "framework"
      let _ ← requiredString compliance "control"
      .ok (some compliance)

def normalizePersistedAuditEntry (value : Json) : Except String AuditEntry :=
  throwIf (!value.isRecord) "audit entry must be a JSON object" do
    let id ← requiredString value "id"
    let timestamp ← requiredString value "timestamp"
    let agentId ← requiredString value "agentId"
    let action ← requiredString value "action"
    let operation ← requiredString value "operation"
    let previousHash ← requiredString value "previousHash"
    let currentHash ← requiredString value "currentHash"
    let result ← persistedResult value
    let reason ← optionalString value "reason"
    let correlationId ← optionalString value "correlationId"
    let tenantSlug ← optionalString value "tenantSlug"
    let chainKeyId ← optionalString value "chain_key_id"
    let metadata ← persistedRecord value "metadata"
    let compliance ← persistedCompliance value
    let scope ← persistedRecord value "scope"
    -- an actor that does not parse is dropped, never an error
    let actor := (value.get "actor").bind parseActorRef
    let chainAlg ← persistedChainAlg value
    .ok {
      id, timestamp, agentId, action, operation, result, reason, correlationId, metadata,
      compliance, tenantSlug, scope, actor, chainAlg, chainKeyId, previousHash, currentHash }

def ActorRef.toJson (a : ActorRef) : Json :=
  .obj ([("kind", .str a.kind.text), ("id", .str a.id)] ++
    optionalField "display_name" (a.displayName.map .str) ++
    optionalField "on_behalf_of" (a.onBehalfOf.map .str))

namespace AuditEntry

/-- The own properties that `JSON.stringify` sees when `currentHash` is undefined. -/
def hashedFields (e : AuditEntry) : List (String × Json) :=
  [("id", .str e.id), ("timestamp", .str e.timestamp), ("agentId", .str e.agentId),
    ("action", .str e.action), ("operation", .str e.operation), ("result", .str e.result.text)] ++
  optionalField "reason" (e.reason.map .str) ++
  optionalField "correlationId" (e.correlationId.map .str) ++
  optionalField "metadata" e.metadata ++
  optionalField "compliance" e.compliance ++
  optionalField "tenantSlug" (e.tenantSlug.map .str) ++
  optionalField "scope" e.scope ++
  optionalField "actor" (e.actor.map ActorRef.toJson) ++
  optionalField "chain_alg" (e.chainAlg.map fun alg => .str alg.text) ++
  optionalField "chain_key_id" (e.chainKeyId.map .str) ++
  [("previousHash", .str e.previousHash)]

/-- The line a record appends. -/
def toJson (e : AuditEntry) : Json :=
  .obj (e.hashedFields ++ [("currentHash", .str e.currentHash)])

/-- What `computeAuditEntryHash` digests. -/
def payload (e : AuditEntry) (previousHash : String) : String :=
  previousHash ++ (Json.obj e.hashedFields).stringify

/-- The entry as its line reads back: only free-form objects can hold numbers. -/
def persisted (e : AuditEntry) : AuditEntry :=
  { e with
    metadata := e.metadata.map Json.printed
    compliance := e.compliance.map Json.printed
    scope := e.scope.map Json.printed }

/-- Every number in the entry prints back to itself. -/
def exact (e : AuditEntry) : Bool :=
  e.metadata.all Json.exact && e.compliance.all Json.exact && e.scope.all Json.exact

/-- An entry as its line reads back, without the hash that covers it. -/
def body (e : AuditEntry) : AuditEntry :=
  { e.persisted with currentHash := "" }

end AuditEntry

end Kyberion.Audit
