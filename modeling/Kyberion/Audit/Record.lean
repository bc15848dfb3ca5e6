import Kyberion.Audit.Verify

/-!
What `record` appends while it holds the chain lock. The caller's entry is the
list of its own properties; identity, clock and tenant resolution have already
taken place. The cursor is the hash of the last entry on disk.
-/

namespace Kyberion.Audit

open Js

/-- A prepared `record` call: its id and time, its entry, the tenant and scope it resolved to. -/
structure Draft where
  id : String
  timestamp : String
  entry : List (String × Json)
  tenantSlug : Option String
  scope : Option Json

/-- `entry.correlationId`, else the one in its metadata if that is a text. -/
def Draft.correlationId (d : Draft) : Option Json :=
  match d.entry.lookup "correlationId" with
  | some .null | none =>
      match (d.entry.lookup "metadata").bind (Json.get "correlationId") with
      | some (.str s) => some (.str s)
      | _ => none
  | some v => some v

def getAuditChainKeyId (H : Digests) (key : String) : String :=
  String.ofList ((H.sha256 key).toList.take 16)

/-- The object handed to the normaliser; an undefined property counts as absent. -/
def Draft.object (H : Digests) (key lastHash : String) (d : Draft) : Json :=
  let caller := d.entry.filter fun field =>
    !(["tenantSlug", "scope", "correlationId"].contains field.1)
  .obj (spread (spread [("id", .str d.id), ("timestamp", .str d.timestamp)] caller)
    (optionalField "correlationId" d.correlationId ++
      optionalField "tenantSlug" (d.tenantSlug.map .str) ++
      optionalField "scope" d.scope ++
      [("chain_alg", .str "hmac-sha256"), ("chain_key_id", .str (getAuditChainKeyId H key)),
        ("previousHash", .str lastHash), ("currentHash", .str "pending")]))

def appendUnderLock (H : Digests) (key lastHash : String) (d : Draft) :
    Except String AuditEntry := do
  let nextEntry ← normalizePersistedAuditEntry (d.object H key lastHash)
  .ok { nextEntry with currentHash := H.hmacSha256 key (nextEntry.payload lastHash) }

/-- The entries a sequence of calls appends; a refused call appends none. -/
def recorded (H : Digests) (key : String) : String → List Draft → List AuditEntry
  | _, [] => []
  | lastHash, d :: ds =>
      match appendUnderLock H key lastHash d with
      | .ok e => e :: recorded H key e.currentHash ds
      | .error _ => recorded H key lastHash ds

end Kyberion.Audit
