import Kyberion.Js.JsonParse
import Kyberion.Js.Throw
import Kyberion.Latest
import Kyberion.Transition
import Mathlib.Logic.Function.Basic

/-!
Provisioned artifacts of a mission. A write records a receipt, writes the artifact, reads it back
and records that it is verified; receipts bind the hash of the whole file, as text or as JSON.
The calls run one at a time under the writer lease, and a crash drops the one that runs.
-/

namespace Kyberion.Js

section Indented

def lineBreak (indent : ℕ) : List Char :=
  '\n' :: List.replicate indent ' '

mutual

/-- The characters of `JSON.stringify(value, null, 2)` behind an indent. -/
def Json.indentedText (indent : ℕ) : Json → List Char
  | .arr (v :: items) =>
      '[' :: (lineBreak (indent + 2) ++ v.indentedText (indent + 2) ++ indentedItems indent items)
  | .obj ((k, v) :: fields) =>
      '{' :: (lineBreak (indent + 2) ++ quote k ++ ':' :: ' ' :: v.indentedText (indent + 2) ++
        indentedFields indent fields)
  | v => v.text

def indentedItems (indent : ℕ) : List Json → List Char
  | [] => lineBreak indent ++ [']']
  | v :: items =>
      ',' :: (lineBreak (indent + 2) ++ v.indentedText (indent + 2) ++ indentedItems indent items)

def indentedFields (indent : ℕ) : List (String × Json) → List Char
  | [] => lineBreak indent ++ ['}']
  | (k, v) :: fields =>
      ',' :: (lineBreak (indent + 2) ++ quote k ++ ':' :: ' ' :: v.indentedText (indent + 2) ++
        indentedFields indent fields)

end

example : String.ofList (Json.indentedText 0 (.obj [("a", .arr [.null, .arr []])])) =
    "\x7b\n  \"a\": [\n    null,\n    []\n  ]\n\x7d" := by decide +kernel

end Indented

end Kyberion.Js

namespace Kyberion.Mission

open Js Transition

/-- What the code takes from its host. Every text is read back from its UTF-8. -/
structure ArtifactHost where
  sha256 : String → String
  readNumber : List Char → Number
  readUtf8 : ByteArray → String
  readUtf8_toUTF8 : ∀ text : String, readUtf8 text.toUTF8 = text

inductive ProvisionedEntryRecordPhase
  | provisioned | verified
  deriving DecidableEq

structure ProvisionedEntryRecord where
  entryId : String
  contentHash : String
  targetPath : String
  phase : ProvisionedEntryRecordPhase
  deriving DecidableEq

/-- The errors `MISSION_LOG_CORRUPT:…` of this file. -/
inductive ProvisionedError
  | duplicateProvisionedEntry (entryId : String)
  | verifiedEntryWithoutProvision (entryId : String)
  | unreadable
  | mismatch (entryId : Option String)
  | unverifiedProvisionedEntries
  | unreceiptedText
  deriving DecidableEq

/-- A content-addressed artifact provisioned before its durable write. -/
structure ProvisionedEntry where
  id : String
  content : Json
  contentHash : String

section Receipts

/-- One turn of the loop of `findUnverifiedProvisionedEntries`; `pending` is its map. -/
def trackEntry (pending : List ProvisionedEntryRecord) (record : ProvisionedEntryRecord) :
    Except ProvisionedError (List ProvisionedEntryRecord) :=
  match record.phase with
  | .provisioned =>
      if pending.any (·.entryId = record.entryId) then
        .error (.duplicateProvisionedEntry record.entryId)
      else .ok (pending ++ [record])
  | .verified =>
      if pending.any (·.entryId = record.entryId) then
        .ok (pending.filter (·.entryId ≠ record.entryId))
      else .error (.verifiedEntryWithoutProvision record.entryId)

def findUnverifiedProvisionedEntries (records : List ProvisionedEntryRecord) :
    Except ProvisionedError (List ProvisionedEntryRecord) :=
  records.foldlM trackEntry []

/-- The key under which a receipt counts as the verified one of its target. -/
def verifiedTarget (record : ProvisionedEntryRecord) : Option String :=
  if record.phase = .verified then some record.targetPath else none

def latestVerifiedByTarget (records : List ProvisionedEntryRecord) : List ProvisionedEntryRecord :=
  latestById verifiedTarget records

end Receipts

variable (host : ArtifactHost)

section Entries

def provisionedEntryHash (content : Json) : String :=
  host.sha256 content.stringify

def provisionMissionEntry (id : String) (content : Json) : ProvisionedEntry :=
  ⟨id, content, provisionedEntryHash host content⟩

def verifyProvisionedEntry (provisioned candidate : ProvisionedEntry) :
    Except ProvisionedError Unit :=
  throwIf (candidate.id ≠ provisioned.id ∨ candidate.contentHash ≠ provisioned.contentHash ∨
    provisionedEntryHash host candidate.content ≠ provisioned.contentHash) (.mismatch none) <|
  .ok ()

def readJson (bytes : ByteArray) : Option Json :=
  parseSafeJsonInput host.readNumber (host.readUtf8 bytes).toList

/-- The bytes hash to the receipt, as text or as the JSON they hold. -/
def receipted (bytes : ByteArray) (contentHash : String) : Bool :=
  provisionedEntryHash host (.str (host.readUtf8 bytes)) = contentHash ||
    (readJson host bytes).any fun content => provisionedEntryHash host content = contentHash

/-- The loop of `findMissingProvisionedEntries`. -/
def missingAmong (files : String → Option ByteArray) : List ProvisionedEntryRecord →
    Except ProvisionedError (List ProvisionedEntryRecord)
  | [] => .ok []
  | record :: rest =>
      match files record.targetPath with
      | none => (missingAmong files rest).map (record :: ·)
      | some bytes =>
          throwIf (receipted host bytes record.contentHash = false)
            (.mismatch (some record.entryId)) (missingAmong files rest)

def findMissingProvisionedEntries (files : String → Option ByteArray)
    (records : List ProvisionedEntryRecord) :
    Except ProvisionedError (List ProvisionedEntryRecord) :=
  missingAmong host files (latestVerifiedByTarget records)

/-- What the replay plan reads: the unverified receipts, and those whose file is missing. -/
def readProvisioned (files : String → Option ByteArray) (records : List ProvisionedEntryRecord) :
    Except ProvisionedError (List ProvisionedEntryRecord × List ProvisionedEntryRecord) := do
  let unverified ← findUnverifiedProvisionedEntries records
  let missing ←
    if unverified ≠ [] then pure [] else findMissingProvisionedEntries host files records
  return (unverified, missing)

end Entries

section Calls

def legacyLedger : String :=
  "execution-ledger.jsonl"

/-- The receipts an old writer left for an empty ledger. -/
def legacyEmptyLedger (targetPath : String) (records : List ProvisionedEntryRecord) : Bool :=
  targetPath = legacyLedger &&
    match records with
    | [first, second] =>
        first.phase = .provisioned && second.phase = .verified &&
          first.entryId = second.entryId &&
          records.all (·.contentHash = provisionedEntryHash host (.str ""))
    | _ => false

/-- What an append finds before it records its receipt: the text it goes on from, or none when a
repair has nothing to do. -/
def appendsFrom (records : List ProvisionedEntryRecord) (file : Option ByteArray)
    (targetPath : String) (repairLegacyEmptyLedger : Bool) :
    Except ProvisionedError (Option String) := do
  let records := records.filter (·.targetPath = targetPath)
  let unverified ← findUnverifiedProvisionedEntries records
  let current := (file.map host.readUtf8).getD ""
  let matching := records.getLast?.any (·.contentHash = provisionedEntryHash host (.str current))
  let legacyEmpty := repairLegacyEmptyLedger && legacyEmptyLedger host targetPath records
  throwIf (unverified ≠ []) .unverifiedProvisionedEntries <|
    throwIf (records ≠ [] ∧ matching = false ∧ legacyEmpty = false)
      (.mismatch (records.getLast?.map (·.entryId))) <|
    throwIf (records = [] ∧ current ≠ "") .unreceiptedText <|
    if repairLegacyEmptyLedger && (matching || !legacyEmpty) then .ok none else .ok (some current)

/-- The artifact a call writes; an append goes on from `current`. -/
inductive ArtifactWrite
  | json (content : Json)
  | text (content : String)
  | append (current content : String)

/-- What the entry of the call holds. -/
def ArtifactWrite.content : ArtifactWrite → Json
  | .json content => content
  | .text content => .str content
  | .append current content => .str (current ++ content)

/-- The file the call leaves. -/
def ArtifactWrite.fileText : ArtifactWrite → String
  | .json content => String.ofList (content.indentedText 0) ++ "\n"
  | .text content => content
  | .append current content => current ++ content

def ArtifactWrite.bytes (file : Option ByteArray) : ArtifactWrite → ByteArray
  | .append _ content => file.getD .empty ++ content.toUTF8
  | write => write.fileText.toUTF8

/-- A call that holds the lease and has recorded the receipt of its entry. -/
structure Writing where
  targetPath : String
  entry : ProvisionedEntry
  write : ArtifactWrite
  written : Bool := false

def Writing.record (w : Writing) (phase : ProvisionedEntryRecordPhase) : ProvisionedEntryRecord :=
  ⟨w.entry.id, w.entry.contentHash, w.targetPath, phase⟩

/-- What the call reads back before it records that the entry is verified. -/
def Writing.verify (w : Writing) (file : Option ByteArray) : Except ProvisionedError Unit :=
  match file with
  | none => .error .unreadable
  | some bytes =>
      match w.write with
      | .json _ =>
          match readJson host bytes with
          | none => .error .unreadable
          | some content =>
              verifyProvisionedEntry host w.entry ⟨w.entry.id, content, w.entry.contentHash⟩
      | write => throwIf (host.readUtf8 bytes ≠ write.fileText) (.mismatch none) (.ok ())

end Calls

/-- The receipts, the artifacts under their target paths, and the call that holds the lease. -/
structure MissionArtifacts where
  records : List ProvisionedEntryRecord := []
  files : String → Option ByteArray := fun _ => none
  writer : Option Writing := none

inductive ArtifactStep
  | writeJson (targetPath id : String) (content : Json)
  | writeText (targetPath id content : String)
  | append (targetPath id content : String) (repairLegacyEmptyLedger : Bool)
  /-- the artifact is written -/
  | write
  /-- the process dies behind the first `count` bytes of an append -/
  | torn (count : ℕ)
  /-- the artifact is read back, and its entry recorded as verified -/
  | confirm
  | crash

namespace MissionArtifacts

/-- The call records its receipt. -/
def provision (s : MissionArtifacts) (targetPath id : String) (write : ArtifactWrite) :
    MissionArtifacts :=
  let w : Writing := ⟨targetPath, provisionMissionEntry host id write.content, write, false⟩
  { s with records := s.records ++ [w.record .provisioned], writer := some w }

def store (s : MissionArtifacts) (w : Writing) : MissionArtifacts :=
  { s with
    files := Function.update s.files w.targetPath (some (w.write.bytes (s.files w.targetPath)))
    writer := some { w with written := true } }

def tear (s : MissionArtifacts) (w : Writing) (content : String) (count : ℕ) : MissionArtifacts :=
  { s with
    files := Function.update s.files w.targetPath
      (some ((s.files w.targetPath).getD .empty ++ content.toUTF8.extract 0 count))
    writer := none }

def finish (s : MissionArtifacts) (w : Writing) : MissionArtifacts :=
  match w.verify host (s.files w.targetPath) with
  | .error _ => { s with writer := none }
  | .ok _ => { s with records := s.records ++ [w.record .verified], writer := none }

def next (s : MissionArtifacts) (a : ArtifactStep) : Option MissionArtifacts :=
  match s.writer, a with
  | none, .writeJson targetPath id content => some (s.provision host targetPath id (.json content))
  | none, .writeText targetPath id content => some (s.provision host targetPath id (.text content))
  | none, .append targetPath id content repair =>
      match appendsFrom host s.records (s.files targetPath) targetPath repair with
      | .ok (some current) => some (s.provision host targetPath id (.append current content))
      | _ => some s
  | some w, .write => if w.written then none else some (s.store w)
  | some w, .torn count =>
      match w.write with
      | .append _ content => if w.written then none else some (s.tear w content count)
      | _ => none
  | some w, .confirm => if w.written then some (s.finish host w) else none
  | some _, .crash => some { s with writer := none }
  | _, _ => none

end MissionArtifacts

def artifactSystem : System MissionArtifacts ArtifactStep where
  init s := s = {}
  step := MissionArtifacts.next host

/-- The contents are read back from their JSON text, and the id drawn for an entry is not that of
one still unverified. -/
def ArtifactStep.Sound (s : MissionArtifacts) (a : ArtifactStep) : Prop :=
  let fresh (id : String) : Prop :=
    ∀ unverified, findUnverifiedProvisionedEntries s.records = .ok unverified →
      ∀ record ∈ unverified, record.entryId ≠ id
  match a with
  | .writeJson _ id content =>
      fresh id ∧ readJson host (ArtifactWrite.json content).fileText.toUTF8 = some content
  | .writeText _ id _ | .append _ id _ _ => fresh id
  | _ => True

end Kyberion.Mission
