import Kyberion.Audit.Record
import Kyberion.Transition
import Mathlib.Data.List.Infix

/-!
The day files while entries are appended. Under the chain lock a call takes its
cursor from the last readable entry on disk, then appends one line; an append that
is cut short leaves a torn last line, which the next append ends with a newline.
A proper prefix of a printed object is no JSON text.
-/

namespace Kyberion.Audit

open Js

/-- `Number.MAX_SAFE_INTEGER` -/
def maxSafeInteger : ℕ := 9007199254740991

/-- The longest line that a scan reads: 64 MiB. -/
def maxLineBytes : ℕ := 67108864

/-- The digits behind the last dash of an id, when their number is safe. -/
def auditIdCounter (id : String) : Option ℕ :=
  let reversed := id.toList.reverse
  let tail := (reversed.takeWhile isDigit).reverse
  if tail = [] ∨ (reversed.dropWhile isDigit).head? ≠ some '-' then none
  else if Nat.ofDigitChars 10 tail 0 ≤ maxSafeInteger then some (Nat.ofDigitChars 10 tail 0)
  else none

/-- The last entry among lines read newest first, and how many lines were skipped as malformed.
A torn line is passed over silently unless it is too long or holds a value. -/
def readSeedLines : Bool → List Line → Option AuditEntry × ℕ
  | _, [] => (none, 0)
  | torn, line :: older =>
      let (last, skipped) := readSeedLines false older
      match line with
      | .blank => (last, skipped)
      | .oversized => (last, skipped + 1)
      | .malformed => (last, if torn then skipped else skipped + 1)
      | .value v =>
          if v.isSafeJsonValue then
            match normalizePersistedAuditEntry v with
            | .ok e => (some e, 0)
            | .error _ => (last, skipped + 1)
          else (last, if torn then skipped else skipped + 1)

/-- The cursor from the files read newest first, or why appending is refused. -/
def seedFromFiles (unterminated : String → Bool) : List DayFile → Except String (String × ℕ)
  | [] => .ok (genesisHash, 0)
  | file :: older =>
      if !file.readable then .error (file.name ++ ": cannot be read")
      else match readSeedLines (unterminated file.name) file.lines.reverse with
        | (none, 0) => seedFromFiles unterminated older
        | (none, skipped + 1) =>
            .error (file.name ++ ": " ++ toString (skipped + 1) ++
              " line(s), none a valid audit record")
        | (some last, _) => .ok (last.currentHash, (auditIdCounter last.id).getD 0)

def seedFromDisk (unterminated : String → Bool) (dir : List DayFile) :
    Except String (String × ℕ) :=
  (seedFromFiles unterminated (listAuditFiles dir).reverse).mapError fun fault =>
    "[AUDIT_CHAIN_TAIL_UNREADABLE] audit chain tail cannot be read — appending would fork the " ++
      "chain | next: restore read access to the newest audit file or repair it | evidence: " ++ fault

/-- A prepared call: `Date.now()` in base 36, the time of the entry, and what the caller gave. -/
structure RecordCall where
  time : String
  timestamp : String
  entry : List (String × Json)
  tenantSlug : Option String
  scope : Option Json

namespace RecordCall

/-- The first ten characters of the timestamp. -/
def date (call : RecordCall) : List Char :=
  call.timestamp.toList.take 10

def fileName (call : RecordCall) : String :=
  "audit-" ++ String.ofList call.date ++ ".jsonl"

def draft (call : RecordCall) (entryCount : ℕ) : Draft where
  id := "AUD-" ++ call.time ++ "-" ++ toString entryCount
  timestamp := call.timestamp
  entry := call.entry
  tenantSlug := call.tenantSlug
  scope := call.scope

/-- The type of the caller's entry leaves out what the chain fills in. -/
def typed (call : RecordCall) : Bool :=
  (call.entry.lookup "id").isNone && (call.entry.lookup "timestamp").isNone

end RecordCall

/-- The entry that the call appends, from the cursor on disk. -/
def recordEntry (H : Digests) (key : String) (unterminated : String → Bool) (dir : List DayFile)
    (call : RecordCall) : Except String AuditEntry := do
  let (lastHash, entryCount) ← seedFromDisk unterminated dir
  appendUnderLock H key lastHash (call.draft (entryCount + 1))

/-- An entry as the line reader delivers it. -/
def recordLine (e : AuditEntry) : Line :=
  if maxLineBytes < e.toJson.stringify.utf8ByteSize then .oversized else .value e.toJson.printed

def appendLine (name : String) (line : Line) : List DayFile → List DayFile
  | [] => [⟨name, true, [line]⟩]
  | file :: rest =>
      if file.name = name then { file with lines := file.lines ++ [line] } :: rest
      else file :: appendLine name line rest

/-- Opening a file to append to creates it. -/
def openFile (name : String) (dir : List DayFile) : List DayFile :=
  if dir.any (·.name = name) then dir else dir ++ [⟨name, true, []⟩]

/-- How far an append gets that is cut short: the file is open, the newline that ends an older
torn line is written, part of the text, or all of it but the newline. -/
inductive Torn
  | opened | separated | fragment (oversized : Bool) | unterminated

/-- `day` is the latest date of the clock, `returned` holds what the calls returned. -/
structure ChainState where
  dir : List DayFile
  unterminated : String → Bool
  day : List Char
  returned : List AuditEntry

inductive ChainAction
  | record (call : RecordCall)
  | interrupt (call : RecordCall) (torn : Torn)

def ChainAction.call : ChainAction → RecordCall
  | .record call => call
  | .interrupt call _ => call

/-- Whether the last line of a file is torn, after an append to it. -/
def setTorn (unterminated : String → Bool) (name : String) (torn : Bool) : String → Bool :=
  fun other => if other = name then torn else unterminated other

/-- The entry is appended, or the append is cut short. -/
def ChainState.append (s : ChainState) (call : RecordCall) (e : AuditEntry) :
    Option Torn → ChainState
  | none =>
      { s with
        dir := appendLine call.fileName (recordLine e) s.dir
        unterminated := setTorn s.unterminated call.fileName false
        returned := s.returned ++ [e] }
  | some .opened => { s with dir := openFile call.fileName s.dir }
  | some .separated =>
      { s with
        dir := openFile call.fileName s.dir
        unterminated := setTorn s.unterminated call.fileName false }
  | some (.fragment oversized) =>
      { s with
        dir := appendLine call.fileName (if oversized then .oversized else .malformed) s.dir
        unterminated := setTorn s.unterminated call.fileName true }
  | some .unterminated =>
      { s with
        dir := appendLine call.fileName (recordLine e) s.dir
        unterminated := setTorn s.unterminated call.fileName true }

def ChainAction.torn : ChainAction → Option Torn
  | .record _ => none
  | .interrupt _ torn => some torn

section System

variable (H : Digests) (key : String)

/-- Calls of any processes, one at a time, on a clock with years of four digits that never goes
back. A refused call appends nothing. -/
def auditChain : Transition.System ChainState ChainAction where
  init s := s.dir = [] ∧ (∀ name, s.unterminated name = false) ∧ s.returned = []
  step s a :=
    if a.call.typed ∧ isDate a.call.date ∧ s.day ≤ a.call.date then
      some <|
        let ticked := { s with day := a.call.date }
        match recordEntry H key s.unterminated s.dir a.call with
        | .error _ => ticked
        | .ok e => ticked.append a.call e a.torn
    else none

end System

end Kyberion.Audit
