import Kyberion.Audit.Entry
import Mathlib.Data.Char
import Mathlib.Data.List.Lex
import Mathlib.Data.List.Sort

/-!
Verification of the persisted audit chain. A day file is a list of lines as the
line reader delivers them; the two digests and the chain key are parameters.
Findings carry the texts of the source.
-/

namespace Kyberion.Audit

open Js

/-- The hex digests of the runtime's hash functions. -/
structure Digests where
  sha256 : String → String
  /-- Key first. -/
  hmacSha256 : String → String → String

def genesisHash : String :=
  String.ofList (List.replicate 64 '0')

section Integrity

variable (H : Digests)

def digest (payload : String) (alg : ChainAlg) (key : Option String) : Except String String :=
  match alg, key with
  | .sha256, _ => .ok (H.sha256 payload)
  | .hmacSha256, some key => .ok (H.hmacSha256 key payload)
  | .hmacSha256, none => .error "missing_audit_chain_key"

/-- The comparison throws on texts of one length whose bytes differ in number. -/
def sameHash (left right : String) : Except String Bool :=
  if utf16Length left ≠ utf16Length right then .ok false
  else if left.utf8ByteSize ≠ right.utf8ByteSize then
    .error "Input buffers must have the same byte length"
  else .ok (left = right)

/-- The reason of a failed check. -/
def verifyAuditEntryHash (e : AuditEntry) (expectedPreviousHash : String) (alg : ChainAlg)
    (key : Option String) : Except String Unit :=
  throwIf (e.previousHash ≠ expectedPreviousHash) "previous_hash_mismatch" do
    let expectedHash ← digest H (e.payload expectedPreviousHash) alg key
    let same ← sameHash e.currentHash expectedHash
    throwIf (!same) "current_hash_mismatch" (.ok ())

end Integrity

structure AlgTracker where
  requireKeyed : Bool
  keyedSeen : Bool
  unkeyed : ℕ

namespace AlgTracker

def seed (t : AlgTracker) (alg : Option ChainAlg) : AlgTracker :=
  if alg.getD .sha256 = .hmacSha256 then { t with keyedSeen := true } else t

/-- The finding for one entry's algorithm, and the tracker after it. -/
def observe (t : AlgTracker) (alg : ChainAlg) : Option String × AlgTracker :=
  match alg with
  | .hmacSha256 => (none, { t with keyedSeen := true })
  | .sha256 =>
      let finding :=
        if t.keyedSeen then some "chain_downgrade"
        else if t.requireKeyed then some "unkeyed_entry"
        else none
      (finding, { t with unkeyed := t.unkeyed + 1 })

end AlgTracker

/-- One line of a day file: too long, white space, no JSON text, or its value. -/
inductive Line
  | oversized
  | blank
  | malformed
  | value (v : Json)

structure DayFile where
  name : String
  /-- The line reader gets through the file. -/
  readable : Bool
  lines : List Line

structure Read where
  entries : List AuditEntry
  invalidLines : List ℕ
  unreadable : Bool

def parseEntry (v : Json) : Except String AuditEntry :=
  if v.isSafeJsonValue then normalizePersistedAuditEntry v
  else .error "audit chain entry contains a dangerous JSON key"

/-- Entries and numbers of invalid lines, from a first line number on. -/
def readLines : ℕ → List Line → List AuditEntry × List ℕ
  | _, [] => ([], [])
  | n, line :: rest =>
      let (entries, invalid) := readLines (n + 1) rest
      match line with
      | .oversized => (entries, n :: invalid)
      | .blank => (entries, invalid)
      | .malformed => (entries, n :: invalid)
      | .value v =>
          match parseEntry v with
          | .ok e => (e :: entries, invalid)
          | .error _ => (entries, n :: invalid)

def readAuditFileForVerify (file : DayFile) : Read :=
  if file.readable then
    let (entries, invalid) := readLines 1 file.lines
    ⟨entries, invalid, false⟩
  else ⟨[], [], true⟩

def readFindings (name : String) (read : Read) : List String :=
  (if read.unreadable then [name ++ ":unreadable"] else []) ++
    read.invalidLines.map fun line => name ++ ":line:" ++ toString line ++ ":invalid_record"

/-- `/^\d{4}-\d{2}-\d{2}$/` -/
def isDate (cs : List Char) : Bool :=
  match cs with
  | [a, b, c, d, '-', e, f, '-', g, h] => [a, b, c, d, e, f, g, h].all isDigit
  | _ => false

/-- `/^audit-(\d{4}-\d{2}-\d{2})\.jsonl$/` -/
def extractAuditDate (name : String) : Option String :=
  match "audit-".toList.isPrefixOf? name.toList with
  | none => none
  | some rest =>
      if isDate (rest.take 10) && rest.drop 10 = ".jsonl".toList then
        some (String.ofList (rest.take 10))
      else none

def digits (cs : List Char) : ℕ :=
  cs.foldl (fun n c => 10 * n + (c.toNat - '0'.toNat)) 0

def isLeapYear (y : ℕ) : Bool :=
  y % 4 = 0 && (y % 100 ≠ 0 || y % 400 = 0)

def daysInMonth (y m : ℕ) : ℕ :=
  if m = 2 then (if isLeapYear y then 29 else 28)
  else if m = 4 || m = 6 || m = 9 || m = 11 then 30
  else 31

/-- The day after `y-m-d`; a day past its month's end rolls over first. -/
def nextUtcDay (y m d : ℕ) : ℕ × ℕ × ℕ :=
  if d + 1 ≤ daysInMonth y m then (y, m, d + 1)
  else if m = 12 then (y + 1, 1, d + 1 - daysInMonth y m)
  else (y, m + 1, d + 1 - daysInMonth y m)

def padded (width n : ℕ) : List Char :=
  let cs := n.repr.toList
  List.replicate (width - cs.length) '0' ++ cs

/-- The first ten characters of `toISOString`. -/
def isoDay (y m d : ℕ) : List Char :=
  let year := if y < 10000 then padded 4 y else '+' :: padded 6 y
  (year ++ '-' :: padded 2 m ++ '-' :: padded 2 d).take 10

def isNextUtcDay (previous current : String) : Bool :=
  let cs := previous.toList
  let y := digits (cs.take 4)
  let m := digits ((cs.drop 5).take 2)
  let d := digits ((cs.drop 8).take 2)
  if m = 0 || 12 < m || d = 0 || 31 < d then true
  else
    let (y', m', d') := nextUtcDay y m d
    isoDay y' m' d' = current.toList

def listAuditFiles (dir : List DayFile) : List DayFile :=
  (dir.filter fun file => (extractAuditDate file.name).isSome).insertionSort
    fun a b => a.name.toList ≤ b.name.toList

def loadAll (dir : List DayFile) : List AuditEntry :=
  (listAuditFiles dir).flatMap fun file => (readAuditFileForVerify file).entries

structure VerifyOptions where
  since : Option String := none
  requireKeyed : Bool := false

structure VerifyResult where
  valid : ℕ
  corrupted : List String
  total : ℕ
  checkedFiles : List String
  boundaryLimited : Bool
  unkeyed : ℕ

/-- The running state of a verification. -/
structure Scan where
  prevHash : String
  previousFileDate : Option String
  total : ℕ
  invalidEntryCount : ℕ
  corrupted : List String
  tracker : AlgTracker

/-- The finding on the date of the next file. -/
def dateGap (previous current : Option String) : List String :=
  match previous, current with
  | some previous, some current =>
      if isNextUtcDay previous current then []
      else ["audit-gap:" ++ previous ++ "->" ++ current]
  | _, _ => []

/-- The scan at the first entry of a file, with what the file itself gives to report. -/
def Scan.openFile (s : Scan) (file : DayFile) : Scan :=
  let fileDate := extractAuditDate file.name
  let read := readAuditFileForVerify file
  { s with
    previousFileDate := fileDate.or s.previousFileDate
    corrupted := s.corrupted ++ dateGap s.previousFileDate fileDate ++ readFindings file.name read
    total := s.total + (read.entries.length + read.invalidLines.length)
    invalidEntryCount := s.invalidEntryCount + read.invalidLines.length }

section Verify

variable (H : Digests) (key : Option String) (boundaryLimited : Bool)

/-- The finding on one entry, if any. -/
def entryFinding (id : String) (algFinding : Option String) (check : Except String Unit) :
    Option String :=
  match algFinding, check with
  | some finding, .ok _ => some (id ++ ":" ++ finding)
  | some finding, .error reason => some (id ++ ":" ++ finding ++ "+" ++ reason)
  | none, .ok _ => none
  | none, .error _ => some id

def checkEntry (s : Scan) (e : AuditEntry) : Scan :=
  let prevHash :=
    if boundaryLimited && s.prevHash = genesisHash && e.previousHash ≠ genesisHash then
      e.previousHash
    else s.prevHash
  let chainAlg := e.chainAlg.getD .sha256
  let (algFinding, tracker) := s.tracker.observe chainAlg
  let check := verifyAuditEntryHash H e prevHash chainAlg key
  let finding := entryFinding e.id algFinding check
  { s with
    prevHash := e.currentHash
    tracker := tracker
    corrupted := s.corrupted ++ finding.toList
    invalidEntryCount := s.invalidEntryCount + if finding.isSome then 1 else 0 }

def checkFile (s : Scan) (file : DayFile) : Scan :=
  (readAuditFileForVerify file).entries.foldl (checkEntry H key boundaryLimited) (s.openFile file)

end Verify

/-- The walk back over the files before a window, newest first. -/
def seekBoundary : Option AuditEntry → Scan → List DayFile → Option AuditEntry × Scan
  | boundary, s, [] => (boundary, s)
  | boundary, s, file :: older =>
      let read := readAuditFileForVerify file
      let (boundary, s) :=
        match boundary with
        | some e => (some e, s)
        | none =>
            let found := read.entries.getLast?
            (found, { s with
              corrupted := s.corrupted ++ readFindings file.name read
              previousFileDate :=
                if found.isSome then extractAuditDate file.name else s.previousFileDate })
      let keyed := read.entries.find? fun e => e.chainAlg = some .hmacSha256
      let s := match keyed with
        | some e => { s with tracker := s.tracker.seed e.chainAlg }
        | none => s
      if boundary.isSome && keyed.isSome then (boundary, s) else seekBoundary boundary s older

def inWindow (since : Option String) (file : DayFile) : Bool :=
  match since, extractAuditDate file.name with
  | some since, some date => decide (since.toList ≤ date.toList)
  | _, _ => true

def verify (H : Digests) (key : Option String) (options : VerifyOptions) (dir : List DayFile) :
    VerifyResult :=
  let allFiles := listAuditFiles dir
  let files := allFiles.filter (inWindow options.since)
  let fresh : Scan := ⟨genesisHash, none, 0, 0, [], ⟨options.requireKeyed, false, 0⟩⟩
  let (start, boundaryLimited) :=
    match options.since with
    | none => (fresh, false)
    | some since =>
        let before := allFiles.filter fun file => !inWindow (some since) file
        match seekBoundary none fresh before.reverse with
        | (some boundary, s) => ({ s with prevHash := boundary.currentHash }, false)
        | (none, s) => (s, !before.isEmpty)
  let s := files.foldl (checkFile H key boundaryLimited) start
  { valid := s.total - s.invalidEntryCount
    corrupted := s.corrupted
    total := s.total
    checkedFiles := files.map (·.name)
    boundaryLimited := boundaryLimited
    unkeyed := s.tracker.unkeyed }

end Kyberion.Audit
