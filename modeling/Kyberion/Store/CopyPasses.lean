import Kyberion.Js.JsonParse
import Kyberion.Jsonl.Scan
import Mathlib.Logic.Function.Basic

/-!
The rewrite of an append-only store, byte by byte, where no step fails. Pass 1
hands the lines of each copy to the filter as the copy is parked; pass 2 writes
the lines that survive and copies, as they are, the lines over the guard and
whatever of a copy pass 1 did not index. Result counters are left out.
-/

namespace Kyberion.Store

open Js (Json)
open Jsonl

/-- `toString('utf8')`, and what is written for a text. Every text is read back, and a line
break is the byte of a newline. -/
structure Utf8 where
  decode : Bytes → String
  encode : String → Bytes
  decode_encode : ∀ s, decode (encode s) = s
  decode_line : ∀ b, NEWLINE ∉ b → '\n' ∉ (decode b).toList
  encode_line : ∀ s, '\n' ∉ s.toList → NEWLINE ∉ encode s

/-- The state of a per-line filter is what its `observe` has recorded. -/
structure StoreLineFilter (σ : Type) where
  start : σ
  observe : σ → String → ℕ → ℕ → σ
  keep : σ → String → ℕ → ℕ → Bool

/-- A parked copy with its bytes when pass 1 indexed it. -/
structure ParkedCopy where
  bytes : Bytes
  indexedBytes : ℕ

variable {σ : Type} (utf8 : Utf8) (scan : ResolvedScan) (filter : StoreLineFilter σ)

section Passes

/-- The variables of `indexCopy`. -/
structure Indexing (σ : Type) where
  state : σ
  total : ℕ
  indexedBytes : ℕ := 0

/-- The loop of `indexCopy` over the lines of a copy. -/
def indexLines (fileIndex : ℕ) (s : Indexing σ) : List ScanEvent → Indexing σ
  | [] => s
  | .oversized line :: events =>
      -- one that runs to the end of the file is carried with the late bytes
      if line.terminated = some true then
        indexLines fileIndex { s with indexedBytes := line.byteEnd.getD 0 } events
      else indexLines fileIndex s events
  | .line line :: events =>
      if line.terminated then
        let s := { s with indexedBytes := line.byteEnd.getD 0 }
        if Js.trim line.text = "" then indexLines fileIndex s events
        else
          indexLines fileIndex
            { s with
              state := filter.observe s.state line.text s.total fileIndex
              total := s.total + 1 } events
      else s

/-- The variables of `rewriteParked`. -/
structure Rewriting (σ : Type) where
  parked : List ParkedCopy
  state : σ
  total : ℕ

def indexCopy (s : Rewriting σ) (bytes : Bytes) : Rewriting σ :=
  let indexed := indexLines filter s.parked.length { state := s.state, total := s.total }
    (forwardLines utf8.decode scan bytes none)
  { parked := s.parked ++ [⟨bytes, indexed.indexedBytes⟩]
    state := indexed.state
    total := indexed.total }

/-- The bytes from `start` up to `stop`, newline-terminated when anything was copied. -/
def copyBytes (bytes : Bytes) (start : ℕ) (stop : Option ℕ) : Bytes :=
  let copied := (bytes.take (stop.getD bytes.length)).drop start
  if copied ≠ [] && copied.getLast? ≠ some NEWLINE then copied ++ [NEWLINE] else copied

/-- The output of pass 2 and its `index`. -/
structure Writing where
  out : Bytes := []
  index : ℕ := 0

def writeLine (state : σ) (fileIndex : ℕ) (bytes : Bytes) (w : Writing) : ScanEvent → Writing
  | .oversized line =>
      { w with out := w.out ++ copyBytes bytes (line.byteStart.getD 0) line.byteEnd }
  | .line line =>
      if Js.trim line.text = "" then w
      else
        { out := if filter.keep state line.text w.index fileIndex then
            w.out ++ utf8.encode line.text ++ [NEWLINE] else w.out
          index := w.index + 1 }

/-- Pass 2 over one copy; `late` was added after pass 1 indexed it. -/
def writeCopy (state : σ) (fileIndex : ℕ) (copy : ParkedCopy) (late : Bytes) (w : Writing) :
    Writing :=
  let bytes := copy.bytes ++ late
  let written := (forwardLines utf8.decode scan bytes (some copy.indexedBytes)).foldl
    (writeLine utf8 filter state fileIndex bytes) w
  { written with out := written.out ++ copyBytes bytes copy.indexedBytes none }

def writeCopies (state : σ) (late : ℕ → Bytes) (fileIndex : ℕ) (w : Writing) :
    List ParkedCopy → Writing
  | [] => w
  | copy :: rest =>
      writeCopies state late (fileIndex + 1)
        (writeCopy utf8 scan filter state fileIndex copy (late fileIndex) w) rest

def writeSurvivors (late : ℕ → Bytes) (s : Rewriting σ) : Bytes :=
  (writeCopies utf8 scan filter s.state late 0 {} s.parked).out

def writeUnion (late : ℕ → Bytes) (fileIndex : ℕ) : List ParkedCopy → Bytes
  | [] => []
  | copy :: rest =>
      copyBytes (copy.bytes ++ late fileIndex) 0 none ++ writeUnion late (fileIndex + 1) rest

end Passes

section Rounds

def COMPACT_MAX_PARK_ATTEMPTS : ℕ := 5

/-- How one round of the merge loop goes. The live file is there where a writer recreated it
before the round looked for it or before the round published its result. -/
inductive Round
  | publish
  | merge (live : Bytes)
  /-- Another maintainer took the live file before it could be parked. -/
  | missed

/-- What appenders and other maintainers do to the store during a run. -/
structure Surroundings where
  live : Option Bytes
  rounds : ℕ → Round
  /-- The live file that is there when the raw union is to be restored. -/
  reappeared : Option Bytes
  /-- What appends in flight add to a copy between its indexing and its last read. -/
  late : ℕ → Bytes
  /-- What is appended to the live file behind the result. -/
  appended : Bytes

variable (around : Surroundings)

/-- The merge loop, with so many attempts left to park the live file again. -/
def mergeRounds (s : Rewriting σ) : ℕ → Rewriting σ × Bool
  | 0 =>
      match around.rounds COMPACT_MAX_PARK_ATTEMPTS with
      | .publish => (s, true)
      | .merge _ | .missed => (s, false)
  | left + 1 =>
      match around.rounds (COMPACT_MAX_PARK_ATTEMPTS - (left + 1)) with
      | .publish => (s, true)
      | .merge live => mergeRounds (indexCopy utf8 scan filter s live) left
      | .missed => mergeRounds s left

/-- The copies in the order in which they were parked, and the live file. -/
structure StoreRewriteResult where
  parked : List ParkedCopy
  published : Bool
  live : Bytes

/-- What follows on the merge loop. -/
def settleRun (s : Rewriting σ) (published : Bool) : StoreRewriteResult :=
  if published then
    { parked := s.parked
      published
      live := writeSurvivors utf8 scan filter around.late s ++ around.appended }
  else
    -- the raw union, with a live file that has reappeared
    let s := match around.reappeared with
      | some live => indexCopy utf8 scan filter s live
      | none => s
    { parked := s.parked
      published
      live := writeUnion around.late 0 s.parked ++ around.appended }

def rewriteParked : Option StoreRewriteResult :=
  around.live.map fun live =>
    let initial := indexCopy utf8 scan filter ⟨[], filter.start, 0⟩ live
    let (s, published) := mergeRounds utf8 scan filter around initial COMPACT_MAX_PARK_ATTEMPTS
    settleRun utf8 scan filter around s published

end Rounds

section Compact

/-- A record field, or a function for composite keys, which may throw. -/
inductive StoreKey
  | field (name : String)
  | derived (key : List (String × Json) → Except String (Option String))

variable (readNumber : List Char → Js.Number) (printNumber : Js.Number → String) (key : StoreKey)

def recordKey (text : String) : Option String :=
  match Js.parseSafeJsonInput readNumber text.toList with
  | some (.obj record) =>
      match key with
      | .derived key =>
          match key record with
          | .ok (some derived) => if derived = "" then none else some derived
          | _ => none
      | .field name =>
          match record.lookup name with
          | some (.str s) => some s
          | some (.num n) => some (printNumber n)
          | _ => none
  | _ => none

/-- The filter of a compaction by key: `lastIndex` maps each key to its last line. -/
def lastIndexFilter (recordKey : String → Option String) :
    StoreLineFilter (String → Option ℕ) where
  start _ := none
  observe lastIndex text index _ :=
    match recordKey text with
    | some k => Function.update lastIndex k (some index)
    | none => lastIndex
  keep lastIndex text index _ :=
    match recordKey text with
    | none => true
    | some k => lastIndex k = some index

def compactStoreByKey (around : Surroundings) : Option StoreRewriteResult :=
  rewriteParked utf8 scan (lastIndexFilter (recordKey readNumber printNumber key)) around

end Compact

end Kyberion.Store
