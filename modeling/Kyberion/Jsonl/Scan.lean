import Kyberion.Js.Text
import Kyberion.Js.Throw

/-!
The two scans of a file of lines. Both read it in chunks; the forward scan keeps
the parts of the line that a chunk leaves unfinished, the backward scan the
parts of the line whose start it has not seen. A line that is too long is
reported instead of yielded. The stream of a scan lists both in their order.
-/

namespace Kyberion.Jsonl

abbrev Bytes := List UInt8

def NEWLINE : UInt8 := 10

/-- The `chunk` and the `maxLine` of a scan. -/
structure ResolvedScan where
  chunk : ℕ
  maxLine : ℕ
  chunk_pos : 0 < chunk
  maxLine_pos : 0 < maxLine

/-- The defaults of `resolveScan`. -/
def DEFAULT_JSONL_CHUNK_BYTES : ℕ := 256 * 1024

def DEFAULT_JSONL_MAX_LINE_BYTES : ℕ := 64 * 1024 * 1024

def resolveScan (chunkBytes maxLineBytes : Option ℤ) : Except String ResolvedScan :=
  let chunk := chunkBytes.getD DEFAULT_JSONL_CHUNK_BYTES
  let maxLine := maxLineBytes.getD DEFAULT_JSONL_MAX_LINE_BYTES
  if hchunk : chunk ≤ 0 then .error ("Invalid chunkBytes: " ++ toString chunk)
  else if hmaxLine : maxLine ≤ 0 then .error ("Invalid maxLineBytes: " ++ toString maxLine)
  else .ok ⟨chunk.toNat, maxLine.toNat, by omega, by omega⟩

structure JsonlRawLine where
  text : String
  /-- Forward: one-based line number. Backward: one-based position from the end. -/
  lineNumber : ℕ
  terminated : Bool
  byteStart : Option ℕ := none
  byteEnd : Option ℕ := none
  deriving DecidableEq

structure JsonlOversizedLine where
  lineNumber : ℕ
  /-- First bytes of the line (forward scans only), for diagnostics. -/
  linePrefix : String
  byteStart : Option ℕ := none
  byteEnd : Option ℕ := none
  terminated : Option Bool := none
  deriving DecidableEq

/-- What a scan yields, and what it hands to `onOversized`. -/
inductive ScanEvent
  | line (line : JsonlRawLine)
  | oversized (line : JsonlOversizedLine)
  deriving DecidableEq

-- `toString('utf8')`
variable (decode : Bytes → String)

def stripCarriageReturn (text : String) : String :=
  if text.toList.getLast? = some '\r' then String.ofList text.toList.dropLast else text

def decodeLine (parts : List Bytes) : String :=
  stripCarriageReturn (decode parts.flatten)

variable (scan : ResolvedScan)

section Forward

/-- The variables of `forwardLines`. -/
structure ForwardState where
  parts : List Bytes := []
  partsLen : ℕ := 0
  skipping : Bool := false
  skipPrefix : String := ""
  lineNumber : ℕ := 0
  lineStart : ℕ := 0

/-- The first bytes of a line: of its first part, or of the piece where it has none yet. -/
def ForwardState.headText (s : ForwardState) (piece : Bytes) : String :=
  decodeLine decode [(s.parts.head?.getD piece).take 256]

/-- The line that a piece completes. -/
def ForwardState.complete (s : ForwardState) (piece : Bytes) (stop : ℕ) : ScanEvent :=
  if s.skipping then
    .oversized ⟨s.lineNumber + 1, s.skipPrefix, s.lineStart, stop, true⟩
  else if scan.maxLine < s.partsLen + piece.length then
    .oversized ⟨s.lineNumber + 1, s.headText decode piece, s.lineStart, stop, true⟩
  else
    .line ⟨decodeLine decode (s.parts ++ [piece]), s.lineNumber + 1, true, s.lineStart, stop⟩

def ForwardState.next (s : ForwardState) (stop : ℕ) : ForwardState :=
  { skipPrefix := s.skipPrefix, lineNumber := s.lineNumber + 1, lineStart := stop }

/-- What a chunk leaves unfinished. -/
def ForwardState.keep (s : ForwardState) (rest : Bytes) : ForwardState :=
  if rest = [] || s.skipping then s
  else if scan.maxLine < s.partsLen + rest.length then
    { s with skipPrefix := s.headText decode rest, parts := [], partsLen := 0, skipping := true }
  else { s with parts := s.parts ++ [rest], partsLen := s.partsLen + rest.length }

/-- The lines that end in a chunk which begins at `position`. -/
def forwardBuffer (s : ForwardState) (position : ℕ) (buf : Bytes) :
    List ScanEvent × ForwardState :=
  match hnl : buf.idxOf? NEWLINE with
  | none => ([], s.keep decode scan buf)
  | some nl =>
      let stop := position + nl + 1
      let (events, last) := forwardBuffer (s.next stop) stop (buf.drop (nl + 1))
      (s.complete decode scan (buf.take nl) stop :: events, last)
termination_by buf.length
decreasing_by
  obtain ⟨hlt, -⟩ := List.idxOf?_eq_some_iff.mp hnl
  rw [List.length_drop]
  omega

/-- What is left at the end of the range. -/
def ForwardState.finish (s : ForwardState) (limit : ℕ) : List ScanEvent :=
  if s.skipping then
    [.oversized ⟨s.lineNumber + 1, s.skipPrefix, s.lineStart, limit, false⟩]
  else if 0 < s.partsLen then
    [.line ⟨decodeLine decode s.parts, s.lineNumber + 1, false, s.lineStart, limit⟩]
  else []

def forwardChunks (s : ForwardState) (position : ℕ) (rest : Bytes) : List ScanEvent :=
  if hrest : rest = [] then s.finish decode position
  else
    let buf := rest.take scan.chunk
    let (events, next) := forwardBuffer decode scan s position buf
    events ++ forwardChunks next (position + buf.length) (rest.drop scan.chunk)
termination_by rest.length
decreasing_by
  have hpos := List.length_pos_iff.mpr hrest
  have hchunk := scan.chunk_pos
  rw [List.length_drop]
  omega

/-- The stream of a forward scan up to `endOffset`. -/
def forwardLines (bytes : Bytes) (endOffset : Option ℕ) : List ScanEvent :=
  forwardChunks decode scan {} 0 (bytes.take (endOffset.getD bytes.length))

end Forward

section Backward

/-- The variables of `backwardLines`; `first` until a newline was seen. -/
structure BackwardState where
  carry : List Bytes := []
  carryLen : ℕ := 0
  skipping : Bool := false
  first : Bool := true
  lineNumber : ℕ := 0

/-- `buf.lastIndexOf(NEWLINE)` -/
def lastNewline (buf : Bytes) : Option ℕ :=
  (buf.reverse.idxOf? NEWLINE).map fun index => buf.length - 1 - index

theorem lastNewline_lt {buf : Bytes} {nl : ℕ} (h : lastNewline buf = some nl) :
    nl < buf.length := by
  obtain ⟨index, hindex, rfl⟩ := Option.map_eq_some_iff.mp h
  obtain ⟨hlt, -⟩ := List.idxOf?_eq_some_iff.mp hindex
  rw [List.length_reverse] at hlt
  omega

/-- `emit`: the empty segment after a final newline is no line. -/
def BackwardState.emit (s : BackwardState) (tail : List Bytes) : List ScanEvent × ℕ :=
  if s.first && tail.flatten.isEmpty then ([], s.lineNumber)
  else
    ([.line { text := decodeLine decode tail, lineNumber := s.lineNumber + 1,
              terminated := !s.first }], s.lineNumber + 1)

/-- The line that begins with a piece, after a newline. -/
def BackwardState.complete (s : BackwardState) (piece : Bytes) : List ScanEvent × BackwardState :=
  let (events, lineNumber) :=
    if s.skipping || scan.maxLine < s.carryLen + piece.length then
      ([.oversized { lineNumber := s.lineNumber + 1, linePrefix := "" }], s.lineNumber + 1)
    else s.emit decode (piece :: s.carry)
  (events, { first := false, lineNumber })

def BackwardState.keep (s : BackwardState) (rest : Bytes) : BackwardState :=
  if rest = [] || s.skipping then s
  else if scan.maxLine < s.carryLen + rest.length then
    { s with carry := [], carryLen := 0, skipping := true }
  else { s with carry := rest :: s.carry, carryLen := s.carryLen + rest.length }

/-- The lines that begin in a chunk, from its end. -/
def backwardBuffer (s : BackwardState) (buf : Bytes) : List ScanEvent × BackwardState :=
  match hnl : lastNewline buf with
  | none => ([], s.keep scan buf)
  | some nl =>
      let (events, next) := s.complete decode scan (buf.drop (nl + 1))
      let (earlier, last) := backwardBuffer next (buf.take nl)
      (events ++ earlier, last)
termination_by buf.length
decreasing_by
  have hpos := lastNewline_lt hnl
  rw [List.length_take]
  omega

/-- The line that begins the file. -/
def BackwardState.finish (s : BackwardState) : List ScanEvent :=
  if s.skipping then [.oversized { lineNumber := s.lineNumber + 1, linePrefix := "" }]
  else if 0 < s.carryLen || !s.first then (s.emit decode s.carry).1
  else []

/-- The chunks before a position, from the last to the first. -/
def backwardChunks (s : BackwardState) (front : Bytes) : List ScanEvent :=
  if hfront : front = [] then s.finish decode
  else
    let start := front.length - scan.chunk
    let (events, next) := backwardBuffer decode scan s (front.drop start)
    events ++ backwardChunks next (front.take start)
termination_by front.length
decreasing_by
  have hpos := List.length_pos_iff.mpr hfront
  have hchunk := scan.chunk_pos
  rw [List.length_take]
  omega

/-- The stream of a backward scan. -/
def backwardLines (bytes : Bytes) : List ScanEvent :=
  backwardChunks decode scan {} bytes

end Backward

end Kyberion.Jsonl
