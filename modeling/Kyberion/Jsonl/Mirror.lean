import Kyberion.Jsonl.Scan
import Kyberion.Segments

/-!
Both scans yield the segments of the file between its newlines, whatever the
size of their chunks: the forward scan in their order, the backward scan in the
reverse. Only the diagnostic prefix of an oversized line depends on the chunks.
-/

namespace Kyberion.Jsonl

/-- The event without the diagnostic prefix. -/
def ScanEvent.bare : ScanEvent → ScanEvent
  | .line l => .line l
  | .oversized l => .oversized { l with linePrefix := "" }

/-- What both directions tell of a line. -/
inductive LineContent
  | text (text : String) (terminated : Bool)
  | oversized
  deriving DecidableEq

def ScanEvent.content : ScanEvent → LineContent
  | .line l => .text l.text l.terminated
  | .oversized _ => .oversized

def ScanEvent.lineNumber : ScanEvent → ℕ
  | .line l => l.lineNumber
  | .oversized l => l.lineNumber

def ScanEvent.byteStart : ScanEvent → Option ℕ
  | .line l => l.byteStart
  | .oversized l => l.byteStart

def ScanEvent.byteEnd : ScanEvent → Option ℕ
  | .line l => l.byteEnd
  | .oversized l => l.byteEnd

/-- The byte ranges of the events follow on one another from `start` to `stop`. -/
def Partitions : ℕ → ℕ → List ScanEvent → Prop
  | start, stop, [] => start = stop
  | start, stop, event :: events => event.byteStart = some start ∧
      ∃ next, event.byteEnd = some next ∧ start < next ∧ Partitions next stop events

variable (decode : Bytes → String) (maxLine : ℕ)

/-- The content of a segment. -/
def contentOf (segment : Bytes × Bool) : LineContent :=
  if maxLine < segment.1.length then .oversized
  else .text (decodeLine decode [segment.1]) segment.2

/-- The event of a segment that begins at `start`, in a forward scan. -/
def eventOf (lineNumber start : ℕ) (segment : Bytes × Bool) : ScanEvent :=
  let stop := start + segment.1.length + segment.2.toNat
  if maxLine < segment.1.length then .oversized ⟨lineNumber, "", start, stop, segment.2⟩
  else .line ⟨decodeLine decode [segment.1], lineNumber, segment.2, start, stop⟩

def eventsFrom (lineNumber start : ℕ) : List (Bytes × Bool) → List ScanEvent
  | [] => []
  | segment :: rest =>
      eventOf decode maxLine (lineNumber + 1) start segment ::
        eventsFrom (lineNumber + 1) (start + segment.1.length + segment.2.toNat) rest

/-- The event of a segment in a backward scan. -/
def backEventOf (lineNumber : ℕ) (segment : Bytes × Bool) : ScanEvent :=
  if maxLine < segment.1.length then .oversized { lineNumber, linePrefix := "" }
  else .line { text := decodeLine decode [segment.1], lineNumber, terminated := segment.2 }

def backEventsFrom (lineNumber : ℕ) : List (Bytes × Bool) → List ScanEvent
  | [] => []
  | segment :: rest =>
      backEventOf decode maxLine (lineNumber + 1) segment :: backEventsFrom (lineNumber + 1) rest

section Events

variable {decode maxLine} {n start : ℕ} {segs segs' : List (Bytes × Bool)}

theorem decodeLine_flatten (parts : List Bytes) :
    decodeLine decode parts = decodeLine decode [parts.flatten] := by
  simp [decodeLine]

theorem content_eventOf (segment : Bytes × Bool) :
    (eventOf decode maxLine n start segment).content = contentOf decode maxLine segment := by
  unfold eventOf contentOf
  dsimp only
  split <;> rfl

theorem content_backEventOf (segment : Bytes × Bool) :
    (backEventOf decode maxLine n segment).content = contentOf decode maxLine segment := by
  unfold backEventOf contentOf
  split <;> rfl

variable (decode maxLine n start segs) in
theorem content_eventsFrom :
    (eventsFrom decode maxLine n start segs).map ScanEvent.content =
      segs.map (contentOf decode maxLine) := by
  induction segs generalizing n start with
  | nil => rfl
  | cons segment rest ih =>
      rw [eventsFrom, List.map_cons, ih, content_eventOf, List.map_cons]

theorem content_backEventsFrom :
    (backEventsFrom decode maxLine n segs).map ScanEvent.content =
      segs.map (contentOf decode maxLine) := by
  induction segs generalizing n with
  | nil => rfl
  | cons segment rest ih =>
      rw [backEventsFrom, List.map_cons, ih, content_backEventOf, List.map_cons]

variable (decode maxLine n start segs) in
theorem lineNumber_eventsFrom :
    (eventsFrom decode maxLine n start segs).map ScanEvent.lineNumber =
      List.range' (n + 1) segs.length := by
  induction segs generalizing n start with
  | nil => rfl
  | cons segment rest ih =>
      rw [eventsFrom, List.map_cons, ih, List.length_cons, List.range'_succ]
      unfold eventOf
      dsimp only
      split <;> rfl

theorem lineNumber_backEventsFrom :
    (backEventsFrom decode maxLine n segs).map ScanEvent.lineNumber =
      List.range' (n + 1) segs.length := by
  induction segs generalizing n with
  | nil => rfl
  | cons segment rest ih =>
      rw [backEventsFrom, List.map_cons, ih, List.length_cons, List.range'_succ]
      unfold backEventOf
      split <;> rfl

theorem backEventsFrom_append :
    backEventsFrom decode maxLine n (segs ++ segs') =
      backEventsFrom decode maxLine n segs ++
        backEventsFrom decode maxLine (n + segs.length) segs' := by
  induction segs generalizing n with
  | nil => rfl
  | cons segment rest ih =>
      rw [List.cons_append, backEventsFrom, ih, backEventsFrom, List.cons_append, List.length_cons,
        Nat.add_right_comm, Nat.add_assoc]

end Events

variable {decode : Bytes → String} {scan : ResolvedScan}

section Forward

/-- What a state of the forward scan knows of the line begun at `lineStart`. -/
structure ForwardState.Holds (scan : ResolvedScan) (s : ForwardState) (carry : Bytes)
    (position : ℕ) : Prop where
  start : s.lineStart + carry.length = position
  skipped : s.skipping = true → scan.maxLine < carry.length
  kept : s.skipping = false → s.parts.flatten = carry ∧ s.partsLen = carry.length ∧
    carry.length ≤ scan.maxLine

variable {s : ForwardState} {carry buf piece : Bytes} {position : ℕ}

theorem ForwardState.Holds.next {stop : ℕ} : ((s.next stop).Holds scan [] stop) where
  start := rfl
  skipped h := by cases h
  kept _ := ⟨rfl, rfl, Nat.zero_le _⟩

variable (decode buf) in
theorem ForwardState.Holds.keep (h : s.Holds scan carry position) :
    (s.keep decode scan buf).Holds scan (carry ++ buf) (position + buf.length) ∧
      (s.keep decode scan buf).lineNumber = s.lineNumber ∧
      (s.keep decode scan buf).lineStart = s.lineStart := by
  have hstart := h.start
  unfold ForwardState.keep
  by_cases hbuf : buf = []
  · simpa [hbuf] using h
  cases hskip : s.skipping with
  | true =>
      have hlong := h.skipped hskip
      simp only [Bool.or_true, if_true, and_self, and_true]
      refine ⟨?_, fun _ => ?_, fun hs => absurd (hskip.symm.trans hs) (by decide)⟩
      · rw [List.length_append]
        omega
      · rw [List.length_append]
        omega
  | false =>
      obtain ⟨hparts, hlen, hshort⟩ := h.kept hskip
      simp only [hbuf, decide_false, Bool.or_self, Bool.false_eq_true, if_false]
      split
      · refine ⟨⟨?_, fun _ => ?_, fun hs => by cases hs⟩, rfl, rfl⟩
        · simp only [List.length_append]
          omega
        · rw [List.length_append]
          omega
      · refine ⟨⟨?_, fun hs => ?_, fun _ => ⟨?_, ?_, ?_⟩⟩, rfl, rfl⟩
        · simp only [List.length_append]
          omega
        · cases hs
        · simp only [List.flatten_append, hparts, List.flatten_singleton]
        · simp only [List.length_append]
          omega
        · simp only [List.length_append]
          omega

variable (decode piece) in
theorem ForwardState.Holds.complete (h : s.Holds scan carry position) :
    (s.complete decode scan piece (position + piece.length + 1)).bare =
      eventOf decode scan.maxLine (s.lineNumber + 1) s.lineStart (carry ++ piece, true) := by
  have hstop : position + piece.length + 1 = s.lineStart + (carry ++ piece).length + 1 := by
    rw [List.length_append, ← h.start]
    omega
  unfold ForwardState.complete eventOf
  rw [hstop]
  cases hskip : s.skipping with
  | true =>
      have hlong := h.skipped hskip
      have htotal : scan.maxLine < (carry ++ piece).length := by
        rw [List.length_append]
        omega
      simp only [if_true, htotal, Bool.toNat_true]
      rfl
  | false =>
      obtain ⟨hparts, hlen, -⟩ := h.kept hskip
      simp only [Bool.false_eq_true, if_false, hlen, ← List.length_append, Bool.toNat_true]
      split
      · rfl
      · rw [decodeLine_flatten, List.flatten_append, hparts, List.flatten_singleton]
        rfl

variable (decode) in
theorem ForwardState.Holds.finish (h : s.Holds scan carry position) :
    (s.finish decode position).map ScanEvent.bare =
      eventsFrom decode scan.maxLine s.lineNumber s.lineStart (segmentsFrom NEWLINE carry []) := by
  have hstart := h.start
  unfold ForwardState.finish segmentsFrom
  cases hskip : s.skipping with
  | true =>
      have hlong := h.skipped hskip
      have hne : carry ≠ [] := by
        rintro rfl
        cases hlong
      simp only [if_true, if_neg hne, eventsFrom, eventOf, hlong, Bool.toNat_false, Nat.add_zero,
        hstart]
      rfl
  | false =>
      obtain ⟨hparts, hlen, hshort⟩ := h.kept hskip
      simp only [Bool.false_eq_true, if_false, hlen]
      by_cases hne : carry = []
      · simp [hne, eventsFrom]
      · simp only [List.length_pos_iff.mpr hne, if_true, if_neg hne, eventsFrom, eventOf,
          if_neg (Nat.not_lt.mpr hshort), Bool.toNat_false, Nat.add_zero, hstart, List.map_cons,
          List.map_nil, ScanEvent.bare]
        rw [decodeLine_flatten, hparts]

variable (decode buf) in
/-- A chunk yields the segments that end in it. -/
theorem forwardBuffer_spec (h : s.Holds scan carry position) :
    ∃ carry', ((forwardBuffer decode scan s position buf).2.Holds scan carry'
        (position + buf.length)) ∧ ∀ rest,
      eventsFrom decode scan.maxLine s.lineNumber s.lineStart
          (segmentsFrom NEWLINE carry (buf ++ rest)) =
        (forwardBuffer decode scan s position buf).1.map ScanEvent.bare ++
          eventsFrom decode scan.maxLine (forwardBuffer decode scan s position buf).2.lineNumber
            (forwardBuffer decode scan s position buf).2.lineStart
            (segmentsFrom NEWLINE carry' rest) := by
  fun_induction forwardBuffer decode scan s position buf generalizing carry with
  | case1 s position buf hnl =>
      obtain ⟨hholds, hnumber, hstart⟩ := h.keep decode buf
      refine ⟨carry ++ buf, hholds, fun rest => ?_⟩
      rw [segmentsFrom_append (List.idxOf?_eq_none_iff.mp hnl), hnumber, hstart]
      rfl
  | case2 s position buf nl hnl stop events last hrec =>
      rename_i ih
      obtain ⟨hsplit, hfree⟩ := split_of_idxOf? hnl
      obtain ⟨carry', hholds, hevents⟩ := ih .next
      rw [hrec] at hholds hevents
      obtain ⟨hlt, -⟩ := List.idxOf?_eq_some_iff.mp hnl
      have hlen : (buf.take nl).length = nl := by
        rw [List.length_take]
        omega
      have hstop : stop = position + (buf.take nl).length + 1 := by rw [hlen]
      refine ⟨carry', ?_, fun rest => ?_⟩
      · rw [List.length_drop] at hholds
        rwa [show position + buf.length = stop + (buf.length - (nl + 1)) by omega]
      · have hhead := h.complete decode (buf.take nl)
        rw [← hstop] at hhead
        have hnext : stop = s.lineStart + (carry ++ buf.take nl).length + 1 := by
          rw [List.length_append, hlen, ← Nat.add_assoc, h.start]
        rw [List.map_cons, hhead, List.cons_append, ← hevents rest]
        conv_lhs => rw [hsplit]
        rw [List.append_assoc, List.cons_append, segmentsFrom_append hfree, segmentsFrom_sep,
          eventsFrom, Bool.toNat_true, ← hnext]
        rfl

/-- A forward scan yields the segments of the file. -/
theorem forwardChunks_spec {rest : Bytes} (h : s.Holds scan carry position) :
    (forwardChunks decode scan s position rest).map ScanEvent.bare =
      eventsFrom decode scan.maxLine s.lineNumber s.lineStart
        (segmentsFrom NEWLINE carry rest) := by
  fun_induction forwardChunks decode scan s position rest generalizing carry with
  | case1 s position => exact h.finish decode
  | case2 s position rest hrest buf events next hrec =>
      rename_i ih
      obtain ⟨carry', hholds, hevents⟩ := forwardBuffer_spec decode buf h
      rw [hrec] at hholds hevents
      rw [List.map_append, ih hholds, ← hevents, List.take_append_drop]

end Forward

section Backward

/-- What a state of the backward scan knows of the end of the line it is in. -/
structure BackwardState.Holds (scan : ResolvedScan) (s : BackwardState) (tail : Bytes) :
    Prop where
  free : NEWLINE ∉ tail
  skipped : s.skipping = true → scan.maxLine < tail.length
  kept : s.skipping = false → s.carry.flatten = tail ∧ s.carryLen = tail.length ∧
    tail.length ≤ scan.maxLine

/-- The segments in front of a position: before the first newline was seen, the last is open. -/
def leftSegments (first : Bool) (bytes : Bytes) : List (Bytes × Bool) :=
  if first then segments NEWLINE bytes else closedSegments NEWLINE bytes

theorem leftSegments_closed {first : Bool} {front bytes : Bytes} :
    leftSegments first (front ++ NEWLINE :: bytes) =
      leftSegments false front ++ leftSegments first bytes := by
  unfold leftSegments
  cases first with
  | true => exact segments_closed
  | false => exact closedSegments_closed

theorem lastNewline_none {buf : Bytes} (h : lastNewline buf = none) : NEWLINE ∉ buf := by
  have hnone := Option.map_eq_none_iff.mp h
  rw [List.idxOf?_eq_none_iff, List.mem_reverse] at hnone
  exact hnone

theorem lastNewline_some {buf : Bytes} {nl : ℕ} (h : lastNewline buf = some nl) :
    buf = buf.take nl ++ NEWLINE :: buf.drop (nl + 1) ∧ NEWLINE ∉ buf.drop (nl + 1) := by
  obtain ⟨index, hindex, rfl⟩ := Option.map_eq_some_iff.mp h
  exact split_of_idxOf?_reverse hindex

variable {s : BackwardState} {tail : Bytes}

variable (decode) in
/-- The one segment, or none, of bytes without a newline. -/
theorem BackwardState.emit_spec {parts : List Bytes} (hfree : NEWLINE ∉ parts.flatten)
    (hshort : parts.flatten.length ≤ scan.maxLine) :
    s.emit decode parts =
      (backEventsFrom decode scan.maxLine s.lineNumber (leftSegments s.first parts.flatten).reverse,
        s.lineNumber + (leftSegments s.first parts.flatten).length) := by
  have hevent (terminated : Bool) :
      backEventOf decode scan.maxLine (s.lineNumber + 1) (parts.flatten, terminated) =
        .line { text := decodeLine decode parts, lineNumber := s.lineNumber + 1, terminated } := by
    rw [backEventOf, if_neg (Nat.not_lt.mpr hshort), ← decodeLine_flatten]
  unfold BackwardState.emit leftSegments
  cases hfirst : s.first with
  | true =>
      rw [if_pos rfl, segments_of_not_mem hfree]
      by_cases hempty : parts.flatten = []
      · simp [hempty, backEventsFrom]
      · simp [hempty, backEventsFrom, hevent]
  | false =>
      simp [closedSegments_of_not_mem hfree, backEventsFrom, hevent]

variable (decode) in
/-- The line that begins with a piece is the segment of the piece and what follows it. -/
theorem BackwardState.Holds.complete {piece : Bytes} (h : s.Holds scan tail)
    (hfree : NEWLINE ∉ piece) :
    s.complete decode scan piece =
      (backEventsFrom decode scan.maxLine s.lineNumber
          (leftSegments s.first (piece ++ tail)).reverse,
        { first := false
          lineNumber := s.lineNumber + (leftSegments s.first (piece ++ tail)).length }) := by
  have hjoined : NEWLINE ∉ piece ++ tail := by
    rw [List.mem_append, not_or]
    exact ⟨hfree, h.free⟩
  by_cases hlong : scan.maxLine < (piece ++ tail).length
  · have hne : piece ++ tail ≠ [] := by
      intro hempty
      rw [hempty] at hlong
      cases hlong
    have hover : (s.skipping || decide (scan.maxLine < s.carryLen + piece.length)) = true := by
      cases hskip : s.skipping with
      | true => rfl
      | false =>
          obtain ⟨-, hlen, -⟩ := h.kept hskip
          rw [List.length_append] at hlong
          simp only [Bool.false_or, decide_eq_true_eq]
          omega
    have hone : ∃ terminated, leftSegments s.first (piece ++ tail) =
        [(piece ++ tail, terminated)] := by
      unfold leftSegments
      cases s.first with
      | true =>
          rw [if_pos rfl, segments_of_not_mem hjoined, if_neg hne]
          exact ⟨false, rfl⟩
      | false =>
          rw [if_neg (by decide), closedSegments_of_not_mem hjoined]
          exact ⟨true, rfl⟩
    obtain ⟨terminated, hone⟩ := hone
    simp only [BackwardState.complete, hover, if_true, hone, List.reverse_singleton,
      backEventsFrom, backEventOf, hlong, List.length_singleton]
  · have hskip : s.skipping = false := by
      by_contra hskip
      have htail := h.skipped (Bool.not_eq_false _ ▸ hskip)
      rw [List.length_append] at hlong
      omega
    obtain ⟨hcarry, hlen, -⟩ := h.kept hskip
    have hflat : (piece :: s.carry).flatten = piece ++ tail := by
      rw [List.flatten_cons, hcarry]
    have hunder : (s.skipping || decide (scan.maxLine < s.carryLen + piece.length)) = false := by
      rw [List.length_append] at hlong
      simp only [hskip, Bool.false_or, decide_eq_false_iff_not]
      omega
    have hemit : s.emit decode (piece :: s.carry) = _ :=
      BackwardState.emit_spec decode (hflat ▸ hjoined) (hflat ▸ Nat.not_lt.mp hlong)
    rw [hflat] at hemit
    simp only [BackwardState.complete, hunder, Bool.false_eq_true, if_false, hemit]

variable (buf : Bytes) in
theorem BackwardState.Holds.keep (h : s.Holds scan tail) (hfree : NEWLINE ∉ buf) :
    (s.keep scan buf).Holds scan (buf ++ tail) ∧ (s.keep scan buf).first = s.first ∧
      (s.keep scan buf).lineNumber = s.lineNumber := by
  have hjoined : NEWLINE ∉ buf ++ tail := by
    rw [List.mem_append, not_or]
    exact ⟨hfree, h.free⟩
  unfold BackwardState.keep
  by_cases hbuf : buf = []
  · simpa [hbuf] using h
  cases hskip : s.skipping with
  | true =>
      have hlong := h.skipped hskip
      simp only [Bool.or_true, if_true, and_self, and_true]
      refine ⟨hjoined, fun _ => ?_, fun hs => absurd (hskip.symm.trans hs) (by decide)⟩
      rw [List.length_append]
      omega
  | false =>
      obtain ⟨hcarry, hlen, hshort⟩ := h.kept hskip
      simp only [hbuf, decide_false, Bool.or_self, Bool.false_eq_true, if_false]
      split
      · refine ⟨⟨hjoined, fun _ => ?_, fun hs => by cases hs⟩, rfl, rfl⟩
        rw [List.length_append]
        omega
      · refine ⟨⟨hjoined, fun hs => ?_, fun _ => ⟨?_, ?_, ?_⟩⟩, rfl, rfl⟩
        · cases hs
        · simp only [List.flatten_cons, hcarry]
        · simp only [List.length_append]
          omega
        · simp only [List.length_append]
          omega

variable (decode) (buf : Bytes) in
/-- A chunk yields, from its end, the segments that begin in it. -/
theorem backwardBuffer_spec (h : s.Holds scan tail) :
    ∃ tail', (backwardBuffer decode scan s buf).2.Holds scan tail' ∧ ∀ front,
      backEventsFrom decode scan.maxLine s.lineNumber
          (leftSegments s.first (front ++ buf ++ tail)).reverse =
        (backwardBuffer decode scan s buf).1 ++
          backEventsFrom decode scan.maxLine (backwardBuffer decode scan s buf).2.lineNumber
            (leftSegments (backwardBuffer decode scan s buf).2.first (front ++ tail')).reverse := by
  fun_induction backwardBuffer decode scan s buf generalizing tail with
  | case1 s buf hnl =>
      obtain ⟨hholds, hfirst, hnumber⟩ := h.keep buf (lastNewline_none hnl)
      refine ⟨buf ++ tail, hholds, fun front => ?_⟩
      rw [hfirst, hnumber, List.append_assoc]
      rfl
  | case2 s buf nl hnl events next hcomplete earlier last hrec =>
      rename_i ih
      obtain ⟨hsplit, hfree⟩ := lastNewline_some hnl
      have hline := h.complete decode hfree
      rw [hcomplete] at hline
      obtain ⟨rfl, rfl⟩ := Prod.mk.inj hline
      have hnext : BackwardState.Holds scan { first := false, lineNumber := s.lineNumber +
          (leftSegments s.first (buf.drop (nl + 1) ++ tail)).length } [] :=
        ⟨List.not_mem_nil, fun hs => (by cases hs), fun _ => ⟨rfl, rfl, Nat.zero_le _⟩⟩
      obtain ⟨tail', hholds, hevents⟩ := ih hnext
      rw [hrec] at hholds hevents
      refine ⟨tail', hholds, fun front => ?_⟩
      have hleft : leftSegments s.first (front ++ buf ++ tail) =
          leftSegments false (front ++ buf.take nl) ++
            leftSegments s.first (buf.drop (nl + 1) ++ tail) := by
        rw [← leftSegments_closed]
        conv_lhs => rw [hsplit]
        simp only [List.append_assoc, List.cons_append]
      have hfront := hevents front
      rw [List.append_nil] at hfront
      rw [hleft, List.reverse_append, backEventsFrom_append, List.length_reverse, hfront,
        List.append_assoc]

variable (decode) in
theorem BackwardState.Holds.finish (h : s.Holds scan tail) :
    s.finish decode =
      backEventsFrom decode scan.maxLine s.lineNumber (leftSegments s.first tail).reverse := by
  unfold BackwardState.finish
  cases hskip : s.skipping with
  | true =>
      have hline := congrArg Prod.fst (h.complete decode (List.not_mem_nil (a := NEWLINE)))
      simpa only [BackwardState.complete, hskip, Bool.true_or, if_true, List.nil_append] using hline
  | false =>
      obtain ⟨hcarry, hlen, hshort⟩ := h.kept hskip
      have hemit : s.emit decode s.carry = _ :=
        BackwardState.emit_spec decode (hcarry.symm ▸ h.free) (hcarry.symm ▸ hshort)
      have hfinish : (if 0 < s.carryLen || !s.first then (s.emit decode s.carry).1 else []) =
          (s.emit decode s.carry).1 := by
        split
        · rfl
        · rename_i hnone
          simp only [Bool.or_eq_true, decide_eq_true_eq, Bool.not_eq_true', not_or,
            Bool.not_eq_false, Nat.not_lt, Nat.le_zero, hlen, List.length_eq_zero_iff] at hnone
          simp [BackwardState.emit, hnone.2, hcarry, hnone.1]
      rw [if_neg (by decide), hfinish, hemit, hcarry]

/-- A backward scan yields the segments of the file, from the last. -/
theorem backwardChunks_spec {front : Bytes} (h : s.Holds scan tail) :
    backwardChunks decode scan s front =
      backEventsFrom decode scan.maxLine s.lineNumber
        (leftSegments s.first (front ++ tail)).reverse := by
  fun_induction backwardChunks decode scan s front generalizing tail with
  | case1 s => exact h.finish decode
  | case2 s front hfront start events next hrec =>
      rename_i ih
      obtain ⟨tail', hholds, hevents⟩ := backwardBuffer_spec decode (front.drop start) h
      rw [hrec] at hholds hevents
      have hstart := hevents (front.take start)
      rw [List.take_append_drop] at hstart
      rw [ih hholds, hstart]

end Backward

section Scans

variable (decode) (scan) (bytes : Bytes)

theorem forwardLines_bare :
    (forwardLines decode scan bytes none).map ScanEvent.bare =
      eventsFrom decode scan.maxLine 0 0 (segments NEWLINE bytes) := by
  rw [forwardLines, Option.getD_none, List.take_length]
  exact forwardChunks_spec ⟨rfl, fun hs => (by cases hs), fun _ => ⟨rfl, rfl, Nat.zero_le _⟩⟩

theorem backwardLines_eq :
    backwardLines decode scan bytes =
      backEventsFrom decode scan.maxLine 0 (segments NEWLINE bytes).reverse := by
  have hstart : BackwardState.Holds scan {} [] :=
    ⟨List.not_mem_nil, fun hs => (by cases hs), fun _ => ⟨rfl, rfl, Nat.zero_le _⟩⟩
  have hchunks : backwardChunks decode scan {} bytes = _ := backwardChunks_spec hstart
  rwa [List.append_nil] at hchunks

theorem content_bare (event : ScanEvent) : event.bare.content = event.content := by
  cases event <;> rfl

theorem lineNumber_bare (event : ScanEvent) : event.bare.lineNumber = event.lineNumber := by
  cases event <;> rfl

theorem partitions_bare {start stop : ℕ} {events : List ScanEvent} :
    Partitions start stop (events.map ScanEvent.bare) ↔ Partitions start stop events := by
  induction events generalizing start with
  | nil => rfl
  | cons event events ih =>
      have hstart : event.bare.byteStart = event.byteStart := by cases event <;> rfl
      have hend : event.bare.byteEnd = event.byteEnd := by cases event <;> rfl
      simp only [List.map_cons, Partitions, hstart, hend, ih]

theorem byteStart_eventOf (maxLine n start : ℕ) (segment : Bytes × Bool) :
    (eventOf decode maxLine n start segment).byteStart = some start ∧
      (eventOf decode maxLine n start segment).byteEnd =
        some (start + segment.1.length + segment.2.toNat) := by
  unfold eventOf
  dsimp only
  split <;> exact ⟨rfl, rfl⟩

/-- The segments of a file lie side by side, and none is empty. -/
theorem partitions_eventsFrom (maxLine n start : ℕ) (carry : Bytes) :
    Partitions start (start + carry.length + bytes.length)
      (eventsFrom decode maxLine n start (segmentsFrom NEWLINE carry bytes)) := by
  induction bytes generalizing n start carry with
  | nil =>
      unfold segmentsFrom
      split
      · rename_i hempty
        rw [hempty]
        rfl
      · rename_i hne
        obtain ⟨hstart, hend⟩ := byteStart_eventOf decode maxLine (n + 1) start (carry, false)
        have hpos := List.length_pos_iff.mpr hne
        exact ⟨hstart, _, hend, by simp only [Bool.toNat_false]; omega, rfl⟩
  | cons b bytes ih =>
      by_cases hb : b = NEWLINE
      · subst hb
        rw [segmentsFrom_sep]
        obtain ⟨hstart, hend⟩ := byteStart_eventOf decode maxLine (n + 1) start (carry, true)
        refine ⟨hstart, _, hend, by simp only [Bool.toNat_true]; omega, ?_⟩
        have hrest := ih (n + 1) (start + carry.length + 1) []
        have hstop : start + carry.length + (NEWLINE :: bytes).length =
            start + carry.length + 1 + ([] : Bytes).length + bytes.length := by
          simp only [List.length_cons, List.length_nil]
          omega
        rw [hstop]
        exact hrest
      · rw [segmentsFrom, if_neg hb]
        have hrest := ih n start (carry ++ [b])
        have hstop : start + carry.length + (b :: bytes).length =
            start + (carry ++ [b]).length + bytes.length := by
          simp only [List.length_append, List.length_cons, List.length_nil]
          omega
        rw [hstop]
        exact hrest

theorem content_forwardLines :
    (forwardLines decode scan bytes none).map ScanEvent.content =
      (segments NEWLINE bytes).map (contentOf decode scan.maxLine) := by
  rw [← content_eventsFrom decode scan.maxLine 0 0, ← forwardLines_bare, List.map_map]
  exact List.map_congr_left fun event _ => (content_bare event).symm

theorem content_backwardLines :
    (backwardLines decode scan bytes).map ScanEvent.content =
      ((forwardLines decode scan bytes none).map ScanEvent.content).reverse := by
  rw [backwardLines_eq, content_backEventsFrom, content_forwardLines, List.map_reverse]

/-- The backward scan tells of the lines in the reverse order of the forward scan. Both number the
lines as they come. What the forward scan tells, but for the diagnostic prefix of an oversized
line, does not depend on the size of its chunks, and its byte ranges partition the file. -/
theorem backward_mirrors_forward :
    (backwardLines decode scan bytes).map ScanEvent.content =
      ((forwardLines decode scan bytes none).map ScanEvent.content).reverse ∧
    (forwardLines decode scan bytes none).map ScanEvent.lineNumber =
      List.range' 1 (forwardLines decode scan bytes none).length ∧
    (backwardLines decode scan bytes).map ScanEvent.lineNumber =
      List.range' 1 (forwardLines decode scan bytes none).length ∧
    (∀ other : ResolvedScan, other.maxLine = scan.maxLine →
      (forwardLines decode other bytes none).map ScanEvent.bare =
        (forwardLines decode scan bytes none).map ScanEvent.bare) ∧
    Partitions 0 bytes.length (forwardLines decode scan bytes none) := by
  have hbare := forwardLines_bare decode scan bytes
  have hlength : (forwardLines decode scan bytes none).length = (segments NEWLINE bytes).length := by
    have hcount := congrArg List.length hbare
    have hevents := congrArg List.length
      (lineNumber_eventsFrom decode scan.maxLine 0 0 (segments NEWLINE bytes))
    rw [List.length_map] at hcount hevents
    rw [hcount, hevents, List.length_range']
  refine ⟨content_backwardLines decode scan bytes, ?_, ?_, fun other hsame => ?_, ?_⟩
  · rw [hlength, ← lineNumber_eventsFrom decode scan.maxLine 0 0, ← hbare, List.map_map]
    exact List.map_congr_left fun event _ => (lineNumber_bare event).symm
  · rw [backwardLines_eq, lineNumber_backEventsFrom, List.length_reverse, hlength]
  · rw [hbare, forwardLines_bare, hsame]
  · rw [← partitions_bare, hbare]
    have hparts := partitions_eventsFrom decode bytes scan.maxLine 0 0 []
    rwa [List.length_nil, Nat.zero_add] at hparts

/-- Bytes as the characters of their numbers. -/
def plainDecode (bytes : Bytes) : String :=
  String.ofList (bytes.map fun b => Char.ofNat b.toNat)

/-- The prefix of an oversized line is cut short by a chunk. -/
theorem prefix_depends_on_chunk : ¬ ∀ (decode : Bytes → String) (scan other : ResolvedScan)
    (bytes : Bytes), other.maxLine = scan.maxLine →
      forwardLines decode other bytes none = forwardLines decode scan bytes none := by
  intro h
  have hsame := h plainDecode ⟨1, 1, by decide, by decide⟩ ⟨4, 1, by decide, by decide⟩
    [97, 98, 99, 10] rfl
  revert hsame
  decide +kernel

end Scans

end Kyberion.Jsonl
