import Kyberion.Jsonl.Mirror
import Kyberion.Latest
import Kyberion.Store.CopyPasses

/-!
What a compaction by key leaves of a store, byte for byte. The lines of the
copies are rows; those that pass 1 indexed fold to the last row of each key, and
the rest is carried as it is. Both passes are proved to see the same rows.
-/

namespace Kyberion.Store

open Jsonl

variable (utf8 : Utf8) (scan : ResolvedScan) (key : String → Option String)

section Rows

/-- A line of a copy, and whether pass 1 indexed it. -/
structure CopyRow where
  bytes : Bytes
  indexed : Bool
  deriving DecidableEq

def lineText (bytes : Bytes) : String :=
  decodeLine utf8.decode [bytes]

/-- The key under which a reader sees a line. -/
def readKey (bytes : Bytes) : Option String :=
  if scan.maxLine < bytes.length || Js.trim (lineText utf8 bytes) = "" then none
  else key (lineText utf8 bytes)

/-- The line is indexed, and it is not over the guard. -/
def CopyRow.guarded (row : CopyRow) : Bool :=
  row.indexed && !(scan.maxLine < row.bytes.length : Bool)

def CopyRow.isBlank (row : CopyRow) : Bool :=
  row.guarded scan && Js.trim (lineText utf8 row.bytes) = ""

/-- Rows fold together under the keys of the indexed ones. -/
def CopyRow.foldKey (row : CopyRow) : Option String :=
  if row.indexed then readKey utf8 scan key row.bytes else none

/-- What is written of a row that survives. -/
def CopyRow.written (row : CopyRow) : Bytes :=
  if row.guarded scan then utf8.encode (lineText utf8 row.bytes) else row.bytes

def lines (bytes : Bytes) : List Bytes :=
  (segments NEWLINE bytes).map (·.1)

/-- The rows of a copy: its terminated lines, and what pass 1 did not index. -/
def copyRows (bytes late : Bytes) : List CopyRow :=
  (closedPart NEWLINE bytes).map (fun line => ⟨line, true⟩) ++
    (lines (openPart NEWLINE bytes ++ late)).map fun line => ⟨line, false⟩

def runRows (late : ℕ → Bytes) (fileIndex : ℕ) : List ParkedCopy → List CopyRow
  | [] => []
  | copy :: rest => copyRows copy.bytes (late fileIndex) ++ runRows late (fileIndex + 1) rest

/-- The rows that are left, in their order. -/
def survivors (rows : List CopyRow) : List Bytes :=
  (compactByKey (CopyRow.foldKey utf8 scan key) (rows.filter fun row => !row.isBlank utf8 scan)).map
    (CopyRow.written utf8 scan)

/-- The last record of a key. -/
def lastText (k : String) (lines : List Bytes) : Option String :=
  (lastFor (readKey utf8 scan key) k lines).map (lineText utf8)

/-- A line whose text, written again, is read as the same text within the guard. -/
def Regular (bytes : Bytes) : Prop :=
  scan.maxLine < bytes.length ∨
    (utf8.encode (lineText utf8 bytes)).length ≤ scan.maxLine ∧
      stripCarriageReturn (lineText utf8 bytes) = lineText utf8 bytes

end Rows

section Copies

theorem lines_join {segs : List Bytes} (h : ∀ line ∈ segs, NEWLINE ∉ line) (rest : Bytes) :
    lines (join NEWLINE segs ++ rest) = segs ++ lines rest := by
  rw [lines, segments_join h, List.map_append, List.map_map, lines]
  simp [Function.comp_def]

/-- Every line of a text is free of newlines. -/
theorem lines_free (bytes : Bytes) : ∀ line ∈ lines bytes, NEWLINE ∉ line := by
  obtain ⟨-, hfree, htail, hsegs⟩ := join_closedPart NEWLINE bytes
  intro line hline
  rw [lines, hsegs, List.map_append, List.mem_append, List.map_map] at hline
  rcases hline with hclosed | hopen
  · exact hfree line (by simpa [Function.comp_def] using hclosed)
  · split at hopen
    · cases hopen
    · rwa [List.mem_singleton.mp hopen]

/-- A copy of bytes ends its last line. -/
theorem copyBytes_all (bytes : Bytes) : copyBytes bytes 0 none = join NEWLINE (lines bytes) := by
  obtain ⟨hjoin, hfree, htail, hsegs⟩ := join_closedPart NEWLINE bytes
  have hsame : copyBytes bytes 0 none =
      if bytes ≠ [] && bytes.getLast? ≠ some NEWLINE then bytes ++ [NEWLINE] else bytes := by
    rw [copyBytes, Option.getD_none, List.take_length, List.drop_zero]
  by_cases hopen : openPart NEWLINE bytes = []
  · have hall : join NEWLINE (closedPart NEWLINE bytes) = bytes := by
      rwa [hopen, List.append_nil] at hjoin
    have hlines : lines bytes = closedPart NEWLINE bytes := by
      rw [lines, hsegs, if_pos hopen, List.append_nil, List.map_map]
      simp [Function.comp_def]
    rw [hsame, hlines, hall]
    refine if_neg ?_
    obtain hnil | ⟨segs, line, hlast⟩ := List.eq_nil_or_concat' (closedPart NEWLINE bytes)
    · have hbytes : bytes = [] := by rw [← hall, hnil]; rfl
      simp [hbytes]
    · have hend : bytes.getLast? = some NEWLINE := by
        rw [← hall, hlast, join_append, join_cons]
        simp [join]
      simp [hend]
  · have hlast : bytes.getLast? ≠ some NEWLINE := by
      rw [← hjoin, List.getLast?_append_of_ne_nil _ hopen]
      exact fun hnl => htail (List.mem_of_getLast? hnl)
    have hne : bytes ≠ [] := fun hnil => by
      rw [hnil, List.append_eq_nil_iff] at hjoin
      exact hopen (by rw [hnil]; exact hjoin.2)
    rw [hsame, if_pos (by simp [hlast, hne]), lines, hsegs, if_neg hopen, List.map_append,
      List.map_map, List.map_singleton, join_append, join_cons, ← List.append_assoc]
    conv_lhs => rw [← hjoin]
    simp [Function.comp_def, join]

theorem copyBytes_rest (front rest : Bytes) :
    copyBytes (front ++ rest) front.length none = join NEWLINE (lines rest) := by
  rw [← copyBytes_all]
  simp only [copyBytes, Option.getD_none, List.take_length, List.drop_left, List.drop_zero]

/-- A line over the guard is copied with its newline. -/
theorem copyBytes_line (front line rest : Bytes) :
    copyBytes (front ++ line ++ NEWLINE :: rest) front.length
      (some (front.length + line.length + 1)) = line ++ [NEWLINE] := by
  have htake : (front ++ line ++ NEWLINE :: rest).take (front.length + line.length + 1) =
      front ++ (line ++ [NEWLINE]) := by
    have hlength : front.length + line.length + 1 = (front ++ line).length + 1 := by
      rw [List.length_append]
    rw [hlength, List.take_length_add_append, List.append_assoc]
    rfl
  simp only [copyBytes, Option.getD_some, htake, List.drop_left]
  exact if_neg (by simp)

end Copies

section Index

/-- The texts of the indexed lines that reach the filter. -/
def observed (rows : List CopyRow) : List String :=
  (rows.filter fun row => row.guarded scan && !row.isBlank utf8 scan).map fun row =>
    lineText utf8 row.bytes

/-- `lastIndex` after the texts from an index on. -/
def indexTexts (lastIndex : String → Option ℕ) (index : ℕ) : List String → String → Option ℕ
  | [] => lastIndex
  | text :: texts =>
      indexTexts ((lastIndexFilter key).observe lastIndex text index 0) (index + 1) texts

variable {key} {lastIndex : String → Option ℕ} {index : ℕ} {k : String}

theorem keep_keyless {text : String} (h : key text = none) (fileIndex : ℕ) :
    (lastIndexFilter key).keep lastIndex text index fileIndex = true := by
  simp only [lastIndexFilter, h]

theorem keep_keyed {text : String} (h : key text = some k) (fileIndex : ℕ) :
    (lastIndexFilter key).keep lastIndex text index fileIndex =
      decide (lastIndex k = some index) := by
  simp only [lastIndexFilter, h]

theorem indexTexts_append (texts texts' : List String) :
    indexTexts key lastIndex index (texts ++ texts') =
      indexTexts key (indexTexts key lastIndex index texts) (index + texts.length) texts' := by
  induction texts generalizing lastIndex index with
  | nil => rfl
  | cons text texts ih =>
      rw [List.cons_append, indexTexts, ih, indexTexts, List.length_cons, Nat.add_assoc,
        Nat.add_comm 1]

theorem indexTexts_absent {texts : List String} (h : ∀ text ∈ texts, key text ≠ some k) :
    indexTexts key lastIndex index texts k = lastIndex k := by
  induction texts generalizing lastIndex index with
  | nil => rfl
  | cons text texts ih =>
      obtain ⟨hfirst, hrest⟩ := List.forall_mem_cons.mp h
      rw [indexTexts, ih hrest]
      cases hkey : key text with
      | none => simp only [lastIndexFilter, hkey]
      | some j =>
          have hne : k ≠ j := fun heq => hfirst (by rw [hkey, heq])
          simp only [lastIndexFilter, hkey, Function.update_of_ne hne]

/-- The last text of a key has its index. -/
theorem indexTexts_last {texts texts' : List String} {text : String} (hkey : key text = some k)
    (h : ∀ text ∈ texts', key text ≠ some k) :
    indexTexts key lastIndex index (texts ++ text :: texts') k = some (index + texts.length) := by
  rw [indexTexts_append, indexTexts, indexTexts_absent h]
  simp only [lastIndexFilter, hkey, Function.update_self]

variable (lastIndex index) in
/-- A text has the last index of its key if and only if no later text has the key. -/
theorem indexTexts_eq_iff (texts texts' : List String) {text : String} (hkey : key text = some k) :
    indexTexts key lastIndex index (texts ++ text :: texts') k = some (index + texts.length) ↔
      ∀ text ∈ texts', key text ≠ some k := by
  refine ⟨fun hindex => ?_, indexTexts_last hkey⟩
  by_contra hlater
  push Not at hlater
  obtain ⟨before, last, after, rfl, hlast, hnone⟩ := exists_last_split hlater
  have hsplit : texts ++ text :: (before ++ last :: after) =
      (texts ++ text :: before) ++ last :: after := by simp
  rw [hsplit, indexTexts_last hlast hnone, List.length_append, List.length_cons,
    Option.some.injEq] at hindex
  omega

end Index

section Keep

/-- The rows that pass 2 keeps, by the indices of pass 1. -/
def keptRows (lastIndex : String → Option ℕ) : ℕ → List CopyRow → List CopyRow
  | _, [] => []
  | index, row :: rest =>
      if row.isBlank utf8 scan then keptRows lastIndex index rest
      else if row.guarded scan then
        if (lastIndexFilter key).keep lastIndex (lineText utf8 row.bytes) index 0 then
          row :: keptRows lastIndex (index + 1) rest
        else keptRows lastIndex (index + 1) rest
      else row :: keptRows lastIndex index rest

variable {utf8 scan key}

theorem observed_append (rows rows' : List CopyRow) :
    observed utf8 scan (rows ++ rows') = observed utf8 scan rows ++ observed utf8 scan rows' := by
  simp [observed]

theorem observed_cons_guarded {row : CopyRow} (hblank : row.isBlank utf8 scan = false)
    (hguarded : row.guarded scan = true) (rows : List CopyRow) :
    observed utf8 scan (row :: rows) = lineText utf8 row.bytes :: observed utf8 scan rows := by
  simp [observed, hblank, hguarded]

theorem observed_cons_other {row : CopyRow}
    (h : row.isBlank utf8 scan = true ∨ row.guarded scan = false) (rows : List CopyRow) :
    observed utf8 scan (row :: rows) = observed utf8 scan rows := by
  rcases h with h | h <;> simp [observed, h]

theorem foldKey_guarded {row : CopyRow} (hblank : row.isBlank utf8 scan = false)
    (hguarded : row.guarded scan = true) :
    row.foldKey utf8 scan key = key (lineText utf8 row.bytes) := by
  have hboth := hguarded
  simp only [CopyRow.guarded, Bool.and_eq_true, Bool.not_eq_true'] at hboth
  simp only [CopyRow.isBlank, hguarded, Bool.true_and] at hblank
  rw [CopyRow.foldKey, if_pos hboth.1, readKey, hboth.2, hblank]
  rfl

theorem foldKey_other {row : CopyRow} (hguarded : row.guarded scan = false) :
    row.foldKey utf8 scan key = none := by
  rw [CopyRow.foldKey]
  split
  · rename_i hindexed
    rw [CopyRow.guarded, hindexed, Bool.true_and, Bool.not_eq_false'] at hguarded
    rw [readKey, hguarded, Bool.true_or, if_pos rfl]
  · rfl

variable (utf8 scan key) in
theorem keptRows_append (lastIndex : String → Option ℕ) (index : ℕ)
    (rows rows' : List CopyRow) :
    keptRows utf8 scan key lastIndex index (rows ++ rows') =
      keptRows utf8 scan key lastIndex index rows ++
        keptRows utf8 scan key lastIndex (index + (observed utf8 scan rows).length) rows' := by
  induction rows generalizing index with
  | nil => rfl
  | cons row rows ih =>
      rw [List.cons_append, keptRows, keptRows]
      cases hblank : row.isBlank utf8 scan with
      | true => rw [observed_cons_other (.inl hblank), if_pos rfl, if_pos rfl, ih]
      | false =>
          cases hguarded : row.guarded scan with
          | false =>
              rw [observed_cons_other (.inr hguarded)]
              simp only [Bool.false_eq_true, if_false, ih, List.cons_append]
          | true =>
              have hindex (texts : List String) :
                  index + (lineText utf8 row.bytes :: texts).length =
                    index + 1 + texts.length := by
                rw [List.length_cons]
                omega
              rw [observed_cons_guarded hblank hguarded, hindex]
              simp only [Bool.false_eq_true, if_false, if_true, ih]
              split <;> rfl

variable (utf8 scan key) in
/-- A key comes up again among the rows if and only if a text has it. -/
theorem any_foldKey (rows : List CopyRow) (k : String) :
    ((rows.filter fun row => !row.isBlank utf8 scan).any fun row =>
        row.foldKey utf8 scan key = some k) = true ↔
      ∃ text ∈ observed utf8 scan rows, key text = some k := by
  constructor
  · intro hany
    obtain ⟨row, hrow, hkey⟩ := List.any_eq_true.mp hany
    obtain ⟨hmem, hblank⟩ := List.mem_filter.mp hrow
    have hblank : row.isBlank utf8 scan = false := by simpa using hblank
    have hkey : row.foldKey utf8 scan key = some k := by simpa using hkey
    cases hguarded : row.guarded scan with
    | false => cases (foldKey_other hguarded).symm.trans hkey
    | true =>
        rw [foldKey_guarded hblank hguarded] at hkey
        refine ⟨_, List.mem_map_of_mem (List.mem_filter.mpr ⟨hmem, ?_⟩), hkey⟩
        simp [hguarded, hblank]
  · rintro ⟨text, htext, hkey⟩
    obtain ⟨row, hrow, rfl⟩ := List.mem_map.mp htext
    obtain ⟨hmem, hseen⟩ := List.mem_filter.mp hrow
    rw [Bool.and_eq_true, Bool.not_eq_true'] at hseen
    refine List.any_eq_true.mpr ⟨row, List.mem_filter.mpr ⟨hmem, by simp [hseen.2]⟩, ?_⟩
    rw [foldKey_guarded hseen.2 hseen.1]
    exact decide_eq_true hkey

variable (utf8 scan key) in
/-- Pass 2 keeps the last indexed row of each key, and the rows without one. -/
theorem keptRows_eq (before rows : List CopyRow) :
    keptRows utf8 scan key
        (indexTexts key (lastIndexFilter key).start 0 (observed utf8 scan (before ++ rows)))
        (observed utf8 scan before).length rows =
      compactByKey (CopyRow.foldKey utf8 scan key)
        (rows.filter fun row => !row.isBlank utf8 scan) := by
  induction rows generalizing before with
  | nil => rfl
  | cons row rows ih =>
      have hnext := ih (before ++ [row])
      rw [List.append_assoc, List.singleton_append] at hnext
      rw [observed_append before [row], List.length_append] at hnext
      cases hblank : row.isBlank utf8 scan with
      | true =>
          rw [observed_cons_other (.inl hblank)] at hnext
          rw [keptRows, if_pos hblank, List.filter_cons_of_neg (by simp [hblank])]
          exact hnext
      | false =>
          rw [keptRows, hblank, if_neg (by decide), List.filter_cons_of_pos (by simp [hblank]),
            compactByKey]
          cases hguarded : row.guarded scan with
          | false =>
              rw [observed_cons_other (.inr hguarded)] at hnext
              rw [if_neg (by decide), foldKey_other hguarded, Option.any_none, if_neg (by decide)]
              exact congrArg (row :: ·) hnext
          | true =>
              rw [observed_cons_guarded hblank hguarded] at hnext
              rw [if_pos rfl, foldKey_guarded hblank hguarded]
              cases hkey : key (lineText utf8 row.bytes) with
              | none =>
                  rw [keep_keyless hkey, if_pos rfl, Option.any_none, if_neg Bool.false_ne_true]
                  exact congrArg (row :: ·) hnext
              | some k =>
                  have hlast := indexTexts_eq_iff (lastIndexFilter key).start 0
                    (observed utf8 scan before) (observed utf8 scan rows) hkey
                  rw [Nat.zero_add, ← observed_cons_guarded hblank hguarded, ← observed_append]
                    at hlast
                  have hagain := any_foldKey utf8 scan key rows k
                  rw [keep_keyed hkey, Option.any_some]
                  by_cases hlater : ∃ text ∈ observed utf8 scan rows, key text = some k
                  · rw [if_pos (hagain.mpr hlater), if_neg]
                    · exact hnext
                    · intro hindex
                      obtain ⟨text, htext, hsame⟩ := hlater
                      exact hlast.mp (of_decide_eq_true hindex) text htext hsame
                  · rw [if_neg fun h => hlater (hagain.mp h), if_pos]
                    · exact congrArg (row :: ·) hnext
                    · exact decide_eq_true
                        (hlast.mpr fun text htext hsame => hlater ⟨text, htext, hsame⟩)

end Keep

section Passes

variable {utf8 scan key} {lastIndex : String → Option ℕ} {fileIndex : ℕ}

/-- The rows of a copy that pass 1 indexes. -/
def indexedRows (bytes : List Bytes) : List CopyRow :=
  bytes.map fun line => ⟨line, true⟩

theorem indexLines_bare (s : Indexing (String → Option ℕ)) (events : List ScanEvent) :
    indexLines (lastIndexFilter key) fileIndex s (events.map ScanEvent.bare) =
      indexLines (lastIndexFilter key) fileIndex s events := by
  induction events generalizing s with
  | nil => rfl
  | cons event events ih =>
      cases event with
      | oversized line =>
          simp only [List.map_cons, ScanEvent.bare, indexLines, ih]
      | line line => simp only [List.map_cons, ScanEvent.bare, indexLines, ih]

theorem guarded_indexed {line : Bytes} :
    (⟨line, true⟩ : CopyRow).guarded scan = !(scan.maxLine < line.length : Bool) :=
  Bool.true_and _

variable (utf8 scan key fileIndex) in
/-- Pass 1 indexes the terminated lines of a copy. -/
theorem indexLines_eq (segs : List Bytes) (tail : Bytes) (n : ℕ)
    (s : Indexing (String → Option ℕ)) :
    indexLines (lastIndexFilter key) fileIndex s
        (eventsFrom utf8.decode scan.maxLine n s.indexedBytes
          (segs.map (fun line => (line, true)) ++ if tail = [] then [] else [(tail, false)])) =
      { state := indexTexts key s.state s.total (observed utf8 scan (indexedRows segs))
        total := s.total + (observed utf8 scan (indexedRows segs)).length
        indexedBytes := s.indexedBytes + (join NEWLINE segs).length } := by
  induction segs generalizing n s with
  | nil =>
      split
      · rfl
      · rw [List.map_nil, List.nil_append, eventsFrom, eventOf, eventsFrom]
        dsimp only
        split <;> rfl
  | cons line segs ih =>
      have hlength (start : ℕ) : start + (join NEWLINE (line :: segs)).length =
          start + line.length + 1 + (join NEWLINE segs).length := by
        rw [join_cons, List.length_append, List.length_cons]
        omega
      rw [List.map_cons, List.cons_append, eventsFrom, eventOf, hlength]
      dsimp only [Bool.toNat_true]
      by_cases hover : scan.maxLine < line.length
      · have hrow : (⟨line, true⟩ : CopyRow).guarded scan = false := by
          simp [guarded_indexed, hover]
        rw [if_pos hover, indexedRows, List.map_cons, observed_cons_other (.inr hrow)]
        exact ih (n + 1) { s with indexedBytes := s.indexedBytes + line.length + 1 }
      · have hrow : (⟨line, true⟩ : CopyRow).guarded scan = true := by
          simp [guarded_indexed, hover]
        rw [if_neg hover, indexedRows, List.map_cons, indexLines, if_pos rfl]
        by_cases hblank : Js.trim (lineText utf8 line) = ""
        · have hgone : (⟨line, true⟩ : CopyRow).isBlank utf8 scan = true := by
            simp [CopyRow.isBlank, hrow, hblank]
          rw [observed_cons_other (.inl hgone)]
          exact (if_pos hblank).trans
            (ih (n + 1) { s with indexedBytes := s.indexedBytes + line.length + 1 })
        · have hseen : (⟨line, true⟩ : CopyRow).isBlank utf8 scan = false := by
            simp [CopyRow.isBlank, hrow, hblank]
          have htotal (texts : List String) :
              s.total + (lineText utf8 line :: texts).length = s.total + 1 + texts.length := by
            rw [List.length_cons]
            omega
          rw [observed_cons_guarded hseen hrow, indexTexts, htotal]
          exact (if_neg hblank).trans
            (ih (n + 1)
              { state := (lastIndexFilter key).observe s.state (lineText utf8 line) s.total 0
                total := s.total + 1
                indexedBytes := s.indexedBytes + line.length + 1 })

theorem writeLine_bare (bytes : Bytes) (w : Writing) (event : ScanEvent) :
    writeLine utf8 (lastIndexFilter key) lastIndex fileIndex bytes w event.bare =
      writeLine utf8 (lastIndexFilter key) lastIndex fileIndex bytes w event := by
  cases event <;> rfl

theorem written_other {row : CopyRow} (h : row.guarded scan = false) :
    row.written utf8 scan = row.bytes := by
  rw [CopyRow.written, h, if_neg (by decide)]

theorem written_guarded {row : CopyRow} (h : row.guarded scan = true) :
    row.written utf8 scan = utf8.encode (lineText utf8 row.bytes) := by
  rw [CopyRow.written, h, if_pos rfl]

/-- Pass 2 writes a terminated line if it keeps it. -/
theorem writeLine_eq (front line rest : Bytes) (n : ℕ) (w : Writing) :
    writeLine utf8 (lastIndexFilter key) lastIndex fileIndex (front ++ line ++ NEWLINE :: rest) w
        (eventOf utf8.decode scan.maxLine n front.length (line, true)) =
      { out := w.out ++ join NEWLINE
          ((keptRows utf8 scan key lastIndex w.index [⟨line, true⟩]).map
            (CopyRow.written utf8 scan))
        index := w.index + (observed utf8 scan [⟨line, true⟩]).length } := by
  by_cases hover : scan.maxLine < line.length
  · have hrow : (⟨line, true⟩ : CopyRow).guarded scan = false := by
      simp [guarded_indexed, hover]
    have hsolid : (⟨line, true⟩ : CopyRow).isBlank utf8 scan = false := by
      simp [CopyRow.isBlank, hrow]
    have hkept : keptRows utf8 scan key lastIndex w.index [⟨line, true⟩] = [⟨line, true⟩] := by
      simp [keptRows, hsolid, hrow]
    have hcopied : writeLine utf8 (lastIndexFilter key) lastIndex fileIndex
        (front ++ line ++ NEWLINE :: rest) w
        (eventOf utf8.decode scan.maxLine n front.length (line, true)) =
          { w with out := w.out ++ (line ++ [NEWLINE]) } := by
      have hevent : eventOf utf8.decode scan.maxLine n front.length (line, true) =
          .oversized ⟨n, "", front.length, some (front.length + line.length + 1), true⟩ :=
        if_pos hover
      rw [hevent, ← copyBytes_line front line rest]
      rfl
    rw [hcopied, observed_cons_other (.inr hrow), hkept, List.map_singleton, written_other hrow,
      join_cons]
    rfl
  · have hrow : (⟨line, true⟩ : CopyRow).guarded scan = true := by simp [guarded_indexed, hover]
    have hevent : eventOf utf8.decode scan.maxLine n front.length (line, true) =
        .line ⟨lineText utf8 line, n, true, front.length,
          some (front.length + line.length + 1)⟩ :=
      if_neg hover
    rw [hevent]
    by_cases hblank : Js.trim (lineText utf8 line) = ""
    · have hgone : (⟨line, true⟩ : CopyRow).isBlank utf8 scan = true := by
        simp [CopyRow.isBlank, hrow, hblank]
      have hkept : keptRows utf8 scan key lastIndex w.index [⟨line, true⟩] = [] := by
        simp [keptRows, hgone]
      rw [observed_cons_other (.inl hgone), hkept, List.map_nil]
      refine (if_pos hblank).trans ?_
      rw [show join NEWLINE [] = ([] : Bytes) from rfl, List.append_nil]
      rfl
    · have hseen : (⟨line, true⟩ : CopyRow).isBlank utf8 scan = false := by
        simp [CopyRow.isBlank, hrow, hblank]
      rw [observed_cons_guarded hseen hrow]
      refine (if_neg hblank).trans ?_
      cases hkeep : (lastIndexFilter key).keep lastIndex (lineText utf8 line) w.index 0 with
      | true =>
          have hkept : keptRows utf8 scan key lastIndex w.index [⟨line, true⟩] =
              [⟨line, true⟩] := by
            simp [keptRows, hseen, hrow, hkeep]
          rw [hkept, List.map_singleton, written_guarded hrow, join_cons, ← List.append_assoc]
          exact congrArg (fun out => (⟨out, w.index + 1⟩ : Writing)) (if_pos hkeep)
      | false =>
          have hkept : keptRows utf8 scan key lastIndex w.index [⟨line, true⟩] = [] := by
            simp [keptRows, hseen, hrow, hkeep]
          rw [hkept, List.map_nil, show join NEWLINE [] = ([] : Bytes) from rfl, List.append_nil]
          exact congrArg (fun out => (⟨out, w.index + 1⟩ : Writing))
            (if_neg (by rw [Bool.not_eq_true]; exact hkeep))

variable (utf8 scan key lastIndex fileIndex) in
/-- Pass 2 writes the terminated lines that it keeps. -/
theorem writeLines_eq (segs : List Bytes) (front rest : Bytes) (n : ℕ) (w : Writing) :
    (eventsFrom utf8.decode scan.maxLine n front.length
        (segs.map fun line => (line, true))).foldl
        (writeLine utf8 (lastIndexFilter key) lastIndex fileIndex
          (front ++ join NEWLINE segs ++ rest)) w =
      { out := w.out ++ join NEWLINE
          ((keptRows utf8 scan key lastIndex w.index (indexedRows segs)).map
            (CopyRow.written utf8 scan))
        index := w.index + (observed utf8 scan (indexedRows segs)).length } := by
  induction segs generalizing front n w with
  | nil => simp [eventsFrom, indexedRows, keptRows, observed, join]
  | cons line segs ih =>
      have hfront : (front ++ line ++ [NEWLINE]).length = front.length + line.length + 1 := by
        simp only [List.length_append, List.length_singleton]
      have hsplit : front ++ join NEWLINE (line :: segs) ++ rest =
          front ++ line ++ NEWLINE :: (join NEWLINE segs ++ rest) := by
        rw [join_cons]
        simp
      have hsplit' : front ++ line ++ NEWLINE :: (join NEWLINE segs ++ rest) =
          front ++ line ++ [NEWLINE] ++ join NEWLINE segs ++ rest := by
        simp
      have hnext := ih (front ++ line ++ [NEWLINE]) (n + 1)
      rw [hfront, ← hsplit'] at hnext
      rw [List.map_cons, eventsFrom, List.foldl_cons, hsplit, writeLine_eq]
      refine (hnext _).trans ?_
      have hrows : indexedRows (line :: segs) = [⟨line, true⟩] ++ indexedRows segs := rfl
      rw [hrows, keptRows_append, observed_append, List.map_append, join_append,
        List.length_append, ← List.append_assoc, ← Nat.add_assoc]

/-- The copy was indexed up to its last newline. -/
def ParkedCopy.Indexed (copy : ParkedCopy) : Prop :=
  copy.indexedBytes = (join NEWLINE (closedPart NEWLINE copy.bytes)).length

theorem copyRows_eq (bytes late : Bytes) : copyRows bytes late =
    indexedRows (closedPart NEWLINE bytes) ++
      (lines (openPart NEWLINE bytes ++ late)).map fun line => ⟨line, false⟩ :=
  rfl

theorem keptRows_late (index : ℕ) (late : List Bytes) :
    keptRows utf8 scan key lastIndex index (late.map fun line => ⟨line, false⟩) =
      late.map fun line => ⟨line, false⟩ := by
  induction late with
  | nil => rfl
  | cons line late ih => simp [keptRows, CopyRow.isBlank, CopyRow.guarded, ih]

theorem observed_late (late : List Bytes) :
    observed utf8 scan (late.map fun line => ⟨line, false⟩) = [] := by
  simp [observed, CopyRow.guarded]

theorem observed_copyRows (bytes late : Bytes) : observed utf8 scan (copyRows bytes late) =
    observed utf8 scan (indexedRows (closedPart NEWLINE bytes)) := by
  rw [copyRows_eq, observed_append, observed_late, List.append_nil]

theorem written_late (late : List Bytes) :
    (late.map fun line => (⟨line, false⟩ : CopyRow)).map (CopyRow.written utf8 scan) = late := by
  rw [List.map_map]
  exact List.map_id' _

/-- Pass 2 writes the kept rows of a copy. -/
theorem writeCopy_eq {copy : ParkedCopy} (h : copy.Indexed) (late : Bytes) (w : Writing) :
    writeCopy utf8 scan (lastIndexFilter key) lastIndex fileIndex copy late w =
      { out := w.out ++ join NEWLINE
          ((keptRows utf8 scan key lastIndex w.index (copyRows copy.bytes late)).map
            (CopyRow.written utf8 scan))
        index := w.index + (observed utf8 scan (copyRows copy.bytes late)).length } := by
  obtain ⟨hjoin, hfree, -, -⟩ := join_closedPart NEWLINE copy.bytes
  have hsplit : copy.bytes ++ late =
      join NEWLINE (closedPart NEWLINE copy.bytes) ++ (openPart NEWLINE copy.bytes ++ late) := by
    rw [← List.append_assoc, hjoin]
  have hscan : forwardLines utf8.decode scan (copy.bytes ++ late) (some copy.indexedBytes) =
      forwardLines utf8.decode scan (join NEWLINE (closedPart NEWLINE copy.bytes)) none := by
    rw [forwardLines, forwardLines, Option.getD_some, Option.getD_none, List.take_length, h, hsplit,
      List.take_left]
  have hsegs : segments NEWLINE (join NEWLINE (closedPart NEWLINE copy.bytes)) =
      (closedPart NEWLINE copy.bytes).map fun line => (line, true) := by
    have hall := segments_join hfree []
    rwa [List.append_nil, show segments NEWLINE ([] : Bytes) = [] from rfl, List.append_nil] at hall
  have hwritten := writeLines_eq utf8 scan key lastIndex fileIndex
    (closedPart NEWLINE copy.bytes) [] (openPart NEWLINE copy.bytes ++ late) 0 w
  rw [List.nil_append, ← hsplit, List.length_nil, ← hsegs, ← forwardLines_bare, ← hscan,
    List.foldl_map] at hwritten
  simp only [writeLine_bare] at hwritten
  have hrest : copyBytes (copy.bytes ++ late) copy.indexedBytes none =
      join NEWLINE (lines (openPart NEWLINE copy.bytes ++ late)) := by
    rw [h, hsplit, copyBytes_rest]
  rw [writeCopy, hwritten, hrest, observed_copyRows, copyRows_eq, keptRows_append, keptRows_late,
    List.map_append, written_late, join_append, List.append_assoc]

/-- Pass 2 writes the kept rows of all copies. -/
theorem writeCopies_eq {copies : List ParkedCopy} (h : ∀ copy ∈ copies, copy.Indexed)
    (late : ℕ → Bytes) (fileIndex : ℕ) (w : Writing) :
    (writeCopies utf8 scan (lastIndexFilter key) lastIndex late fileIndex w copies).out =
      w.out ++ join NEWLINE ((keptRows utf8 scan key lastIndex w.index
        (runRows late fileIndex copies)).map (CopyRow.written utf8 scan)) := by
  induction copies generalizing fileIndex w with
  | nil => simp [writeCopies, runRows, keptRows, join]
  | cons copy copies ih =>
      obtain ⟨hcopy, hrest⟩ := List.forall_mem_cons.mp h
      rw [writeCopies, ih hrest, writeCopy_eq hcopy, runRows, keptRows_append, List.map_append,
        join_append, List.append_assoc]

theorem lines_copy (bytes late : Bytes) :
    lines (bytes ++ late) = (copyRows bytes late).map (·.bytes) := by
  obtain ⟨hjoin, hfree, -, -⟩ := join_closedPart NEWLINE bytes
  conv_lhs => rw [← hjoin, List.append_assoc, lines_join hfree]
  rw [copyRows, List.map_append, List.map_map, List.map_map]
  simp [Function.comp_def]

theorem writeUnion_eq (late : ℕ → Bytes) (fileIndex : ℕ) (copies : List ParkedCopy) :
    writeUnion late fileIndex copies =
      join NEWLINE ((runRows late fileIndex copies).map (·.bytes)) := by
  induction copies generalizing fileIndex with
  | nil => rfl
  | cons copy copies ih =>
      rw [writeUnion, ih, copyBytes_all, lines_copy, runRows, List.map_append, join_append]

end Passes

section Runs

variable {utf8 scan key}

/-- What pass 1 knows of the parked copies. -/
structure Rewriting.Indexed (utf8 : Utf8) (scan : ResolvedScan) (key : String → Option String)
    (s : Rewriting (String → Option ℕ)) : Prop where
  copies : ∀ copy ∈ s.parked, copy.Indexed
  state : s.state = indexTexts key (lastIndexFilter key).start 0
    (observed utf8 scan (runRows (fun _ => []) 0 s.parked))
  total : s.total = (observed utf8 scan (runRows (fun _ => []) 0 s.parked)).length

theorem observed_runRows (late late' : ℕ → Bytes) (i j : ℕ) (copies : List ParkedCopy) :
    observed utf8 scan (runRows late i copies) = observed utf8 scan (runRows late' j copies) := by
  induction copies generalizing i j with
  | nil => rfl
  | cons copy copies ih =>
      rw [runRows, runRows, observed_append, observed_append, observed_copyRows, observed_copyRows,
        ih (i + 1) (j + 1)]

theorem runRows_append (late : ℕ → Bytes) (i : ℕ) (copies copies' : List ParkedCopy) :
    runRows late i (copies ++ copies') =
      runRows late i copies ++ runRows late (i + copies.length) copies' := by
  induction copies generalizing i with
  | nil => rfl
  | cons copy copies ih =>
      rw [List.cons_append, runRows, ih, runRows, List.append_assoc, List.length_cons,
        Nat.add_right_comm, Nat.add_assoc]

theorem indexCopy_indexed {s : Rewriting (String → Option ℕ)} (h : s.Indexed utf8 scan key)
    (bytes : Bytes) :
    (indexCopy utf8 scan (lastIndexFilter key) s bytes).Indexed utf8 scan key := by
  obtain ⟨-, -, -, hsegs⟩ := join_closedPart NEWLINE bytes
  have hindexed := indexLines_eq utf8 scan key s.parked.length (closedPart NEWLINE bytes)
    (openPart NEWLINE bytes) 0 { state := s.state, total := s.total }
  dsimp only at hindexed
  rw [← hsegs, ← forwardLines_bare, indexLines_bare, Nat.zero_add] at hindexed
  have hrows : observed utf8 scan (runRows (fun _ => []) 0 (s.parked ++
      [⟨bytes, (join NEWLINE (closedPart NEWLINE bytes)).length⟩])) =
        observed utf8 scan (runRows (fun _ => []) 0 s.parked) ++
          observed utf8 scan (indexedRows (closedPart NEWLINE bytes)) := by
    rw [runRows_append, observed_append, runRows, runRows, List.append_nil, observed_copyRows]
  refine ⟨?_, ?_, ?_⟩ <;> simp only [indexCopy, hindexed]
  · intro copy hcopy
    rcases List.mem_append.mp hcopy with hold | hnew
    · exact h.copies copy hold
    · rw [List.mem_singleton.mp hnew]
      rfl
  · rw [hrows, indexTexts_append, h.state, h.total, Nat.zero_add]
  · rw [hrows, List.length_append, h.total]

theorem mergeRounds_indexed (around : Surroundings) {s : Rewriting (String → Option ℕ)}
    (h : s.Indexed utf8 scan key) (left : ℕ) :
    (mergeRounds utf8 scan (lastIndexFilter key) around s left).1.Indexed utf8 scan key := by
  induction left generalizing s with
  | zero =>
      rw [mergeRounds]
      split <;> exact h
  | succ left ih =>
      rw [mergeRounds]
      split
      · exact h
      · exact ih (indexCopy_indexed h _)
      · exact ih h

variable (utf8 scan key) in
theorem start_indexed :
    Rewriting.Indexed utf8 scan key ⟨[], (lastIndexFilter key).start, 0⟩ where
  copies := List.forall_mem_nil _
  state := rfl
  total := rfl

/-- The rows of the copies that a run parked, with what was added to them. -/
def StoreRewriteResult.rows (around : Surroundings) (result : StoreRewriteResult) : List CopyRow :=
  runRows around.late 0 result.parked

/-- Both passes together leave the last indexed row of each key. -/
theorem writeSurvivors_eq {s : Rewriting (String → Option ℕ)} (h : s.Indexed utf8 scan key)
    (late : ℕ → Bytes) :
    writeSurvivors utf8 scan (lastIndexFilter key) late s =
      join NEWLINE (survivors utf8 scan key (runRows late 0 s.parked)) := by
  have hkept := keptRows_eq utf8 scan key [] (runRows late 0 s.parked)
  rw [List.nil_append, observed_runRows late (fun _ => []) 0 0, ← h.state] at hkept
  rw [writeSurvivors, writeCopies_eq h.copies, List.nil_append, survivors, ← hkept]
  rfl

theorem settleRun_live (around : Surroundings) {s : Rewriting (String → Option ℕ)}
    (h : s.Indexed utf8 scan key) (published : Bool) :
    let result := settleRun utf8 scan (lastIndexFilter key) around s published
    result.live = join NEWLINE
        (if result.published then survivors utf8 scan key (result.rows around)
          else (result.rows around).map (·.bytes)) ++ around.appended := by
  cases published with
  | true => exact congrArg (· ++ around.appended) (writeSurvivors_eq h around.late)
  | false => exact congrArg (· ++ around.appended) (writeUnion_eq around.late 0 _)

/-- What a run leaves in the live file. -/
theorem rewriteParked_live {around : Surroundings} {result : StoreRewriteResult}
    (h : rewriteParked utf8 scan (lastIndexFilter key) around = some result) :
    result.live = join NEWLINE
        (if result.published then survivors utf8 scan key (result.rows around)
          else (result.rows around).map (·.bytes)) ++ around.appended := by
  obtain ⟨live, -, rfl⟩ := Option.map_eq_some_iff.mp h
  exact settleRun_live around (mergeRounds_indexed around
    (indexCopy_indexed (start_indexed utf8 scan key) live) COMPACT_MAX_PARK_ATTEMPTS) _

end Runs

section Fold

variable {utf8 scan key}

theorem free_text {line : Bytes} (h : NEWLINE ∉ line) : '\n' ∉ (lineText utf8 line).toList := by
  have hdecoded := utf8.decode_line line h
  rw [lineText, decodeLine, List.flatten_singleton, stripCarriageReturn]
  split
  · rw [String.toList_ofList]
    exact fun hmem => hdecoded (List.mem_of_mem_dropLast hmem)
  · exact hdecoded

theorem free_written {row : CopyRow} (h : NEWLINE ∉ row.bytes) :
    NEWLINE ∉ row.written utf8 scan := by
  rw [CopyRow.written]
  split
  · exact utf8.encode_line _ (free_text h)
  · exact h

theorem free_rows (late : ℕ → Bytes) (i : ℕ) (copies : List ParkedCopy) :
    ∀ row ∈ runRows late i copies, NEWLINE ∉ row.bytes := by
  induction copies generalizing i with
  | nil => exact List.forall_mem_nil _
  | cons copy copies ih =>
      intro row hrow
      rcases List.mem_append.mp hrow with hcopy | hrest
      · rcases List.mem_append.mp hcopy with hindexed | hlate
        · obtain ⟨line, hline, rfl⟩ := List.mem_map.mp hindexed
          obtain ⟨-, hfree, -, -⟩ := join_closedPart NEWLINE copy.bytes
          exact hfree line hline
        · obtain ⟨line, hline, rfl⟩ := List.mem_map.mp hlate
          exact lines_free _ line hline
      · exact ih (i + 1) row hrest

theorem mem_survivors_rows {rows : List CopyRow} {line : Bytes}
    (h : line ∈ survivors utf8 scan key rows) :
    ∃ row ∈ rows, row.isBlank utf8 scan = false ∧ row.written utf8 scan = line := by
  obtain ⟨row, hrow, rfl⟩ := List.mem_map.mp h
  obtain ⟨hmem, hblank⟩ := List.mem_filter.mp ((compactByKey_sublist _ _).mem hrow)
  exact ⟨row, hmem, by simpa using hblank, rfl⟩

theorem free_survivors {rows : List CopyRow} (h : ∀ row ∈ rows, NEWLINE ∉ row.bytes) :
    ∀ line ∈ survivors utf8 scan key rows, NEWLINE ∉ line := by
  intro line hline
  obtain ⟨row, hrow, -, rfl⟩ := mem_survivors_rows hline
  exact free_written (h row hrow)

variable (key) in
/-- A regular row is read as before when it was written. -/
theorem read_written {row : CopyRow} (h : row.indexed = true → Regular utf8 scan row.bytes) :
    readKey utf8 scan key (row.written utf8 scan) = readKey utf8 scan key row.bytes ∧
      lineText utf8 (row.written utf8 scan) = lineText utf8 row.bytes := by
  cases hguarded : row.guarded scan with
  | false => rw [written_other hguarded]; exact ⟨rfl, rfl⟩
  | true =>
      have hboth := hguarded
      rw [CopyRow.guarded, Bool.and_eq_true, Bool.not_eq_true', decide_eq_false_iff_not] at hboth
      obtain ⟨hindexed, hwithin⟩ := hboth
      rcases h hindexed with hover | ⟨hroom, hstrip⟩
      · exact absurd hover hwithin
      · have htext : lineText utf8 (row.written utf8 scan) = lineText utf8 row.bytes := by
          rw [written_guarded hguarded]
          conv_lhs => rw [lineText, decodeLine, List.flatten_singleton, utf8.decode_encode]
          exact hstrip
        refine ⟨?_, htext⟩
        rw [readKey, htext, written_guarded hguarded, readKey,
          decide_eq_false (Nat.not_lt.mpr hroom), decide_eq_false hwithin]

/-- The last record of each key stays. -/
theorem lastText_survivors {rows : List CopyRow}
    (h : ∀ row ∈ rows, row.indexed = true → Regular utf8 scan row.bytes) (k : String) :
    lastText utf8 scan key k (survivors utf8 scan key rows) =
      lastText utf8 scan key k (rows.map (·.bytes)) := by
  have hfold : lastFor (fun row => readKey utf8 scan key row.bytes) k
      (compactByKey (CopyRow.foldKey utf8 scan key)
        (rows.filter fun row => !row.isBlank utf8 scan)) =
        lastFor (fun row => readKey utf8 scan key row.bytes) k rows := by
    rw [lastFor_compactByKey, lastFor_filter]
    · intro row _ hkey
      -- a blank line has no key for a reader
      cases hblank : row.isBlank utf8 scan with
      | false => rfl
      | true =>
          rw [CopyRow.isBlank, Bool.and_eq_true, decide_eq_true_eq] at hblank
          rw [readKey, if_pos (by simp [hblank.2])] at hkey
          cases hkey
    · intro a b j ha hfold hfold'
      have hkeyed {row : CopyRow} (hrow : row.foldKey utf8 scan key = some j) :
          readKey utf8 scan key row.bytes = some j := by
        rw [CopyRow.foldKey] at hrow
        split at hrow
        · exact hrow
        · cases hrow
      rw [hkeyed hfold'] at *
      rw [← hkeyed hfold, ha]
  have hmem {row : CopyRow} (hrow : row ∈ compactByKey (CopyRow.foldKey utf8 scan key)
      (rows.filter fun row => !row.isBlank utf8 scan)) : row ∈ rows :=
    (List.mem_filter.mp ((compactByKey_sublist _ _).mem hrow)).1
  rw [lastText, lastText, survivors, lastFor_map_comp, lastFor_map_comp, ← hfold,
    lastFor_congr fun row hrow => (read_written key (h row (hmem hrow))).1]
  cases hlast : lastFor (fun row : CopyRow => readKey utf8 scan key row.bytes) k _ with
  | none => rfl
  | some row =>
      exact congrArg some (read_written key (h row (hmem (mem_of_lastFor hlast).1))).2

theorem lastText_append (k : String) (segs segs' : List Bytes) :
    lastText utf8 scan key k (segs ++ segs') =
      (lastText utf8 scan key k segs').or (lastText utf8 scan key k segs) := by
  rw [lastText, lastFor_append, Option.map_or]
  rfl

/-- A row without a key is written. -/
theorem written_keyless {rows : List CopyRow} {row : CopyRow} (hrow : row ∈ rows)
    (hkey : readKey utf8 scan key row.bytes = none) (hblank : row.isBlank utf8 scan = false) :
    row.written utf8 scan ∈ survivors utf8 scan key rows := by
  have hnone : row.foldKey utf8 scan key = none := by
    rw [CopyRow.foldKey, hkey, ite_self]
  refine List.mem_map_of_mem (mem_compactByKey_of_none ?_ hnone)
  exact List.mem_filter.mpr ⟨hrow, by rw [hblank]; rfl⟩

variable (utf8 scan) in
/-- A written row as the next run indexes it. -/
def CopyRow.again (row : CopyRow) : CopyRow :=
  ⟨row.written utf8 scan, true⟩

section Again

variable {row : CopyRow} (hindexed : row.indexed = true) (h : Regular utf8 scan row.bytes)

include hindexed h

theorem again_guarded : (row.again utf8 scan).guarded scan = row.guarded scan := by
  cases hguarded : row.guarded scan with
  | false =>
      rw [CopyRow.again, guarded_indexed, written_other hguarded]
      rwa [CopyRow.guarded, hindexed, Bool.true_and] at hguarded
  | true =>
      have hwithin := hguarded
      rw [CopyRow.guarded, hindexed, Bool.true_and, Bool.not_eq_true', decide_eq_false_iff_not]
        at hwithin
      rw [CopyRow.again, guarded_indexed, written_guarded hguarded]
      rcases h with hover | ⟨hroom, -⟩
      · exact absurd hover hwithin
      · simp [hroom]

theorem again_isBlank : (row.again utf8 scan).isBlank utf8 scan = row.isBlank utf8 scan := by
  have htext := (read_written (fun _ => none) fun _ => h).2
  rw [CopyRow.isBlank, again_guarded hindexed h, CopyRow.again, htext, CopyRow.isBlank]

theorem again_foldKey :
    (row.again utf8 scan).foldKey utf8 scan key = row.foldKey utf8 scan key := by
  rw [CopyRow.foldKey, CopyRow.foldKey, hindexed]
  exact (read_written key fun _ => h).1

theorem again_written : (row.again utf8 scan).written utf8 scan = row.written utf8 scan := by
  have htext := (read_written (fun _ => none) fun _ => h).2
  cases hguarded : row.guarded scan with
  | false => rw [written_other (by rw [again_guarded hindexed h, hguarded])]; rfl
  | true =>
      rw [written_guarded (by rw [again_guarded hindexed h, hguarded]), CopyRow.again, htext,
        written_guarded hguarded]

end Again

/-- What was written of regular lines is written again as it is. -/
theorem survivors_again {rows : List CopyRow} (hindexed : ∀ row ∈ rows, row.indexed = true)
    (h : ∀ row ∈ rows, Regular utf8 scan row.bytes) :
    survivors utf8 scan key (indexedRows (survivors utf8 scan key rows)) =
      survivors utf8 scan key rows := by
  have hmem {row : CopyRow} (hrow : row ∈ compactByKey (CopyRow.foldKey utf8 scan key)
      (rows.filter fun row => !row.isBlank utf8 scan)) :
      row ∈ rows ∧ row.isBlank utf8 scan = false := by
    obtain ⟨hrows, hblank⟩ := List.mem_filter.mp ((compactByKey_sublist _ _).mem hrow)
    exact ⟨hrows, by simpa using hblank⟩
  have hrows : indexedRows (survivors utf8 scan key rows) =
      (compactByKey (CopyRow.foldKey utf8 scan key)
        (rows.filter fun row => !row.isBlank utf8 scan)).map
        (CopyRow.again utf8 scan) := by
    rw [indexedRows, survivors, List.map_map]
    rfl
  have hsolid : (indexedRows (survivors utf8 scan key rows)).filter
      (fun row => !row.isBlank utf8 scan) = indexedRows (survivors utf8 scan key rows) := by
    rw [hrows, List.filter_eq_self]
    intro row hrow
    obtain ⟨row, hkept, rfl⟩ := List.mem_map.mp hrow
    obtain ⟨hold, hblank⟩ := hmem hkept
    rw [again_isBlank (hindexed row hold) (h row hold), hblank]
    rfl
  rw [survivors, hsolid, hrows, compactByKey_map, compactByKey_self, survivors, List.map_map]
  · refine List.map_congr_left fun row hrow => ?_
    exact again_written (hindexed row (hmem hrow).1) (h row (hmem hrow).1)
  · exact fun row hrow => again_foldKey (hindexed row (hmem hrow).1) (h row (hmem hrow).1)

/-- A run on a store to which nothing is appended. -/
def quiet (live : Bytes) : Surroundings where
  live := some live
  rounds _ := .publish
  reappeared := none
  late _ := []
  appended := []

theorem quiet_live {segs : List Bytes} (h : ∀ line ∈ segs, NEWLINE ∉ line) :
    (rewriteParked utf8 scan (lastIndexFilter key) (quiet (join NEWLINE segs))).map (·.live) =
      some (join NEWLINE (survivors utf8 scan key (indexedRows segs))) := by
  obtain ⟨hclosed, hopen⟩ := closedPart_join h
  have hrun : rewriteParked utf8 scan (lastIndexFilter key) (quiet (join NEWLINE segs)) =
      some (settleRun utf8 scan (lastIndexFilter key) (quiet (join NEWLINE segs))
        (indexCopy utf8 scan (lastIndexFilter key) ⟨[], (lastIndexFilter key).start, 0⟩
          (join NEWLINE segs)) true) := rfl
  have hrows : copyRows (join NEWLINE segs) [] = indexedRows segs := by
    rw [copyRows, hclosed, hopen]
    exact List.append_nil _
  have hlive := settleRun_live (quiet (join NEWLINE segs))
    (indexCopy_indexed (start_indexed utf8 scan key) (join NEWLINE segs)) true
  rw [hrun, Option.map_some, hlive, ← hrows]
  refine congrArg some ((List.append_nil _).trans ?_)
  exact congrArg (fun rows => join NEWLINE (survivors utf8 scan key rows)) (List.append_nil _)

theorem lines_live {around : Surroundings} {result : StoreRewriteResult}
    (h : rewriteParked utf8 scan (lastIndexFilter key) around = some result) :
    lines result.live =
      (if result.published then survivors utf8 scan key (result.rows around)
        else (result.rows around).map (·.bytes)) ++ lines around.appended := by
  have hfree := free_rows around.late 0 result.parked
  rw [rewriteParked_live h, lines_join]
  split
  · exact free_survivors hfree
  · intro line hline
    obtain ⟨row, hrow, rfl⟩ := List.mem_map.mp hline
    exact hfree row hrow

variable {filter : StoreLineFilter (String → Option ℕ)}

theorem indexCopy_keeps (s : Rewriting (String → Option ℕ)) (bytes : Bytes) :
    s.parked <+: (indexCopy utf8 scan filter s bytes).parked :=
  List.prefix_append _ _

theorem mergeRounds_keeps (around : Surroundings) (s : Rewriting (String → Option ℕ))
    (left : ℕ) : s.parked <+: (mergeRounds utf8 scan filter around s left).1.parked := by
  induction left generalizing s with
  | zero =>
      rw [mergeRounds]
      split <;> exact List.prefix_rfl
  | succ left ih =>
      rw [mergeRounds]
      split
      · exact List.prefix_rfl
      · exact (indexCopy_keeps s _).trans (ih _)
      · exact ih s

theorem settleRun_keeps (around : Surroundings) (s : Rewriting (String → Option ℕ))
    (published : Bool) : s.parked <+: (settleRun utf8 scan filter around s published).parked := by
  cases published with
  | true => exact List.prefix_rfl
  | false =>
      simp only [settleRun, Bool.false_eq_true, if_false]
      split
      · exact indexCopy_keeps s _
      · exact List.prefix_rfl

/-- The first copy is the store as it was. -/
theorem parked_head {around : Surroundings} {result : StoreRewriteResult}
    (h : rewriteParked utf8 scan filter around = some result) :
    result.parked.head?.map (·.bytes) = around.live := by
  obtain ⟨live, hlive, rfl⟩ := Option.map_eq_some_iff.mp h
  obtain ⟨merged, hmerged⟩ := (mergeRounds_keeps around
    (indexCopy utf8 scan filter ⟨[], filter.start, 0⟩ live) COMPACT_MAX_PARK_ATTEMPTS).trans
    (settleRun_keeps around _ _)
  rw [hlive, ← hmerged]
  rfl

/-- A compaction leaves, in their order, the last indexed line of each key, and every line without
a key that is not blank. The last record of each key is the one of the old content and what was
appended to it, and a store that was wholly indexed stays as it is when it is compacted again. -/
theorem compaction_preserves_fold (readNumber : List Char → Js.Number)
    (printNumber : Js.Number → String) (key : StoreKey) (around : Surroundings)
    (result : StoreRewriteResult)
    (h : compactStoreByKey utf8 scan readNumber printNumber key around = some result) :
    let recordKey := recordKey readNumber printNumber key
    let rows := result.rows around
    result.parked.head?.map (·.bytes) = around.live ∧
    lines result.live = (if result.published then survivors utf8 scan recordKey rows
      else rows.map (·.bytes)) ++ lines around.appended ∧
    (result.published = true → ∀ row ∈ rows, readKey utf8 scan recordKey row.bytes = none →
      row.isBlank utf8 scan = false → row.written utf8 scan ∈ lines result.live) ∧
    ((∀ row ∈ rows, row.indexed = true → Regular utf8 scan row.bytes) → ∀ k,
      lastText utf8 scan recordKey k (lines result.live) =
        lastText utf8 scan recordKey k (rows.map (·.bytes) ++ lines around.appended)) ∧
    (result.published = true → around.appended = [] →
      (∀ row ∈ rows, row.indexed = true ∧ Regular utf8 scan row.bytes) →
      (compactStoreByKey utf8 scan readNumber printNumber key (quiet result.live)).map (·.live) =
        some result.live) := by
  intro recordKey rows
  have hlines := lines_live h
  refine ⟨parked_head h, hlines, fun hpublished row hrow hkey hblank => ?_, fun hregular k => ?_,
    fun hpublished happended hregular => ?_⟩
  · rw [hlines, if_pos hpublished]
    exact List.mem_append_left _ (written_keyless hrow hkey hblank)
  · rw [hlines, lastText_append, lastText_append]
    split
    · rw [lastText_survivors hregular]
    · rfl
  · have hfree : ∀ line ∈ survivors utf8 scan recordKey rows, NEWLINE ∉ line :=
      free_survivors (free_rows around.late 0 result.parked)
    have hlive : result.live = join NEWLINE (survivors utf8 scan recordKey rows) := by
      have hrun := rewriteParked_live h
      rwa [if_pos hpublished, happended, List.append_nil] at hrun
    rw [hlive]
    refine (quiet_live hfree).trans (congrArg (fun segs => some (join NEWLINE segs)) ?_)
    exact survivors_again (fun row hrow => (hregular row hrow).1)
      fun row hrow => (hregular row hrow).2

end Fold

section Plain

theorem newline_mem_encode {c : Char} : NEWLINE ∈ String.utf8EncodeChar c ↔ c = '\n' := by
  have hbyte (n : ℕ) : NEWLINE = UInt8.ofNat n ↔ n % 256 = 10 := by
    rw [← UInt8.toNat_inj, UInt8.toNat_ofNat', eq_comm]
    rfl
  have hchar : c = '\n' ↔ c.val.toNat = 10 := by
    rw [← Char.toNat_inj]
    rfl
  rw [hchar, String.utf8EncodeChar]
  split_ifs <;> simp only [List.mem_cons, List.not_mem_nil, hbyte, or_false] <;> omega

/-- Bytes that are no text decode to one replacement character. -/
def plainUtf8 : Utf8 where
  decode b := (String.fromUTF8? ⟨b.toArray⟩).getD "\uFFFD"
  encode s := s.toList.flatMap String.utf8EncodeChar
  decode_encode s := by
    have hbytes : (⟨(s.toList.flatMap String.utf8EncodeChar).toArray⟩ : ByteArray) =
        s.toByteArray := by
      rw [← String.utf8Encode_toList, List.utf8Encode]
      ext1
      exact List.data_toByteArray.symm
    rw [hbytes, String.fromUTF8?, dif_pos s.isValidUTF8]
    rfl
  decode_line b h := by
    rw [String.fromUTF8?]
    split
    · rename_i hvalid
      intro hmem
      have hdata := congrArg (fun bytes => bytes.data.toList)
        (String.utf8Encode_toList (b := String.fromUTF8 ⟨b.toArray⟩ hvalid))
      rw [List.utf8Encode, List.data_toByteArray] at hdata
      refine h ?_
      rw [show b = (String.fromUTF8 ⟨b.toArray⟩ hvalid).toList.flatMap String.utf8EncodeChar
        from hdata.symm]
      exact List.mem_flatMap.mpr ⟨_, hmem, newline_mem_encode.mpr rfl⟩
    · decide
  encode_line s h := by
    intro hmem
    obtain ⟨c, hc, hbyte⟩ := List.mem_flatMap.mp hmem
    exact h (newline_mem_encode.mp hbyte ▸ hc)

instance (bytes : Bytes) : Decidable (Regular utf8 scan bytes) :=
  inferInstanceAs (Decidable (_ ∨ _))

def wideScan : ResolvedScan := ⟨4, 64, by decide, by decide⟩

def twoRecords : Bytes :=
  plainUtf8.encode "\x7b\"k\":\"a\",\"v\":\"b\"\x7d\n?\n\x7b\"k\":\"a\"\x7d\n"

/-- A compaction under the field `k` of a store without numerals. -/
def compactPlain (live : Bytes) : Option StoreRewriteResult :=
  compactStoreByKey plainUtf8 wideScan (fun _ => .finite .zero) (fun _ => "0") (.field "k")
    (quiet live)

theorem compaction_preserves_fold_two : ∃ result, compactPlain twoRecords = some result ∧
    lines result.live = [plainUtf8.encode "?", plainUtf8.encode "\x7b\"k\":\"a\"\x7d"] ∧
    plainUtf8.encode "?" ∈ lines result.live ∧
    lastText plainUtf8 wideScan (recordKey (fun _ => .finite .zero) (fun _ => "0") (.field "k")) "a"
      (lines result.live) = some "\x7b\"k\":\"a\"\x7d" ∧
    (compactPlain result.live).map (·.live) = some result.live := by
  refine ⟨_, rfl, ?_⟩
  obtain ⟨-, hlines, hkeyless, hfold, hagain⟩ := compaction_preserves_fold
    (fun _ => .finite .zero) (fun _ => "0") (.field "k") (quiet twoRecords) _
    (rfl : compactPlain twoRecords = some _)
  have hregular : ∀ row ∈ copyRows twoRecords [],
      row.indexed = true ∧ Regular plainUtf8 wideScan row.bytes := by
    decide +kernel
  refine ⟨hlines.trans (by decide +kernel), ?_, (hfold (fun row hrow _ => ?_) "a").trans ?_,
    hagain rfl rfl fun row hrow => ?_⟩
  · exact hkeyless rfl ⟨plainUtf8.encode "?", true⟩ (by decide +kernel) (by decide +kernel)
      (by decide +kernel)
  · exact (hregular row (List.append_nil (copyRows twoRecords []) ▸ hrow)).2
  · decide +kernel
  · exact hregular row (List.append_nil (copyRows twoRecords []) ▸ hrow)

/-- A line that ends in a carriage return is written without it, and of two records the last of
which was not terminated a second run keeps one. -/
theorem compaction_rewrites_line :
    (¬ ∀ live result, compactPlain live = some result → ∀ line ∈ lines live,
      recordKey (fun _ => .finite .zero) (fun _ => "0") (.field "k") (lineText plainUtf8 line) =
        none → line ∈ lines result.live) ∧
    ¬ ∀ live result, compactPlain live = some result →
      (compactPlain result.live).map (·.live) = some result.live := by
  constructor
  · intro h
    have hline := h (plainUtf8.encode "?\r\n") _ rfl (plainUtf8.encode "?\r")
      (by decide +kernel) (by decide +kernel)
    revert hline
    decide +kernel
  · intro h
    have hagain := h (plainUtf8.encode
      "\x7b\"k\":\"a\"\x7d\n\x7b\"k\":\"a\"\x7d") _ rfl
    revert hagain
    decide +kernel

end Plain

end Kyberion.Store
