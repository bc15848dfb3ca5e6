import Kyberion.Js.JsonNesting
import Kyberion.Pipeline.DirtyJson

/-!
An array or an object in prose is found and read. The loop that cuts a block out
keeps the stack of the closers for which the reader of the block waits.
-/

namespace Kyberion.Pipeline

open Js (Json Reader Awaiting isWhiteSpace isJsonSpace crlfToLf parseSafeJsonInput)

variable {readNumber : List Char → Js.Number}

section Cut

/-- What the loop knows of a string that the reader is in. -/
def quotingOf (s : Reader) : Quoting :=
  if s.inText then ⟨true, s.isEscaped, some '"'⟩ else {}

def blockRest (s : Reader) (rest : List Char) : ℕ :=
  blockEnd (quotingOf s) s.awaiting.closers rest

theorem quotingOf_outside {s : Reader} (h : s.inText = false) : quotingOf s = {} := by
  rw [quotingOf, h, if_neg (by decide)]

theorem quotingOf_within {s : Reader} (h : s.inText = true) :
    quotingOf s = ⟨true, s.isEscaped, some '"'⟩ := by
  rw [quotingOf, h, if_pos rfl]

/-- The character ends the block. -/
def Ends (s t : Reader) (c : Char) : Prop :=
  (c = ']' ∨ c = RBRACE) ∧ (∃ v, t = ⟨.plain, ⟨[], .done v⟩⟩) ∧
    ∀ rest, blockRest s (c :: rest) = 1

/-- The block goes on behind the character. -/
def GoesOn (s t : Reader) (c : Char) : Prop :=
  t.awaiting.closers ≠ [] ∧ ∀ rest, blockRest s (c :: rest) = blockRest t rest + 1

theorem cut_within {s t : Reader} {c : Char} (hs : s.inText = true)
    (hopen : s.awaiting.closers ≠ []) (h : Js.Within c s t) : GoesOn s t c := by
  have hrest (rest : List Char) : blockRest s (c :: rest) =
      blockEnd ((⟨true, s.isEscaped, some '"'⟩ : Quoting).inside c) s.awaiting.closers rest +
        1 := by
    rw [blockRest, quotingOf_within hs]
    exact if_pos rfl
  cases h with
  | escaped hescaped ht hplain ha =>
      refine ⟨ha ▸ hopen, fun rest => ?_⟩
      rw [hrest, blockRest, quotingOf_within ht, ha, hescaped, hplain]
      rfl
  | escape hplain hc ht hescaped ha =>
      refine ⟨ha ▸ hopen, fun rest => ?_⟩
      rw [hrest, blockRest, quotingOf_within ht, ha, hescaped, hplain, hc]
      rfl
  | close hplain hc ht ha =>
      refine ⟨ha ▸ hopen, fun rest => ?_⟩
      rw [hrest, blockRest, quotingOf_outside ht, ha, hplain, hc]
      rfl
  | stay hplain hslash hquote ht ht' ha =>
      refine ⟨ha ▸ hopen, fun rest => ?_⟩
      rw [hrest, blockRest, quotingOf_within ht, ha, hplain, ht']
      simp only [Quoting.inside, Bool.false_eq_true, if_false, if_neg hslash, Option.some.injEq,
        if_neg (Ne.symm hquote)]

theorem blockEnd_other {c : Char} {stack rest : List Char}
    (hc : c ∉ ['[', ']', '\x7b', '\x7d', '"', '\'']) :
    blockEnd {} stack (c :: rest) = blockEnd {} stack rest + 1 := by
  simp only [List.mem_cons, List.not_mem_nil, or_false, not_or] at hc
  obtain ⟨hsquare, hclose, hcurly, hend, hdouble, hsingle⟩ := hc
  simp [blockEnd, isQuote, LBRACE, RBRACE, hsquare, hclose, hcurly, hend, hdouble, hsingle]

theorem cut_outside {s t : Reader} {c : Char} (hs : s.inText = false)
    (hopen : s.awaiting.closers ≠ []) (h : Js.Outside c s.awaiting.closers t) :
    GoesOn s t c ∨ Ends s t c := by
  have hrest (rest : List Char) :
      blockRest s (c :: rest) = blockEnd {} s.awaiting.closers (c :: rest) := by
    rw [blockRest, quotingOf_outside hs]
  cases h with
  | quote hc ha =>
      refine .inl ⟨ha ▸ hopen, fun rest => ?_⟩
      rw [hrest, blockRest, ha, hc]
      rfl
  | stay hc ht ha =>
      refine .inl ⟨ha ▸ hopen, fun rest => ?_⟩
      rw [hrest, blockRest, quotingOf_outside ht, ha, blockEnd_other hc]
  | plain hnests =>
      cases hnests with
      | square hc ha =>
          refine .inl ⟨by simp [ha], fun rest => ?_⟩
          rw [hrest, blockRest, ha, hc]
          rfl
      | curly hc ha =>
          refine .inl ⟨by simp [ha], fun rest => ?_⟩
          rw [hrest, blockRest, ha, hc]
          rfl
      | stay hc ha =>
          refine .inl ⟨ha ▸ hopen, fun rest => ?_⟩
          rw [hrest, blockRest, ha, blockEnd_other hc]
          rfl
      | @close frames v hc hstack =>
          have hclose (rest : List Char) :
              blockEnd {} (c :: frames.map Js.Frame.closer) (c :: rest) =
              if frames.map Js.Frame.closer = [] then 1
              else blockEnd {} (frames.map Js.Frame.closer) rest + 1 := by
            rcases hc with rfl | rfl <;> simp [blockEnd, isQuote, LBRACE, RBRACE]
          cases frames with
          | nil =>
              refine .inr ⟨hc, ⟨v, rfl⟩, fun rest => ?_⟩
              rw [hrest, hstack, hclose]
              rfl
          | cons frame frames =>
              refine .inl ⟨?_, fun rest => ?_⟩
              · simp [Js.closers_complete]
              · rw [hrest, hstack, hclose, if_neg (by simp), blockRest, Js.closers_complete]
                rfl

theorem cut_step {s t : Reader} {c : Char} (hopen : s.awaiting.closers ≠ [])
    (h : Reader.step readNumber s c = some t) : GoesOn s t c ∨ Ends s t c := by
  cases hs : s.inText with
  | true => exact .inl (cut_within hs hopen (Js.within_step h hs))
  | false => exact cut_outside hs hopen (Js.outside_step h hs)

/-- The block is cut off where the reader has all of its value. -/
theorem cut_read {cs : List Char} {s : Reader} {v : Json} (hopen : s.awaiting.closers ≠ [])
    (h : (cs.foldlM (Reader.step readNumber) s).bind (Reader.finish readNumber) = some v) :
    ∃ body last trail, cs = body ++ last :: trail ∧ (last = ']' ∨ last = RBRACE) ∧
      (∀ c ∈ trail, isJsonSpace c = true) ∧
      (body ++ [last]).foldlM (Reader.step readNumber) s = some ⟨.plain, ⟨[], .done v⟩⟩ ∧
      ∀ rest, blockRest s (body ++ last :: rest) = body.length + 1 := by
  induction cs generalizing s with
  | nil =>
      -- what is open is not finished
      have hend : s.AtEnd := Js.atEnd_of_finish h
      obtain ⟨mode, frames, expect⟩ := s
      cases mode with
      | plain => cases expect <;> first | exact absurd rfl hopen | cases hend
      | number chars =>
          obtain ⟨rfl, rfl⟩ := hend
          exact absurd rfl hopen
      | word _ _ | text _ | escape _ | hex _ _ _ | high _ _ | highEscape _ _ => cases hend
  | cons c cs ih =>
      obtain ⟨t, hread, hfinish⟩ := Option.bind_eq_some_iff.mp h
      rw [List.foldlM_cons] at hread
      obtain ⟨next, hnext, hrest⟩ := Option.bind_eq_some_iff.mp hread
      rcases cut_step hopen hnext with ⟨hmore, hcount⟩ | ⟨hc, ⟨w, rfl⟩, hcount⟩
      · obtain ⟨body, last, trail, rfl, hlast, htrail, hdone, hall⟩ :=
          ih hmore (Option.bind_eq_some_iff.mpr ⟨t, hrest, hfinish⟩)
        refine ⟨c :: body, last, trail, rfl, hlast, htrail, ?_, fun rest => ?_⟩
        · rw [List.cons_append, Js.read_cons hnext, hdone]
        · rw [List.cons_append, hcount, hall, List.length_cons]
      · obtain ⟨hspaces, rfl⟩ := Js.read_done hrest
        obtain rfl : w = v := Option.some.inj hfinish
        refine ⟨[], c, cs, rfl, hc, hspaces, ?_, hcount⟩
        rw [List.nil_append, Js.read_cons hnext]
        rfl

end Cut

section Normal

theorem crlfToLf_append {c : Char} (hreturn : c ≠ '\r') (hbreak : c ≠ '\n') (cs rest : List Char) :
    crlfToLf (cs ++ c :: rest) = crlfToLf cs ++ c :: crlfToLf rest := by
  have hsolid : crlfToLf (c :: rest) = c :: crlfToLf rest := by
    rw [crlfToLf]
    rintro rest' rfl
    exact absurd rfl hreturn
  fun_induction crlfToLf cs with
  | case1 cs ih => rw [List.cons_append, List.cons_append, crlfToLf, ih, List.cons_append]
  | case2 first cs hne ih =>
      rw [List.cons_append, crlfToLf, ih, List.cons_append]
      intro rest' hfirst hcs
      cases cs with
      | nil => exact hbreak (List.cons.inj hcs).1
      | cons second cs => exact hne cs hfirst (congrArg (· :: cs) (List.cons.inj hcs).1)
  | case3 => exact hsolid

theorem mem_crlfToLf {c : Char} {cs : List Char} (h : c ∈ crlfToLf cs) : c ∈ cs := by
  fun_induction crlfToLf cs with
  | case1 cs ih =>
      rcases List.mem_cons.mp h with rfl | hmem
      · simp
      · exact List.mem_cons_of_mem _ (List.mem_cons_of_mem _ (ih hmem))
  | case2 first cs _ ih =>
      rcases List.mem_cons.mp h with rfl | hmem
      · exact List.mem_cons_self
      · exact List.mem_cons_of_mem _ (ih hmem)
  | case3 => exact h

theorem trimmed_eq (cs : List Char) :
    trimmed cs = (cs.dropWhile isWhiteSpace).rdropWhile isWhiteSpace := by
  rw [trimmed, Js.trim, String.toList_ofList, String.toList_ofList]

theorem dropWhile_solid {p : Char → Bool} {c : Char} (hc : p c = false) (cs rest : List Char) :
    (cs ++ c :: rest).dropWhile p = cs.dropWhile p ++ c :: rest := by
  rw [List.dropWhile_append]
  split
  · rename_i hempty
    rw [List.isEmpty_iff.mp hempty, List.dropWhile_cons_of_neg (by simp [hc]), List.nil_append]
  · rfl

theorem rdropWhile_solid {p : Char → Bool} {c : Char} (hc : p c = false) (cs rest : List Char) :
    (cs ++ c :: rest).rdropWhile p = cs ++ c :: rest.rdropWhile p := by
  rw [List.rdropWhile, List.reverse_append, List.reverse_cons, List.append_assoc,
    List.singleton_append, dropWhile_solid hc, List.reverse_append, List.reverse_cons,
    List.reverse_reverse, List.append_assoc, List.singleton_append, List.rdropWhile]

/-- What stands around a block loses its outer white space. -/
theorem trimmed_block {first last : Char} (hfirst : isWhiteSpace first = false)
    (hlast : isWhiteSpace last = false) (front body rest : List Char) :
    trimmed (front ++ first :: (body ++ last :: rest)) =
      front.dropWhile isWhiteSpace ++ first :: (body ++ last :: rest.rdropWhile isWhiteSpace) := by
  have hsplit (front : List Char) : front ++ first :: (body ++ last :: rest) =
      (front ++ first :: body) ++ last :: rest := by
    rw [List.append_assoc, List.cons_append]
  rw [trimmed_eq, dropWhile_solid hfirst, hsplit, rdropWhile_solid hlast, List.append_assoc,
    List.cons_append]

theorem isWhiteSpace_of_isJsonSpace {c : Char} (h : isJsonSpace c = true) :
    isWhiteSpace c = true := by
  simp only [isJsonSpace, Bool.or_eq_true, decide_eq_true_eq] at h
  rcases h with ((rfl | rfl) | rfl) | rfl <;> decide

end Normal

section Prose

/-- None of the characters with which a block may start. -/
def startsNoBlock (c : Char) : Bool :=
  !([LBRACE, '[', '"', '\''].contains c)

theorem idxOf?_behind {front : List Char} {c : Char} (h : c ∉ front) (rest : List Char) :
    (front ++ rest).idxOf? c = (rest.idxOf? c).map (· + front.length) := by
  induction front with
  | nil => simp
  | cons first front ih =>
      rw [List.mem_cons, not_or] at h
      rw [List.cons_append, List.idxOf?_cons, if_neg (by simpa using Ne.symm h.1), ih h.2,
        Option.map_map]
      rfl

theorem findJsonStart_prose {front rest : List Char} {first : Char}
    (hfront : ∀ c ∈ front, startsNoBlock c = true) (hfirst : first = '[' ∨ first = LBRACE) :
    findJsonStart (front ++ first :: rest) = some front.length := by
  rw [findJsonStart, List.min?_eq_some_iff]
  have hnot {c : Char} (hc : c ∈ [LBRACE, '[', '"', '\'']) : c ∉ front := by
    intro hmem
    have hno := hfront c hmem
    rw [startsNoBlock, List.contains_eq_mem, decide_eq_true hc] at hno
    cases hno
  have hmem : first ∈ [LBRACE, '[', '"', '\''] := by
    rcases hfirst with rfl | rfl <;> decide
  constructor
  · refine List.mem_filterMap.mpr ⟨first, hmem, ?_⟩
    rw [idxOf?_behind (hnot hmem), List.idxOf?_cons, if_pos (by simp), Option.map_some,
      Nat.zero_add]
  · intro i hi
    obtain ⟨c, hc, hindex⟩ := List.mem_filterMap.mp hi
    rw [idxOf?_behind (hnot hc)] at hindex
    obtain ⟨j, -, rfl⟩ := Option.map_eq_some_iff.mp hindex
    exact Nat.le_add_left _ _

/-- An array or an object between its brackets, as the reader takes it. -/
structure Block (readNumber : List Char → Js.Number) (v : Json) (first : Char) (body : List Char)
    (last : Char) : Prop where
  opens : first = '[' ∨ first = LBRACE
  closes : last = ']' ∨ last = RBRACE
  read : (first :: (body ++ [last])).foldlM (Reader.step readNumber) .start =
    some ⟨.plain, ⟨[], .done v⟩⟩

variable {v : Json} {first last : Char} {body : List Char}

theorem Block.first_solid (h : Block readNumber v first body last) :
    isWhiteSpace first = false := by
  rcases h.opens with rfl | rfl <;> decide

theorem Block.last_solid (h : Block readNumber v first body last) :
    isWhiteSpace last = false := by
  rcases h.closes with rfl | rfl <;> decide

theorem Block.parse (h : Block readNumber v first body last) :
    Js.parse readNumber (first :: (body ++ [last])) = some v := by
  rw [Js.parse, h.read]
  rfl

variable (readNumber) in
/-- The opening bracket is the first step of the reader and of the loop. -/
theorem opening {a : Awaiting}
    (h : first = '[' ∧ a = ⟨[], .firstItem⟩ ∨ first = LBRACE ∧ a = ⟨[], .firstKey⟩) :
    (first = '[' ∨ first = LBRACE) ∧
      Reader.step readNumber .start first = some ⟨.plain, a⟩ ∧ a.closers ≠ [] ∧
      ∀ rest, blockEnd {} [] (first :: rest) = blockRest ⟨.plain, a⟩ rest + 1 := by
  rcases h with ⟨rfl, rfl⟩ | ⟨rfl, rfl⟩
  · exact ⟨.inl rfl, rfl, by simp [Awaiting.closers], fun _ => rfl⟩
  · exact ⟨.inr rfl, rfl, by simp [Awaiting.closers], fun _ => rfl⟩

/-- Every text of an array or an object is a block in white space. -/
theorem block_of_parse {cs : List Char} (hparse : Js.parse readNumber cs = some v)
    (hv : v.isBlock = true) :
    ∃ lead first body last trail, cs = lead ++ first :: (body ++ last :: trail) ∧
      (∀ c ∈ lead, isJsonSpace c = true) ∧ Block readNumber v first body last := by
  obtain ⟨lead, first, rest, a, rfl, hlead, hopens, hread⟩ := Js.block_starts hparse hv
  obtain ⟨hfirst, hstep, hopen, -⟩ := opening readNumber hopens
  obtain ⟨body, last, trail, rfl, hlast, -, hdone, -⟩ := cut_read hopen hread
  exact ⟨lead, first, body, last, trail, rfl, hlead, hfirst, hlast, by
    rw [Js.read_cons hstep, hdone]⟩

/-- The loop cuts the block off behind its last bracket. -/
theorem Block.cut (h : Block readNumber v first body last) (rest : List Char) :
    blockEnd {} [] (first :: (body ++ last :: rest)) = body.length + 2 := by
  have hbracket : ∃ a : Awaiting, first = '[' ∧ a = ⟨[], .firstItem⟩ ∨
      first = LBRACE ∧ a = ⟨[], .firstKey⟩ := by
    rcases h.opens with hsquare | hcurly
    · exact ⟨_, .inl ⟨hsquare, rfl⟩⟩
    · exact ⟨_, .inr ⟨hcurly, rfl⟩⟩
  obtain ⟨a, ha⟩ := hbracket
  obtain ⟨-, hstep, hopen, hcount⟩ := opening readNumber ha
  have hread := h.read
  rw [Js.read_cons hstep] at hread
  have hfinish : ((body ++ [last]).foldlM (Reader.step readNumber) ⟨.plain, a⟩).bind
      (Reader.finish readNumber) = some v := by
    rw [hread]
    rfl
  obtain ⟨body', last', trail, hsplit, -, htrail, -, hall⟩ := cut_read hopen hfinish
  obtain rfl | ⟨init, c, rfl⟩ := List.eq_nil_or_concat' trail
  swap
  · -- the last bracket is no white space
    rw [← List.cons_append, ← List.append_assoc] at hsplit
    obtain ⟨-, hlast⟩ := List.append_inj' hsplit rfl
    obtain rfl := (List.cons.inj hlast).1
    have hspace := isWhiteSpace_of_isJsonSpace (htrail last (by simp))
    cases h.last_solid.symm.trans hspace
  obtain ⟨rfl, hlast⟩ := List.append_inj' hsplit rfl
  obtain rfl := (List.cons.inj hlast).1
  rw [hcount, hall]

/-- The spelling of the line breaks in a block is free. -/
theorem Block.crlfToLf (h : Block readNumber v first body last) :
    Block readNumber v first (crlfToLf body) last where
  opens := h.opens
  closes := h.closes
  read := by
    have hreturn : last ≠ '\r' := by rcases h.closes with rfl | rfl <;> decide
    have hbreak : last ≠ '\n' := by rcases h.closes with rfl | rfl <;> decide
    have hfirst : first ≠ '\r' := by rcases h.opens with rfl | rfl <;> decide
    have hfirst' : first ≠ '\n' := by rcases h.opens with rfl | rfl <;> decide
    have hread := Js.read_crlfToLf h.read
    rw [← List.nil_append (first :: _), crlfToLf_append hfirst hfirst',
      crlfToLf_append hreturn hbreak] at hread
    exact hread

theorem parseSafe_block (h : Block readNumber v first body last)
    (hsafe : v.isSafeJsonValue = true) :
    parseSafeJsonInput readNumber (first :: (body ++ [last])) = some v := by
  rw [parseSafeJsonInput, h.parse, Option.filter_some, if_pos hsafe]

/-- A text with a block is parsed at once to its value, or is no JSON. -/
theorem parse_around {front : List Char} (h : Block readNumber v first body last)
    (hfront : ∀ c ∈ front, startsNoBlock c = true)
    (htrimmed : front = [] ∨ ∃ c ∈ front, isJsonSpace c = false) (rest : List Char) :
    Js.parse readNumber (front ++ first :: (body ++ last :: rest)) = some v ∨
      Js.parse readNumber (front ++ first :: (body ++ last :: rest)) = none := by
  rcases htrimmed with rfl | hprose
  · have hsplit : first :: (body ++ last :: rest) = (first :: (body ++ [last])) ++ rest := by simp
    rw [List.nil_append, hsplit, Js.parse, Js.read_append h.read]
    cases hrest : rest.foldlM (Reader.step readNumber) ⟨.plain, ⟨[], .done v⟩⟩ with
    | none => exact .inr rfl
    | some t =>
        obtain ⟨-, rfl⟩ := Js.read_done hrest
        exact .inl rfl
  · have hwords : ∀ c ∈ front, c ≠ '[' ∧ c ≠ '\x7b' ∧ c ≠ '"' := by
      intro c hc
      have hno := hfront c hc
      refine ⟨?_, ?_, ?_⟩ <;> rintro rfl <;> cases hno
    rw [Js.parse, Js.read_prose hwords hprose h.opens]
    exact .inr rfl

theorem extract_block {front rest : List Char} (h : Block readNumber v first body last)
    (hfront : ∀ c ∈ front, startsNoBlock c = true) :
    extractJsonBlock (front ++ first :: (body ++ last :: rest)) =
      some (first :: (body ++ [last])) := by
  have htake : (first :: (body ++ last :: rest)).take (body.length + 2) =
      first :: (body ++ [last]) := by
    rw [List.take_succ_cons, List.take_length_add_append]
    rfl
  have hsame := trimmed_block h.first_solid h.last_solid [] body []
  simp only [extractJsonBlock, findJsonStart_prose hfront h.opens, Option.map_some,
    List.drop_left, h.cut, htake]
  exact congrArg some hsame

/-- The block itself is the first candidate. -/
theorem candidate_block (toLowerCase : String → String) (h : Block readNumber v first body last)
    (hsafe : v.isSafeJsonValue = true) :
    (buildCandidates toLowerCase (first :: (body ++ [last]))).findSome?
      (parseSafeJsonInput readNumber) = some v := by
  rw [buildCandidates, List.filter_cons_of_pos (by simp), List.eraseDups_cons,
    List.findSome?_cons_of_isSome]
  · exact parseSafe_block h hsafe
  · rw [parseSafe_block h hsafe]
    rfl

/-- What normalization leaves of a text with a block. -/
theorem normalizeText_block {front rest : List Char} (h : Block readNumber v first body last)
    (hfront : ∀ c ∈ front, startsNoBlock c = true) :
    ∃ front' rest', normalizeText (front ++ first :: (body ++ last :: rest)) =
        front' ++ first :: (crlfToLf body ++ last :: rest') ∧
      (∀ c ∈ front', startsNoBlock c = true) ∧
      (front' = [] ∨ ∃ c ∈ front', isJsonSpace c = false) := by
  have hline {c : Char} (hc : isWhiteSpace c = false) : c ≠ '\r' ∧ c ≠ '\n' := by
    constructor <;> rintro rfl <;> cases hc
  obtain ⟨hreturn, hbreak⟩ := hline h.first_solid
  obtain ⟨hreturn', hbreak'⟩ := hline h.last_solid
  -- a byte order mark is in front of the block
  obtain ⟨words, hwords, hmark⟩ : ∃ words : List Char, (∀ c ∈ words, c ∈ front) ∧
      (if (front ++ first :: (body ++ last :: rest)).head? = some '\uFEFF' then
        (front ++ first :: (body ++ last :: rest)).tail
        else front ++ first :: (body ++ last :: rest)) =
      words ++ first :: (body ++ last :: rest) := by
    cases front with
    | nil =>
        refine ⟨[], fun _ hmem => hmem, if_neg ?_⟩
        intro hmark
        obtain rfl : first = '\uFEFF' := Option.some.inj hmark
        cases h.first_solid
    | cons c front =>
        split
        · exact ⟨front, fun _ hmem => List.mem_cons_of_mem _ hmem, rfl⟩
        · exact ⟨c :: front, fun _ hmem => hmem, rfl⟩
  have hmem {c : Char} (hc : c ∈ (crlfToLf words).dropWhile isWhiteSpace) : c ∈ front :=
    hwords c (mem_crlfToLf ((List.dropWhile_sublist _).mem hc))
  refine ⟨(crlfToLf words).dropWhile isWhiteSpace, (crlfToLf rest).rdropWhile isWhiteSpace, ?_,
    fun c hc => hfront c (hmem hc), ?_⟩
  · rw [normalizeText, hmark, crlfToLf_append hreturn hbreak, crlfToLf_append hreturn' hbreak',
      trimmed_block h.first_solid h.last_solid]
  · cases hdrop : (crlfToLf words).dropWhile isWhiteSpace with
    | nil => exact .inl rfl
    | cons c cs =>
        refine .inr ⟨c, List.mem_cons_self, ?_⟩
        have hsolid := List.head?_dropWhile_not isWhiteSpace (crlfToLf words)
        rw [hdrop] at hsolid
        by_contra hspace
        have hwhite := isWhiteSpace_of_isJsonSpace (Bool.not_eq_false _ ▸ hspace)
        simp [hwhite] at hsolid

/-- An array or an object with safe keys is found behind prose without the characters that start
a block, whatever prose comes after it, and its value is returned. -/
theorem dirty_json_in_prose (toLowerCase : String → String) (front text back : String)
    (hparse : Js.parse readNumber text.toList = some v) (hv : v.isBlock = true)
    (hsafe : v.isSafeJsonValue = true) (hfront : ∀ c ∈ front.toList, startsNoBlock c = true)
    (hlength : Js.utf16Length (front ++ text ++ back) ≤ DIRTY_JSON_MAX_INPUT_CHARS) :
    parseDirtyJson readNumber toLowerCase (front ++ text ++ back) = .ok v := by
  obtain ⟨lead, first, body, last, trail, htext, hlead, hblock⟩ := block_of_parse hparse hv
  have hchars : (front ++ text ++ back).toList =
      (front.toList ++ lead) ++ first :: (body ++ last :: (trail ++ back.toList)) := by
    rw [String.toList_append, String.toList_append, htext]
    simp
  have hwords : ∀ c ∈ front.toList ++ lead, startsNoBlock c = true := by
    intro c hc
    rcases List.mem_append.mp hc with hmem | hmem
    · exact hfront c hmem
    · have hspace := hlead c hmem
      simp only [isJsonSpace, Bool.or_eq_true, decide_eq_true_eq] at hspace
      rcases hspace with ((rfl | rfl) | rfl) | rfl <;> rfl
  have hfilled : Js.isBlank (front ++ text ++ back) = false := by
    rw [Js.isBlank, decide_eq_false_iff_not]
    intro hblank
    have hnone := congrArg String.toList hblank
    have hkept := trimmed_block hblock.first_solid hblock.last_solid (front.toList ++ lead) body
      (trail ++ back.toList)
    rw [← hchars, trimmed, String.ofList_toList, hnone] at hkept
    simp at hkept
  obtain ⟨front', rest', hnormal, hfront', htrimmed⟩ := normalizeText_block hblock hwords
  rw [← hchars] at hnormal
  have hbody := hblock.crlfToLf
  rw [parseDirtyJson, hfilled, if_neg (by decide), if_neg (Nat.not_lt.mpr hlength), hnormal]
  dsimp only
  rw [parseSafeJsonInput]
  rcases parse_around hbody hfront' htrimmed rest' with hstrict | hstrict
  · rw [hstrict, Option.filter_some, if_pos hsafe]
  · rw [hstrict, extract_block hbody hfront']
    dsimp only [Option.filter_none]
    rw [candidate_block toLowerCase hbody hsafe]

/-- The result is an array or an object. -/
def DirtyJsonParseResult.isBlock : DirtyJsonParseResult → Bool
  | .ok value => value.isBlock
  | .error _ => false

/-- A numeral read as zero. -/
def zeroNumber (_ : List Char) : Js.Number :=
  .finite .zero

theorem dirty_json_in_prose_fenced :
    parseDirtyJson zeroNumber id ("Plan:\n" ++ "[\"it's\", \x7b\x7d]\r\n" ++ "Don't \x7b wait") =
      .ok (.arr [.str "it's", .obj []]) :=
  dirty_json_in_prose id _ _ _ rfl rfl (by decide +kernel)
    (List.all_eq_true.mp (by decide +kernel)) (by decide +kernel)

/-- An apostrophe in the prose starts a block of its own, and a long text is refused. -/
theorem apostrophe_hides_block :
    ¬ ∀ (front text back : String) (v : Json), Js.parse zeroNumber text.toList = some v →
      v.isBlock = true → v.isSafeJsonValue = true →
      (∀ c ∈ front.toList, c ≠ LBRACE ∧ c ≠ '[' ∧ c ≠ '"') →
      parseDirtyJson zeroNumber id (front ++ text ++ back) = .ok v := by
  intro h
  have hprose : ∀ c ∈ "It's: ".toList, (c != LBRACE && c != '[' && c != '"') = true :=
    List.all_eq_true.mp (by decide +kernel)
  have hresult := h "It's: " "[]" "" (.arr []) rfl rfl rfl fun c hc => by
    simpa [and_assoc] using hprose c hc
  have hshape := congrArg DirtyJsonParseResult.isBlock hresult
  revert hshape
  decide +kernel

end Prose

end Kyberion.Pipeline
