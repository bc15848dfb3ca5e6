import Kyberion.Js.JsonParse

/-!
What is printed is read back, for values without numbers and without repeated keys. A read text
goes on with white space only, and no text has a `<` behind a line break.
-/

namespace Kyberion.Js

namespace Json

mutual

/-- No number, and no object with a key twice. -/
def plain : Json → Bool
  | .num _ => false
  | .arr items => plainItems items
  | .obj fields => (fields.map Prod.fst).Nodup && plainFields fields
  | _ => true

def plainItems : List Json → Bool
  | [] => true
  | v :: items => v.plain && plainItems items

def plainFields : List (String × Json) → Bool
  | [] => true
  | (_, v) :: fields => v.plain && plainFields fields

end

end Json

variable {readNumber : List Char → Number}

section RoundTrip

theorem read_cons {s t : Reader} {c : Char} {rest : List Char}
    (h : Reader.step readNumber s c = some t) :
    (c :: rest).foldlM (Reader.step readNumber) s = rest.foldlM (Reader.step readNumber) t := by
  rw [List.foldlM_cons, h, Option.bind_eq_bind, Option.bind_some]

theorem read_append {s t : Reader} {cs rest : List Char}
    (h : cs.foldlM (Reader.step readNumber) s = some t) :
    (cs ++ rest).foldlM (Reader.step readNumber) s = rest.foldlM (Reader.step readNumber) t := by
  rw [List.foldlM_append, h, Option.bind_eq_bind, Option.bind_some]

private theorem read_escaped_control (n : Fin 32) (a : Awaiting) (chars : List Char) :
    (escape (Char.ofNat n)).foldlM (Reader.step readNumber) ⟨.text chars, a⟩ =
      some ⟨.text (Char.ofNat n :: chars), a⟩ := by
  fin_cases n <;> rfl

theorem read_escape (c : Char) (a : Awaiting) (chars : List Char) :
    (escape c).foldlM (Reader.step readNumber) ⟨.text chars, a⟩ =
      some ⟨.text (c :: chars), a⟩ := by
  by_cases hcontrol : c.toNat < 32
  · have h : (escape (Char.ofNat c.toNat)).foldlM (Reader.step readNumber) ⟨.text chars, a⟩ =
        some ⟨.text (Char.ofNat c.toNat :: chars), a⟩ :=
      read_escaped_control ⟨c.toNat, hcontrol⟩ a chars
    rwa [Char.ofNat_toNat] at h
  by_cases hquote : c = '"'
  · subst hquote
    rfl
  by_cases hslash : c = '\\'
  · subst hslash
    rfl
  · have hstep : Reader.step readNumber ⟨.text chars, a⟩ c = some ⟨.text (c :: chars), a⟩ := by
      simp only [Reader.step, stepText, if_neg hquote, if_neg hslash, if_neg hcontrol]
    rw [escape_plain hcontrol hquote hslash, read_cons hstep]
    rfl

theorem read_escapes (cs : List Char) (a : Awaiting) (chars : List Char) :
    (cs.flatMap escape).foldlM (Reader.step readNumber) ⟨.text chars, a⟩ =
      some ⟨.text (cs.reverse ++ chars), a⟩ := by
  induction cs generalizing chars with
  | nil => rfl
  | cons c cs ih =>
      rw [List.flatMap_cons, read_append (read_escape c a chars), ih, List.reverse_cons,
        List.append_assoc, List.singleton_append]

/-- A printed string becomes a scalar. -/
theorem read_quote (s : String) {a b : Awaiting}
    (hquote : stepPlain a '"' = some ⟨.text [], b⟩) :
    (quote s).foldlM (Reader.step readNumber) ⟨.plain, a⟩ =
      (b.scalar (.str s)).map fun next => ⟨.plain, next⟩ := by
  have hopen : Reader.step readNumber ⟨.plain, a⟩ '"' = some ⟨.text [], b⟩ := hquote
  rw [quote, read_cons hopen, read_append (read_escapes ..), List.append_nil, List.foldlM_cons]
  simp only [Reader.step, stepText, List.reverse_reverse, String.ofList_toList]
  cases b.scalar (.str s) <;> rfl

/-- A text that begins a value is read the same as the first item of an array. -/
theorem stepPlain_firstItem {c : Char} (frames : List Frame) (hspace : isJsonSpace c = false)
    (hclose : c ≠ ']') :
    stepPlain ⟨frames, .firstItem⟩ c = stepPlain ⟨.item [] :: frames, .value⟩ c := by
  simp only [stepPlain, hspace, Bool.false_eq_true, if_false, Awaiting.result, if_neg hclose]
  rfl

theorem read_firstItem {c : Char} {rest : List Char} (frames : List Frame)
    (hspace : isJsonSpace c = false) (hclose : c ≠ ']') :
    (c :: rest).foldlM (Reader.step readNumber) ⟨.plain, ⟨frames, .firstItem⟩⟩ =
      (c :: rest).foldlM (Reader.step readNumber) ⟨.plain, ⟨.item [] :: frames, .value⟩⟩ := by
  have hstep : Reader.step readNumber ⟨.plain, ⟨frames, .firstItem⟩⟩ c =
      Reader.step readNumber ⟨.plain, ⟨.item [] :: frames, .value⟩⟩ c :=
    stepPlain_firstItem frames hspace hclose
  rw [List.foldlM_cons, List.foldlM_cons, hstep]

/-- What a plain value prints begins neither with white space nor with a closing bracket. -/
theorem text_starts {v : Json} (h : v.plain = true) :
    ∃ c rest, v.text = c :: rest ∧ isJsonSpace c = false ∧ c ≠ ']' := by
  cases v with
  | num _ => cases h
  | null => exact ⟨_, _, rfl, rfl, by decide⟩
  | bool b => cases b <;> exact ⟨_, _, rfl, rfl, by decide⟩
  | str s => exact ⟨_, _, rfl, rfl, by decide⟩
  | arr items => cases items <;> exact ⟨_, _, rfl, rfl, by decide⟩
  | obj fields => cases fields <;> exact ⟨_, _, rfl, rfl, by decide⟩

theorem setField_of_notMem {fields : List (String × Json)} {key : String} (v : Json)
    (h : key ∉ fields.map Prod.fst) : setField fields key v = (key, v) :: fields := by
  rw [setField, if_neg]
  rw [Option.isSome_iff_ne_none, not_not, List.lookup_eq_none_iff]
  intro field hfield
  rw [bne_iff_ne]
  exact fun heq => h (List.mem_map.mpr ⟨field, hfield, heq.symm⟩)

mutual

/-- The text of a value that the grammar expects completes the value. -/
theorem read_text : ∀ (v : Json) (frames : List Frame), v.plain = true →
    v.text.foldlM (Reader.step readNumber) ⟨.plain, ⟨frames, .value⟩⟩ =
      some ⟨.plain, Awaiting.complete frames v⟩
  | .null, _, _ => rfl
  | .bool true, _, _ => rfl
  | .bool false, _, _ => rfl
  | .num _, _, h => by cases h
  | .str s, frames, _ => by
      rw [Json.text, read_quote s (b := ⟨frames, .value⟩) rfl]
      rfl
  | .arr [], _, _ => rfl
  | .arr (v :: items), frames, h => by
      rw [Json.plain, Json.plainItems, Bool.and_eq_true] at h
      have hopen : Reader.step readNumber ⟨.plain, ⟨frames, .value⟩⟩ '[' =
          some ⟨.plain, ⟨frames, .firstItem⟩⟩ := rfl
      obtain ⟨c, rest, htext, hspace, hclose⟩ := text_starts h.1
      have hfirst : v.text.foldlM (Reader.step readNumber) ⟨.plain, ⟨frames, .firstItem⟩⟩ =
          some ⟨.plain, ⟨frames, .afterItem [v]⟩⟩ := by
        rw [htext, read_firstItem frames hspace hclose, ← htext]
        exact read_text v (.item [] :: frames) h.1
      rw [Json.text, read_cons hopen, read_append hfirst]
      exact read_itemsText items [v] frames h.2
  | .obj [], _, _ => rfl
  | .obj ((key, v) :: fields), frames, h => by
      rw [Json.plain, Json.plainFields, Bool.and_eq_true, Bool.and_eq_true, decide_eq_true_eq] at h
      obtain ⟨hkeys, hv, hfields⟩ := h
      have hopen : Reader.step readNumber ⟨.plain, ⟨frames, .value⟩⟩ '{' =
          some ⟨.plain, ⟨frames, .firstKey⟩⟩ := rfl
      have hkey : (quote key).foldlM (Reader.step readNumber) ⟨.plain, ⟨frames, .firstKey⟩⟩ =
          some ⟨.plain, ⟨frames, .colon [] key⟩⟩ :=
        read_quote key (b := ⟨frames, .firstKey⟩) rfl
      have hcolon : Reader.step readNumber ⟨.plain, ⟨frames, .colon [] key⟩⟩ ':' =
          some ⟨.plain, ⟨.field [] key :: frames, .value⟩⟩ := rfl
      rw [Json.text, read_cons hopen, read_append hkey, read_cons hcolon,
        read_append (read_text v (.field [] key :: frames) hv)]
      exact read_fieldsText fields [(key, v)] frames hkeys hfields

/-- The rest of an array, behind the items that are read. -/
theorem read_itemsText : ∀ (items read : List Json) (frames : List Frame),
    Json.plainItems items = true →
    (Json.itemsText items).foldlM (Reader.step readNumber) ⟨.plain, ⟨frames, .afterItem read⟩⟩ =
      some ⟨.plain, Awaiting.complete frames (.arr (read.reverse ++ items))⟩
  | [], read, frames, _ => by
      rw [List.append_nil]
      rfl
  | v :: items, read, frames, h => by
      rw [Json.plainItems, Bool.and_eq_true] at h
      have hcomma : Reader.step readNumber ⟨.plain, ⟨frames, .afterItem read⟩⟩ ',' =
          some ⟨.plain, ⟨.item read :: frames, .value⟩⟩ := rfl
      rw [Json.itemsText, read_cons hcomma, read_append (read_text v (.item read :: frames) h.1)]
      have hrest := read_itemsText items (v :: read) frames h.2
      rwa [List.reverse_cons, List.append_assoc] at hrest

theorem read_fieldsText : ∀ (fields read : List (String × Json)) (frames : List Frame),
    ((read.reverse ++ fields).map Prod.fst).Nodup → Json.plainFields fields = true →
    (Json.fieldsText fields).foldlM (Reader.step readNumber)
        ⟨.plain, ⟨frames, .afterField read⟩⟩ =
      some ⟨.plain, Awaiting.complete frames (.obj (read.reverse ++ fields))⟩
  | [], read, frames, _, _ => by
      rw [List.append_nil]
      rfl
  | (key, v) :: fields, read, frames, hkeys, h => by
      rw [Json.plainFields, Bool.and_eq_true] at h
      have hcomma : Reader.step readNumber ⟨.plain, ⟨frames, .afterField read⟩⟩ ',' =
          some ⟨.plain, ⟨frames, .nextKey read⟩⟩ := rfl
      have hkey : (quote key).foldlM (Reader.step readNumber) ⟨.plain, ⟨frames, .nextKey read⟩⟩ =
          some ⟨.plain, ⟨frames, .colon read key⟩⟩ :=
        read_quote key (b := ⟨frames, .nextKey read⟩) rfl
      have hcolon : Reader.step readNumber ⟨.plain, ⟨frames, .colon read key⟩⟩ ':' =
          some ⟨.plain, ⟨.field read key :: frames, .value⟩⟩ := rfl
      have hfresh : key ∉ read.map Prod.fst := by
        rw [List.map_append, List.nodup_append, List.map_reverse] at hkeys
        intro hmem
        exact hkeys.2.2 key (List.mem_reverse.mpr hmem) key List.mem_cons_self rfl
      rw [Json.fieldsText, read_cons hcomma, read_append hkey, read_cons hcolon,
        read_append (read_text v (.field read key :: frames) h.1), Awaiting.complete,
        setField_of_notMem v hfresh]
      have hrest := read_fieldsText fields ((key, v) :: read) frames
        (by rwa [List.reverse_cons, List.append_assoc]) h.2
      rwa [List.reverse_cons, List.append_assoc] at hrest

end

theorem parse_text {v : Json} (h : v.plain = true) : parse readNumber v.text = some v := by
  rw [parse, Reader.start, read_text v [] h]
  rfl

end RoundTrip

section Refusals

theorem punctuation_lt (a : Awaiting) : a.punctuation '<' = none := by
  obtain ⟨frames, expect⟩ := a
  cases expect <;> rfl

theorem stepPlain_lt (a : Awaiting) : stepPlain a '<' = none := by
  rw [stepPlain, if_neg (by decide)]
  split
  · rfl
  · dsimp only
    rw [if_neg (by decide), if_neg (by decide), if_neg (by decide), punctuation_lt]
    rfl

theorem stepPlain_lineBreak (a : Awaiting) : stepPlain a '\n' = some ⟨.plain, a⟩ :=
  rfl

theorem word_lineBreak (word : Word) (read : ℕ) : word.letters[read]? ≠ some '\n' := by
  intro h
  have hmem := List.mem_of_getElem? h
  cases word <;> simp [Word.letters] at hmem

/-- A `<` behind a line break is refused. -/
theorem read_lineBreak (s : Reader) (rest : List Char) :
    ('\n' :: '<' :: rest).foldlM (Reader.step readNumber) s = none := by
  have hplain (a : Awaiting) :
      ('<' :: rest).foldlM (Reader.step readNumber) ⟨.plain, a⟩ = none := by
    have hstep : Reader.step readNumber ⟨.plain, a⟩ '<' = none := stepPlain_lt a
    rw [List.foldlM_cons, hstep]
    rfl
  obtain ⟨mode, a⟩ := s
  rw [List.foldlM_cons]
  cases mode with
  | plain => exact hplain a
  | number chars =>
      have hstep : Reader.step readNumber ⟨.number chars, a⟩ '\n' =
          (readNumeral readNumber a chars).bind fun next => some ⟨.plain, next⟩ := rfl
      rw [hstep]
      cases readNumeral readNumber a chars with
      | none => rfl
      | some next => exact hplain next
  | word word read =>
      have hstep : Reader.step readNumber ⟨.word word read, a⟩ '\n' = none :=
        if_neg (word_lineBreak word read)
      rw [hstep]
      rfl
  | text chars | escape chars | hex chars high digits | high chars code
  | highEscape chars code => rfl

/-- The value is complete, or would be with the number that is being read. -/
def Reader.AtEnd (s : Reader) : Prop :=
  match s.mode with
  | .plain => s.awaiting.result.isSome = true
  | .number _ => s.awaiting.frames = [] ∧ s.awaiting.expect = .value
  | _ => False

theorem readNumeral_ok {a next : Awaiting} {chars : List Char}
    (h : readNumeral readNumber a chars = some next) :
    ∃ v, a.scalar (.num v) = some next :=
  ⟨_, (Option.ite_none_right_eq_some.mp h).2⟩

/-- A scalar ends the text only when no array and no object is open. -/
theorem scalar_result {a next : Awaiting} {v : Json} {n : Number}
    (h : a.scalar (.num n) = some next) (hresult : next.result = some v) :
    a.frames = [] ∧ a.expect = .value := by
  obtain ⟨frames, expect⟩ := a
  cases expect with
  | value =>
      obtain rfl := Option.some.inj h
      cases frames with
      | nil => exact ⟨rfl, rfl⟩
      | cons frame frames => cases frame <;> cases hresult
  | firstKey | nextKey _ | firstItem | afterItem _ | colon _ _ | afterField _ | done _ => cases h

theorem atEnd_of_finish {s : Reader} {v : Json} (h : s.finish readNumber = some v) : s.AtEnd := by
  obtain ⟨mode, a⟩ := s
  cases mode with
  | plain => exact Option.isSome_iff_exists.mpr ⟨v, h⟩
  | number chars =>
      obtain ⟨next, hnext, hresult⟩ := Option.bind_eq_some_iff.mp h
      obtain ⟨n, hscalar⟩ := readNumeral_ok hnext
      exact scalar_result hscalar hresult
  | word _ _ | text _ | escape _ | hex _ _ _ | high _ _ | highEscape _ _ => cases h

theorem atEnd_stepPlain {a : Awaiting} (ha : a.result.isSome = true) {c : Char} {t : Reader}
    (h : stepPlain a c = some t) : isJsonSpace c = true ∧ t.AtEnd := by
  rw [stepPlain, if_pos ha] at h
  obtain ⟨hspace, rfl⟩ := Option.ite_some_none_eq_some.mp h
  exact ⟨hspace, ha⟩

theorem atEnd_step {s t : Reader} (hs : s.AtEnd) {c : Char}
    (h : Reader.step readNumber s c = some t) :
    (isJsonSpace c = true ∨ isNumeralChar c = true) ∧ t.AtEnd := by
  obtain ⟨mode, a⟩ := s
  cases mode with
  | plain =>
      obtain ⟨hspace, ht⟩ := atEnd_stepPlain hs h
      exact ⟨.inl hspace, ht⟩
  | number chars =>
      obtain ⟨hframes, hexpect⟩ := hs
      by_cases hnumeral : isNumeralChar c = true
      · obtain rfl := Option.some.inj ((if_pos hnumeral).symm.trans h)
        exact ⟨.inr hnumeral, hframes, hexpect⟩
      · obtain ⟨next, hnext, hstep⟩ :=
          Option.bind_eq_some_iff.mp ((if_neg hnumeral).symm.trans h)
        obtain ⟨n, hscalar⟩ := readNumeral_ok hnext
        obtain ⟨frames, expect⟩ := a
        obtain rfl : frames = [] := hframes
        obtain rfl : expect = .value := hexpect
        obtain rfl := Option.some.inj hscalar
        obtain ⟨hspace, ht⟩ := atEnd_stepPlain rfl hstep
        exact ⟨.inl hspace, ht⟩
  | word _ _ | text _ | escape _ | hex _ _ _ | high _ _ | highEscape _ _ => cases hs

theorem atEnd_read {cs : List Char} {s t : Reader} (hs : s.AtEnd)
    (h : cs.foldlM (Reader.step readNumber) s = some t) :
    ∀ c ∈ cs, isJsonSpace c = true ∨ isNumeralChar c = true := by
  induction cs generalizing s with
  | nil => simp
  | cons c cs ih =>
      rw [List.foldlM_cons] at h
      obtain ⟨next, hnext, hrest⟩ := Option.bind_eq_some_iff.mp h
      obtain ⟨hc, hend⟩ := atEnd_step hs hnext
      exact List.forall_mem_cons.mpr ⟨hc, ih hend hrest⟩

/-- A text that can be read goes on with white space, or with a number that was all of it. -/
theorem parse_append {cs rest : List Char} {v w : Json} (h : parse readNumber cs = some v)
    (hmore : parse readNumber (cs ++ rest) = some w) :
    ∀ c ∈ rest, isJsonSpace c = true ∨ isNumeralChar c = true := by
  obtain ⟨s, hs, hfinish⟩ := Option.bind_eq_some_iff.mp h
  obtain ⟨t, ht, -⟩ := Option.bind_eq_some_iff.mp hmore
  rw [read_append hs] at ht
  exact atEnd_read (atEnd_of_finish hfinish) ht

/-- No text has a `<` behind a line break. -/
theorem parse_lineBreak (front rest : List Char) :
    parse readNumber (front ++ '\n' :: '<' :: rest) = none := by
  rw [parse, List.foldlM_append]
  cases front.foldlM (Reader.step readNumber) .start with
  | none => rfl
  | some s =>
      rw [Option.bind_eq_bind, Option.bind_some, read_lineBreak]
      rfl

end Refusals

end Kyberion.Js
