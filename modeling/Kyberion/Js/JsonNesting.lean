import Kyberion.Js.JsonRead
import Kyberion.Js.Text

/-!
How the reader of a JSON text stands between the brackets: which closers it waits
for, that a text without an array or object never opens one, and that a line break
may be spelled in either way.
-/

namespace Kyberion.Js

variable {readNumber : List Char → Number}

def Json.isBlock : Json → Bool
  | .arr _ | .obj _ => true
  | _ => false

section Spaces

theorem space_done {v : Json} {c : Char} {t : Reader}
    (h : Reader.step readNumber ⟨.plain, ⟨[], .done v⟩⟩ c = some t) :
    isJsonSpace c = true ∧ t = ⟨.plain, ⟨[], .done v⟩⟩ := by
  change stepPlain ⟨[], .done v⟩ c = some t at h
  rw [stepPlain] at h
  split at h
  · rename_i hspace
    exact ⟨hspace, (Option.some.inj h).symm⟩
  · cases h

/-- Behind a complete value there is white space only. -/
theorem read_done {v : Json} {cs : List Char} {t : Reader}
    (h : cs.foldlM (Reader.step readNumber) ⟨.plain, ⟨[], .done v⟩⟩ = some t) :
    (∀ c ∈ cs, isJsonSpace c = true) ∧ t = ⟨.plain, ⟨[], .done v⟩⟩ := by
  induction cs with
  | nil => exact ⟨fun _ hmem => absurd hmem List.not_mem_nil, (Option.some.inj h).symm⟩
  | cons c cs ih =>
      rw [List.foldlM_cons] at h
      obtain ⟨next, hnext, hrest⟩ := Option.bind_eq_some_iff.mp h
      obtain ⟨hc, rfl⟩ := space_done hnext
      obtain ⟨hcs, ht⟩ := ih hrest
      exact ⟨List.forall_mem_cons.mpr ⟨hc, hcs⟩, ht⟩

/-- A carriage return is read like the line break behind it. -/
theorem step_crlf {s t : Reader} (h : Reader.step readNumber s '\r' = some t) :
    Reader.step readNumber s '\n' = some t ∧ Reader.step readNumber t '\n' = some t := by
  obtain ⟨mode, a⟩ := s
  cases mode with
  | plain =>
      obtain rfl := Option.some.inj h
      exact ⟨rfl, rfl⟩
  | number chars =>
      have hstep : (readNumeral readNumber a chars).bind
          (fun next => some (⟨.plain, next⟩ : Reader)) = some t := h
      obtain ⟨next, -, hnext⟩ := Option.bind_eq_some_iff.mp hstep
      obtain rfl := Option.some.inj hnext
      exact ⟨hstep, rfl⟩
  | word word read =>
      have hletter : word.letters[read]? ≠ some '\r' := by
        intro hletter
        have hmem := List.mem_of_getElem? hletter
        cases word <;> simp [Word.letters] at hmem
      cases (if_neg hletter).symm.trans h
  | text chars | escape chars | hex chars high digits | high chars code
  | highEscape chars code => cases h

theorem read_crlfToLf {cs : List Char} {s t : Reader}
    (h : cs.foldlM (Reader.step readNumber) s = some t) :
    (crlfToLf cs).foldlM (Reader.step readNumber) s = some t := by
  fun_induction crlfToLf cs generalizing s with
  | case1 rest ih =>
      rw [List.foldlM_cons] at h
      obtain ⟨next, hreturn, hrest⟩ := Option.bind_eq_some_iff.mp h
      obtain ⟨hbreak, hsame⟩ := step_crlf hreturn
      rw [read_cons hsame] at hrest
      rw [read_cons hbreak]
      exact ih hrest
  | case2 c rest _ ih =>
      rw [List.foldlM_cons] at h
      obtain ⟨next, hnext, hrest⟩ := Option.bind_eq_some_iff.mp h
      rw [read_cons hnext]
      exact ih hrest
  | case3 => exact h

end Spaces

section Scalars

/-- Nothing is open, and nothing was opened. -/
structure Reader.Bare (s : Reader) : Prop where
  frames : s.awaiting.frames = []
  expect : match s.mode with
    | .plain => ∃ v, v.isBlock = false ∧ s.awaiting.expect = .done v
    | _ => s.awaiting.expect = .value

/-- The reader is behind the opening quote of a string. -/
def Reader.inText (s : Reader) : Bool :=
  match s.mode with
  | .text _ | .escape _ | .hex _ _ _ | .high _ _ | .highEscape _ _ => true
  | _ => false

theorem bare_scalar {a next : Awaiting} {v : Json} (hframes : a.frames = [])
    (hexpect : a.expect = .value) (hv : v.isBlock = false) (h : a.scalar v = some next) :
    Reader.Bare ⟨.plain, next⟩ := by
  obtain ⟨frames, expect⟩ := a
  obtain rfl : frames = [] := hframes
  obtain rfl : expect = .value := hexpect
  obtain rfl := Option.some.inj h
  exact ⟨rfl, v, hv, rfl⟩

theorem bare_done {s t : Reader} {c : Char} (hs : s.Bare) (hmode : s.mode = .plain)
    (h : stepPlain s.awaiting c = some t) : isJsonSpace c = true ∧ t.Bare ∧ t.inText = false := by
  obtain ⟨mode, frames, expect⟩ := s
  obtain rfl : mode = .plain := hmode
  obtain ⟨rfl, v, hv, rfl⟩ := hs
  have hstep : Reader.step (fun _ => .negZero) ⟨.plain, ⟨[], .done v⟩⟩ c = some t := h
  obtain ⟨hspace, rfl⟩ := space_done hstep
  exact ⟨hspace, ⟨rfl, v, hv, rfl⟩, rfl⟩

/-- A hexadecimal digit leaves the reader in the string. -/
theorem hex_step {chars : List Char} {high : Option ℕ} {digits : List Char} {a : Awaiting}
    {c : Char} {t : Reader}
    (h : Reader.step readNumber ⟨.hex chars high digits, a⟩ c = some t) :
    isHexDigit c = true ∧ ∃ mode, t = ⟨mode, a⟩ ∧ Reader.inText ⟨mode, a⟩ = true ∧
      (∀ chars, mode ≠ .escape chars) ∧ ∀ chars code, mode ≠ .highEscape chars code := by
  simp only [Reader.step, stepHex] at h
  split at h
  · rename_i hdigit
    refine ⟨hdigit, ?_⟩
    split at h
    · obtain ⟨mode, hmode, rfl⟩ := Option.map_eq_some_iff.mp h
      refine ⟨mode, rfl, ?_⟩
      simp only [endHex] at hmode
      repeat' split at hmode
      all_goals first | cases hmode | obtain rfl := Option.some.inj hmode
      all_goals exact ⟨rfl, fun _ => by simp, fun _ _ => by simp⟩
    · obtain rfl := Option.some.inj h
      exact ⟨_, rfl, rfl, fun _ => by simp, fun _ _ => by simp⟩
  · cases h

/-- A step that only goes on with what is being read. -/
theorem bare_mode {mode mode' : Mode} {a : Awaiting} (hs : Reader.Bare ⟨mode, a⟩)
    (hmode : mode ≠ .plain) (hmode' : mode' ≠ .plain) : Reader.Bare ⟨mode', a⟩ := by
  obtain ⟨hframes, hexpect⟩ := hs
  refine ⟨hframes, ?_⟩
  cases mode <;> cases mode' <;> first | exact hexpect | contradiction

theorem bare_value {mode : Mode} {a : Awaiting} (hs : Reader.Bare ⟨mode, a⟩)
    (hmode : mode ≠ .plain) : a.expect = .value := by
  obtain ⟨-, hexpect⟩ := hs
  cases mode <;> first | exact hexpect | contradiction

/-- A bare reader stays bare. Outside of strings it enters none, and refuses an opening
bracket. -/
theorem bare_step {s t : Reader} {c : Char} (hs : s.Bare)
    (h : Reader.step readNumber s c = some t) :
    t.Bare ∧ (s.inText = false → t.inText = false ∧ c ≠ '[' ∧ c ≠ '\x7b') := by
  have hspace (hc : isJsonSpace c = true) : c ≠ '[' ∧ c ≠ '\x7b' := by
    constructor <;> rintro rfl <;> cases hc
  obtain ⟨mode, a⟩ := s
  cases mode with
  | plain =>
      obtain ⟨hc, ht, htext⟩ := bare_done hs rfl h
      exact ⟨ht, fun _ => ⟨htext, hspace hc⟩⟩
  | word word read =>
      have hletter : word.letters[read]? = some c ∧ t.Bare ∧ t.inText = false := by
        simp only [Reader.step, stepWord] at h
        split at h
        · rename_i hletter
          split at h
          · obtain ⟨next, hnext, rfl⟩ := Option.map_eq_some_iff.mp h
            have hword : word.value.isBlock = false := by cases word <;> rfl
            exact ⟨hletter, bare_scalar hs.frames (bare_value hs (by simp)) hword hnext, rfl⟩
          · obtain rfl := Option.some.inj h
            exact ⟨hletter, bare_mode hs (by simp) (by simp), rfl⟩
        · cases h
      obtain ⟨hc, ht, htext⟩ := hletter
      have hmem := List.mem_of_getElem? hc
      refine ⟨ht, fun _ => ⟨htext, ?_, ?_⟩⟩ <;> rintro rfl <;>
        cases word <;> simp [Word.letters] at hmem
  | number chars =>
      by_cases hc : isNumeralChar c = true
      · obtain rfl := Option.some.inj ((if_pos hc).symm.trans h)
        refine ⟨bare_mode hs (by simp) (by simp), fun _ => ⟨rfl, ?_, ?_⟩⟩ <;> rintro rfl <;>
          cases hc
      · obtain ⟨next, hnext, hstep⟩ := Option.bind_eq_some_iff.mp ((if_neg hc).symm.trans h)
        obtain ⟨n, hscalar⟩ := readNumeral_ok hnext
        have hbare : Reader.Bare ⟨.plain, next⟩ :=
          bare_scalar hs.frames (bare_value hs (by simp)) rfl hscalar
        obtain ⟨hblank, ht, htext⟩ := bare_done hbare rfl hstep
        exact ⟨ht, fun _ => ⟨htext, hspace hblank⟩⟩
  | text chars =>
      refine ⟨?_, fun htext => by cases htext⟩
      simp only [Reader.step, stepText] at h
      split at h
      · obtain ⟨next, hnext, rfl⟩ := Option.map_eq_some_iff.mp h
        exact bare_scalar hs.frames (bare_value hs (by simp)) rfl hnext
      · split at h
        · obtain rfl := Option.some.inj h
          exact bare_mode hs (by simp) (by simp)
        · split at h
          · cases h
          · obtain rfl := Option.some.inj h
            exact bare_mode hs (by simp) (by simp)
  | escape chars =>
      refine ⟨?_, fun htext => by cases htext⟩
      simp only [Reader.step] at h
      split at h
      · obtain rfl := Option.some.inj h
        exact bare_mode hs (by simp) (by simp)
      · obtain ⟨char, -, rfl⟩ := Option.map_eq_some_iff.mp h
        exact bare_mode hs (by simp) (by simp)
  | hex chars high digits =>
      refine ⟨?_, fun htext => by cases htext⟩
      obtain ⟨-, mode, rfl, htext, -⟩ := hex_step h
      refine bare_mode hs (by simp) ?_
      rintro rfl
      cases htext
  | high chars code =>
      refine ⟨?_, fun htext => by cases htext⟩
      obtain ⟨-, rfl⟩ := Option.ite_some_none_eq_some.mp h
      exact bare_mode hs (by simp) (by simp)
  | highEscape chars code =>
      refine ⟨?_, fun htext => by cases htext⟩
      obtain ⟨-, rfl⟩ := Option.ite_some_none_eq_some.mp h
      exact bare_mode hs (by simp) (by simp)

/-- The first character of a text that is not white space. -/
theorem step_start {t : Reader} {c : Char} (h : Reader.step readNumber .start c = some t) :
    (isJsonSpace c = true ∧ t = .start) ∨
    (c = '[' ∧ t = ⟨.plain, ⟨[], .firstItem⟩⟩) ∨ (c = '\x7b' ∧ t = ⟨.plain, ⟨[], .firstKey⟩⟩) ∨
    (t.Bare ∧ (c ≠ '"' → t.inText = false)) := by
  change stepPlain ⟨[], .value⟩ c = some t at h
  rw [stepPlain] at h
  split at h
  · rename_i hspace
    exact .inl ⟨hspace, (Option.some.inj h).symm⟩
  · right
    have henter : (if c = ']' then (⟨[], .value⟩ : Awaiting) else Awaiting.enter ⟨[], .value⟩) =
        ⟨[], .value⟩ := by split <;> rfl
    rw [if_neg (by decide), henter] at h
    dsimp only at h
    split at h
    · rename_i hquote
      obtain rfl := Option.some.inj h
      exact .inr (.inr ⟨⟨rfl, rfl⟩, fun hne => absurd hquote hne⟩)
    · split at h
      · obtain rfl := Option.some.inj h
        exact .inr (.inr ⟨⟨rfl, rfl⟩, fun _ => rfl⟩)
      · split at h
        · obtain rfl := Option.some.inj h
          exact .inr (.inr ⟨⟨rfl, rfl⟩, fun _ => rfl⟩)
        · obtain ⟨next, hnext, rfl⟩ := Option.map_eq_some_iff.mp h
          simp only [Awaiting.punctuation] at hnext
          split at hnext
          · rename_i hopen
            exact .inl ⟨hopen, by rw [← Option.some.inj hnext]⟩
          · obtain ⟨hopen, rfl⟩ := Option.ite_some_none_eq_some.mp hnext
            exact .inr (.inl ⟨hopen, rfl⟩)

theorem bare_read {cs : List Char} {s t : Reader} (hs : s.Bare)
    (h : cs.foldlM (Reader.step readNumber) s = some t) :
    t.Bare ∧ (s.inText = false → t.inText = false) := by
  induction cs generalizing s with
  | nil =>
      obtain rfl := Option.some.inj h
      exact ⟨hs, id⟩
  | cons c cs ih =>
      rw [List.foldlM_cons] at h
      obtain ⟨next, hnext, hrest⟩ := Option.bind_eq_some_iff.mp h
      obtain ⟨hbare, htext⟩ := bare_step hs hnext
      obtain ⟨ht, hmode⟩ := ih hbare hrest
      exact ⟨ht, fun hs => hmode (htext hs).1⟩

theorem bare_finish {s : Reader} {v : Json} (hs : s.Bare) (h : s.finish readNumber = some v) :
    v.isBlock = false := by
  obtain ⟨mode, a⟩ := s
  cases mode with
  | plain =>
      obtain ⟨hframes, w, hw, hexpect⟩ := hs
      have hresult : a.result = some v := h
      rw [Awaiting.result, hexpect] at hresult
      rwa [← Option.some.inj hresult]
  | number chars =>
      obtain ⟨next, hnext, hresult⟩ := Option.bind_eq_some_iff.mp h
      obtain ⟨n, hscalar⟩ := readNumeral_ok hnext
      obtain ⟨-, w, hw, hexpect⟩ :=
        bare_scalar hs.frames (bare_value hs (by simp)) rfl hscalar
      rw [Awaiting.result, hexpect] at hresult
      rwa [← Option.some.inj hresult]
  | word _ _ | text _ | escape _ | hex _ _ _ | high _ _ | highEscape _ _ => cases h

/-- The text of an array or an object is white space in front of an opening bracket. -/
theorem block_starts {cs : List Char} {v : Json} (h : parse readNumber cs = some v)
    (hv : v.isBlock = true) :
    ∃ lead c rest a, cs = lead ++ c :: rest ∧ (∀ c ∈ lead, isJsonSpace c = true) ∧
      (c = '[' ∧ a = ⟨[], .firstItem⟩ ∨ c = '\x7b' ∧ a = ⟨[], .firstKey⟩) ∧
      (rest.foldlM (Reader.step readNumber) ⟨.plain, a⟩).bind (Reader.finish readNumber) =
        some v := by
  induction cs with
  | nil => cases h
  | cons c cs ih =>
      obtain ⟨t, hread, hfinish⟩ := Option.bind_eq_some_iff.mp h
      rw [List.foldlM_cons] at hread
      obtain ⟨next, hnext, hrest⟩ := Option.bind_eq_some_iff.mp hread
      have hparse : (cs.foldlM (Reader.step readNumber) next).bind (Reader.finish readNumber) =
          some v := Option.bind_eq_some_iff.mpr ⟨t, hrest, hfinish⟩
      rcases step_start hnext with ⟨hspace, rfl⟩ | ⟨hc, rfl⟩ | ⟨hc, rfl⟩ | ⟨hbare, -⟩
      · obtain ⟨lead, first, rest, a, rfl, hlead, hopen⟩ := ih hparse
        exact ⟨c :: lead, first, rest, a, rfl, List.forall_mem_cons.mpr ⟨hspace, hlead⟩, hopen⟩
      · exact ⟨[], c, cs, _, rfl, List.forall_mem_nil _, .inl ⟨hc, rfl⟩, hparse⟩
      · exact ⟨[], c, cs, _, rfl, List.forall_mem_nil _, .inr ⟨hc, rfl⟩, hparse⟩
      · have hscalar := bare_finish (bare_read hbare hrest).1 hfinish
        cases hscalar.symm.trans hv

/-- Words that are not white space are no beginning of an array or an object. -/
theorem read_prose {cs rest : List Char} {c : Char}
    (hcs : ∀ c ∈ cs, c ≠ '[' ∧ c ≠ '\x7b' ∧ c ≠ '"') (hne : ∃ c ∈ cs, isJsonSpace c = false)
    (hc : c = '[' ∨ c = '\x7b') :
    (cs ++ c :: rest).foldlM (Reader.step readNumber) .start = none := by
  rw [List.foldlM_append]
  cases hread : cs.foldlM (Reader.step readNumber) .start with
  | none => rfl
  | some t =>
      have hbare : t.Bare ∧ t.inText = false := by
        induction cs with
        | nil =>
            obtain ⟨c, hmem, -⟩ := hne
            cases hmem
        | cons first cs ih =>
            rw [List.foldlM_cons] at hread
            obtain ⟨next, hnext, hread⟩ := Option.bind_eq_some_iff.mp hread
            obtain ⟨⟨hsquare, hcurly, hquote⟩, hcs⟩ := List.forall_mem_cons.mp hcs
            rcases step_start hnext with ⟨hspace, rfl⟩ | ⟨hopen, -⟩ | ⟨hopen, -⟩ | ⟨hbare, htext⟩
            · refine ih hcs ?_ hread
              obtain ⟨other, hother, hsolid⟩ := hne
              rcases List.mem_cons.mp hother with rfl | hother
              · cases hspace.symm.trans hsolid
              · exact ⟨other, hother, hsolid⟩
            · exact absurd hopen hsquare
            · exact absurd hopen hcurly
            · obtain ⟨ht, hmode⟩ := bare_read hbare hread
              exact ⟨ht, hmode (htext hquote)⟩
      rw [Option.bind_eq_bind, Option.bind_some, List.foldlM_cons]
      cases hstep : Reader.step readNumber t c with
      | none => rfl
      | some next =>
          obtain ⟨-, hsquare, hcurly⟩ := (bare_step hbare.1 hstep).2 hbare.2
          exact absurd hc (not_or.mpr ⟨hsquare, hcurly⟩)

end Scalars

section Nesting

def Frame.closer : Frame → Char
  | .item _ => ']'
  | .field _ _ => '\x7d'

/-- The closing brackets that are missing, the innermost first. -/
def Awaiting.closers (a : Awaiting) : List Char :=
  match a.expect with
  | .done _ => []
  | .value => a.frames.map Frame.closer
  | .firstItem | .afterItem _ => ']' :: a.frames.map Frame.closer
  | .firstKey | .nextKey _ | .colon _ _ | .afterField _ => '\x7d' :: a.frames.map Frame.closer

theorem closers_complete (frames : List Frame) (v : Json) :
    (Awaiting.complete frames v).closers = frames.map Frame.closer := by
  cases frames with
  | nil => rfl
  | cons frame frames => cases frame <;> rfl

theorem closers_enter (a : Awaiting) : a.enter.closers = a.closers := by
  obtain ⟨frames, expect⟩ := a
  cases expect <;> rfl

theorem closers_scalar {a next : Awaiting} {v : Json} (h : a.scalar v = some next) :
    next.closers = a.closers := by
  obtain ⟨frames, expect⟩ := a
  have hkeyed (fields : List (String × Json))
      (hkey : Awaiting.keyed ⟨frames, expect⟩ fields v = some next) :
      next.closers = '\x7d' :: frames.map Frame.closer := by
    cases v with
    | str key =>
        obtain rfl := Option.some.inj hkey
        rfl
    | null | bool _ | num _ | arr _ | obj _ => cases hkey
  cases expect with
  | value =>
      obtain rfl := Option.some.inj h
      exact closers_complete frames v
  | firstKey => exact hkeyed [] h
  | nextKey fields => exact hkeyed fields h
  | firstItem | afterItem _ | colon _ _ | afterField _ | done _ => cases h

/-- What a character does to the missing brackets. -/
inductive Nests (c : Char) (stack : List Char) : Awaiting → Prop
  | square {next : Awaiting} : c = '[' → next.closers = ']' :: stack → Nests c stack next
  | curly {next : Awaiting} : c = '\x7b' → next.closers = '\x7d' :: stack → Nests c stack next
  | close {frames : List Frame} {v : Json} : c = ']' ∨ c = '\x7d' →
      stack = c :: frames.map Frame.closer → Nests c stack (.complete frames v)
  | stay {next : Awaiting} : c ∉ ['[', ']', '\x7b', '\x7d', '"', '\''] → next.closers = stack →
      Nests c stack next

theorem nests_punctuation {a next : Awaiting} {c : Char} (h : a.punctuation c = some next) :
    Nests c a.closers next := by
  obtain ⟨frames, expect⟩ := a
  cases expect with
  | value =>
      simp only [Awaiting.punctuation] at h
      split at h
      · rename_i hc
        obtain rfl := Option.some.inj h
        exact .square hc rfl
      · obtain ⟨hc, rfl⟩ := Option.ite_some_none_eq_some.mp h
        exact .curly hc rfl
  | firstItem =>
      obtain ⟨hc, rfl⟩ := Option.ite_some_none_eq_some.mp h
      exact .close (.inl hc) (by rw [hc]; rfl)
  | afterItem items =>
      simp only [Awaiting.punctuation] at h
      split at h
      · rename_i hc
        obtain rfl := Option.some.inj h
        exact .stay (by rw [hc]; decide) rfl
      · obtain ⟨hc, rfl⟩ := Option.ite_some_none_eq_some.mp h
        exact .close (.inl hc) (by rw [hc]; rfl)
  | firstKey =>
      obtain ⟨hc, rfl⟩ := Option.ite_some_none_eq_some.mp h
      exact .close (.inr hc) (by rw [hc]; rfl)
  | colon fields key =>
      obtain ⟨hc, rfl⟩ := Option.ite_some_none_eq_some.mp h
      exact .stay (by rw [hc]; decide) rfl
  | afterField fields =>
      simp only [Awaiting.punctuation] at h
      split at h
      · rename_i hc
        obtain rfl := Option.some.inj h
        exact .stay (by rw [hc]; decide) rfl
      · obtain ⟨hc, rfl⟩ := Option.ite_some_none_eq_some.mp h
        exact .close (.inr hc) (by rw [hc]; rfl)
  | nextKey _ | done _ => cases h

/-- What a character between the tokens, or of a number or a word, does. -/
inductive Outside (c : Char) (stack : List Char) : Reader → Prop
  | quote {a : Awaiting} : c = '"' → a.closers = stack → Outside c stack ⟨.text [], a⟩
  | plain {next : Awaiting} : Nests c stack next → Outside c stack ⟨.plain, next⟩
  | stay {t : Reader} : c ∉ ['[', ']', '\x7b', '\x7d', '"', '\''] → t.inText = false →
      t.awaiting.closers = stack → Outside c stack t

theorem notMem_brackets {p : Char → Bool} {c : Char} (hc : p c = true)
    (h : ['[', ']', '\x7b', '\x7d', '"', '\''].all (fun c => !p c) = true) :
    c ∉ ['[', ']', '\x7b', '\x7d', '"', '\''] := by
  intro hmem
  simpa [hc] using List.all_eq_true.mp h c hmem

theorem outside_plain {a : Awaiting} {c : Char} {t : Reader} (h : stepPlain a c = some t) :
    Outside c a.closers t := by
  rw [stepPlain] at h
  split at h
  · rename_i hspace
    obtain rfl := Option.some.inj h
    exact .stay (notMem_brackets hspace (by decide)) rfl rfl
  · split at h
    · cases h
    · have henter : (if c = ']' then a else a.enter).closers = a.closers := by
        split
        · rfl
        · exact closers_enter a
      dsimp only at h
      split at h
      · rename_i hquote
        obtain rfl := Option.some.inj h
        exact .quote hquote henter
      · split at h
        · rename_i hdigit
          obtain rfl := Option.some.inj h
          have hc := notMem_brackets (p := fun c => c = '-' || c.isDigit) hdigit (by decide)
          exact .stay hc rfl henter
        · split at h
          · rename_i word hword
            obtain rfl := Option.some.inj h
            have hletter : (wordOf c).isSome = true := by rw [hword]; rfl
            have hc := notMem_brackets (p := fun c => (wordOf c).isSome) hletter (by decide)
            exact .stay hc rfl henter
          · obtain ⟨next, hnext, rfl⟩ := Option.map_eq_some_iff.mp h
            rw [← henter]
            exact .plain (nests_punctuation hnext)

theorem outside_step {s t : Reader} {c : Char} (h : Reader.step readNumber s c = some t)
    (hs : s.inText = false) : Outside c s.awaiting.closers t := by
  obtain ⟨mode, a⟩ := s
  cases mode with
  | plain => exact outside_plain h
  | number chars =>
      by_cases hc : isNumeralChar c = true
      · obtain rfl := Option.some.inj ((if_pos hc).symm.trans h)
        exact .stay (notMem_brackets hc (by decide)) rfl rfl
      · obtain ⟨next, hnext, hstep⟩ := Option.bind_eq_some_iff.mp ((if_neg hc).symm.trans h)
        obtain ⟨n, hscalar⟩ := readNumeral_ok hnext
        rw [← closers_scalar hscalar]
        exact outside_plain hstep
  | word word read =>
      simp only [Reader.step, stepWord] at h
      split at h
      · rename_i hletter
        have hmem := List.mem_of_getElem? hletter
        have hc : c ∉ ['[', ']', '\x7b', '\x7d', '"', '\''] := by
          intro hbracket
          fin_cases hbracket <;> cases word <;> simp [Word.letters] at hmem
        split at h
        · obtain ⟨next, hnext, rfl⟩ := Option.map_eq_some_iff.mp h
          exact .stay hc rfl (closers_scalar hnext)
        · obtain rfl := Option.some.inj h
          exact .stay hc rfl rfl
      · cases h
  | text _ | escape _ | hex _ _ _ | high _ _ | highEscape _ _ => cases hs

/-- The next character of a string is escaped. -/
def Reader.isEscaped (s : Reader) : Bool :=
  match s.mode with
  | .escape _ | .highEscape _ _ => true
  | _ => false

/-- What a character of a string does. -/
inductive Within (c : Char) (s : Reader) : Reader → Prop
  | escaped {t : Reader} : s.isEscaped = true → t.inText = true → t.isEscaped = false →
      t.awaiting = s.awaiting → Within c s t
  | escape {t : Reader} : s.isEscaped = false → c = '\\' → t.inText = true → t.isEscaped = true →
      t.awaiting = s.awaiting → Within c s t
  | close {t : Reader} : s.isEscaped = false → c = '"' → t.inText = false →
      t.awaiting.closers = s.awaiting.closers → Within c s t
  | stay {t : Reader} : s.isEscaped = false → c ≠ '\\' → c ≠ '"' → t.inText = true →
      t.isEscaped = false → t.awaiting = s.awaiting → Within c s t

theorem within_step {s t : Reader} {c : Char} (h : Reader.step readNumber s c = some t)
    (hs : s.inText = true) : Within c s t := by
  obtain ⟨mode, a⟩ := s
  cases mode with
  | text chars =>
      simp only [Reader.step, stepText] at h
      split at h
      · rename_i hquote
        obtain ⟨next, hnext, rfl⟩ := Option.map_eq_some_iff.mp h
        exact .close rfl hquote rfl (closers_scalar hnext)
      · rename_i hquote
        split at h
        · rename_i hslash
          obtain rfl := Option.some.inj h
          exact .escape rfl hslash rfl rfl rfl
        · rename_i hslash
          obtain ⟨-, hstay⟩ := Option.ite_none_left_eq_some.mp h
          obtain rfl := Option.some.inj hstay
          exact .stay rfl hslash hquote rfl rfl rfl
  | escape chars =>
      simp only [Reader.step] at h
      split at h
      · obtain rfl := Option.some.inj h
        exact .escaped rfl rfl rfl rfl
      · obtain ⟨char, -, rfl⟩ := Option.map_eq_some_iff.mp h
        exact .escaped rfl rfl rfl rfl
  | hex chars high digits =>
      obtain ⟨hdigit, mode, rfl, htext, hescape, hhigh⟩ := hex_step h
      have hplain : Reader.isEscaped ⟨mode, a⟩ = false := by
        cases mode with
        | escape chars => exact absurd rfl (hescape chars)
        | highEscape chars code => exact absurd rfl (hhigh chars code)
        | _ => rfl
      refine .stay rfl ?_ ?_ htext hplain rfl <;> rintro rfl <;> cases hdigit
  | high chars code =>
      obtain ⟨hslash, rfl⟩ := Option.ite_some_none_eq_some.mp h
      exact .escape rfl hslash rfl rfl rfl
  | highEscape chars code =>
      obtain ⟨-, rfl⟩ := Option.ite_some_none_eq_some.mp h
      exact .escaped rfl rfl rfl rfl
  | plain | word _ _ | number _ => cases hs

end Nesting

end Kyberion.Js
