import Kyberion.Js.Json
import Mathlib.Tactic.FinCases
import Mathlib.Data.Fintype.Basic

/-!
The printed text of a JSON value whose numbers are all printable determines the
value. Each value ends where its text says: a closing quote, a bracket, or the
first character that no number has.
-/

namespace Kyberion.Js

def hexValue (c : Char) : ℕ :=
  "0123456789abcdef".toList.idxOf c

/-- The character an escape stands for, after its backslash. -/
def unescapeTail : List Char → Option (Char × List Char)
  | 'u' :: _ :: _ :: a :: b :: rest => some (Char.ofNat (16 * hexValue a + hexValue b), rest)
  | e :: rest => (shortEscapes.find? (·.2 = e)).map fun p => (p.1, rest)
  | [] => none

/-- One character of a quoted string; none at the closing quote. -/
def unescape : List Char → Option (Char × List Char)
  | [] => none
  | c :: rest =>
      if c = '\\' then unescapeTail rest else if c = '"' then none else some (c, rest)

private theorem unescape_control (n : Fin 32) (rest : List Char) :
    unescape (escape (Char.ofNat n) ++ rest) = some (Char.ofNat n, rest) := by
  fin_cases n <;> rfl

theorem escape_plain {c : Char} (hcontrol : ¬ c.toNat < 32) (hquote : c ≠ '"') (hslash : c ≠ '\\') :
    escape c = [c] := by
  have hplain : shortEscapes.find? (fun p => decide (p.1 = c)) = none := by
    rw [List.find?_eq_none]
    intro p hp heq
    obtain rfl : p.1 = c := by simpa using heq
    simp only [shortEscapes, List.mem_cons, List.not_mem_nil, or_false] at hp
    rcases hp with rfl | rfl | rfl | rfl | rfl | rfl | rfl
    · exact hquote rfl
    · exact hslash rfl
    all_goals exact hcontrol (by decide)
  rw [escape, hplain]
  exact if_neg hcontrol

theorem unescape_escape (c : Char) (rest : List Char) :
    unescape (escape c ++ rest) = some (c, rest) := by
  by_cases hcontrol : c.toNat < 32
  · have h := unescape_control ⟨c.toNat, hcontrol⟩ rest
    rwa [Char.ofNat_toNat] at h
  by_cases hquote : c = '"'
  · subst hquote
    rfl
  by_cases hslash : c = '\\'
  · subst hslash
    rfl
  · rw [escape_plain hcontrol hquote hslash, List.singleton_append, unescape, if_neg hslash,
      if_neg hquote]

theorem unescape_quote (rest : List Char) : unescape ('"' :: rest) = none := rfl

theorem flatMap_escape_inj {cs ds rest rest' : List Char}
    (h : cs.flatMap escape ++ '"' :: rest = ds.flatMap escape ++ '"' :: rest') :
    cs = ds ∧ rest = rest' := by
  induction cs generalizing ds with
  | nil =>
      cases ds with
      | nil => exact ⟨rfl, by simpa using h⟩
      | cons d ds =>
          have hread := congrArg unescape h
          rw [List.flatMap_cons, List.append_assoc, unescape_escape] at hread
          cases hread
  | cons c cs ih =>
      have hread := congrArg unescape h
      rw [List.flatMap_cons, List.append_assoc, unescape_escape] at hread
      cases ds with
      | nil => cases hread
      | cons d ds =>
          rw [List.flatMap_cons, List.append_assoc, unescape_escape] at hread
          obtain ⟨rfl, hrest⟩ := Prod.mk.inj (Option.some.inj hread)
          obtain ⟨rfl, hend⟩ := ih hrest
          exact ⟨rfl, hend⟩

theorem quote_inj {s t : String} {rest rest' : List Char}
    (h : quote s ++ rest = quote t ++ rest') : s = t ∧ rest = rest' := by
  simp only [quote, List.cons_append, List.append_assoc, List.nil_append, List.cons.injEq,
    true_and] at h
  obtain ⟨hlist, hrest⟩ := flatMap_escape_inj h
  exact ⟨String.toList_inj.mp hlist, hrest⟩

/-- Text after which a number has ended. -/
def Closed (rest : List Char) : Prop :=
  ∀ c, rest.head? = some c → isNumeric c = false

theorem closed_nil : Closed [] := by
  intro c hc
  cases hc

theorem closed_cons {c : Char} {rest : List Char} (h : isNumeric c = false) :
    Closed (c :: rest) := by
  intro d hd
  obtain rfl := Option.some.inj hd
  exact h

theorem numeric_append_inj {cs ds rest rest' : List Char}
    (hcs : ∀ c ∈ cs, isNumeric c = true) (hds : ∀ c ∈ ds, isNumeric c = true)
    (hrest : Closed rest) (hrest' : Closed rest') (h : cs ++ rest = ds ++ rest') :
    cs = ds ∧ rest = rest' := by
  induction cs generalizing ds with
  | nil =>
      cases ds with
      | nil => exact ⟨rfl, h⟩
      | cons d ds =>
          have hd : isNumeric d = false := hrest d (by rw [← List.nil_append rest, h]; rfl)
          rw [hds d List.mem_cons_self] at hd
          cases hd
  | cons c cs ih =>
      cases ds with
      | nil =>
          have hc : isNumeric c = false := hrest' c (by rw [← List.nil_append rest', ← h]; rfl)
          rw [hcs c List.mem_cons_self] at hc
          cases hc
      | cons d ds =>
          obtain ⟨rfl, htail⟩ := List.cons.inj h
          obtain ⟨rfl, hend⟩ := ih (fun x hx => hcs x (List.mem_cons_of_mem c hx))
            (fun x hx => hds x (List.mem_cons_of_mem c hx)) htail
          exact ⟨rfl, hend⟩

namespace Json

inductive Kind
  | null | yes | no | num | str | arr | obj | stray
  deriving DecidableEq

def kind : Json → Kind
  | .null => .null
  | .bool true => .yes
  | .bool false => .no
  | .num _ => .num
  | .str _ => .str
  | .arr _ => .arr
  | .obj _ => .obj

/-- The kind an exact value announces with the first character of its text. -/
def leadKind (c : Char) : Kind :=
  if isNumeric c then .num
  else if c = 'n' then .null
  else if c = 't' then .yes
  else if c = 'f' then .no
  else if c = '"' then .str
  else if c = '[' then .arr
  else if c = '{' then .obj
  else .stray

theorem text_lead {v : Json} (h : v.exact = true) :
    ∃ c cs, v.text = c :: cs ∧ leadKind c = v.kind := by
  cases v with
  | null => exact ⟨_, _, rfl, rfl⟩
  | bool b => cases b <;> exact ⟨_, _, rfl, rfl⟩
  | num n =>
      cases n with
      | finite t =>
          obtain ⟨c, cs, ht⟩ := List.exists_cons_of_ne_nil t.nonempty
          refine ⟨c, cs, ht, if_pos (t.numeric c ?_)⟩
          rw [ht]
          exact List.mem_cons_self
      | negZero => cases h
      | notFinite => cases h
  | str s => exact ⟨_, _, rfl, rfl⟩
  | arr items => cases items <;> exact ⟨_, _, rfl, rfl⟩
  | obj fields => cases fields <;> exact ⟨_, _, rfl, rfl⟩

theorem kind_eq_of_text {v w : Json} {rest rest' : List Char} (hv : v.exact = true)
    (hw : w.exact = true) (h : v.text ++ rest = w.text ++ rest') : v.kind = w.kind := by
  obtain ⟨c, cs, hvt, hvk⟩ := text_lead hv
  obtain ⟨d, ds, hwt, hwk⟩ := text_lead hw
  rw [hvt, hwt] at h
  obtain ⟨rfl, -⟩ := List.cons.inj h
  rw [← hvk, ← hwk]

/-- No value begins with a character that begins none. -/
theorem text_ne_stray {v : Json} {c : Char} {rest rest' : List Char} (hv : v.exact = true)
    (hc : leadKind c = .stray) : c :: rest ≠ v.text ++ rest' := by
  intro h
  obtain ⟨d, ds, hvt, hvk⟩ := text_lead hv
  rw [hvt] at h
  obtain ⟨rfl, -⟩ := List.cons.inj h
  rw [hc] at hvk
  cases v <;> first | cases hvk | skip
  rename_i b
  cases b <;> cases hvk

theorem closed_itemsText (items : List Json) (rest : List Char) :
    Closed (itemsText items ++ rest) := by
  cases items <;> exact closed_cons (by decide)

theorem closed_fieldsText (fields : List (String × Json)) (rest : List Char) :
    Closed (fieldsText fields ++ rest) := by
  cases fields <;> exact closed_cons (by decide)

theorem eq_null_of_kind {w : Json} (h : w.kind = .null) : w = .null := by
  cases w with
  | null => rfl
  | bool b => cases b <;> cases h
  | _ => cases h

theorem eq_bool_of_kind {b : Bool} {w : Json} (h : w.kind = (Json.bool b).kind) : w = .bool b := by
  cases w with
  | bool a => cases a <;> cases b <;> first | rfl | cases h
  | _ => cases b <;> cases h

theorem eq_num_of_kind {w : Json} (h : w.kind = .num) : ∃ n, w = .num n := by
  cases w with
  | num n => exact ⟨n, rfl⟩
  | bool b => cases b <;> cases h
  | _ => cases h

theorem eq_str_of_kind {w : Json} (h : w.kind = .str) : ∃ s, w = .str s := by
  cases w with
  | str s => exact ⟨s, rfl⟩
  | bool b => cases b <;> cases h
  | _ => cases h

theorem eq_arr_of_kind {w : Json} (h : w.kind = .arr) : ∃ items, w = .arr items := by
  cases w with
  | arr items => exact ⟨items, rfl⟩
  | bool b => cases b <;> cases h
  | _ => cases h

theorem eq_obj_of_kind {w : Json} (h : w.kind = .obj) : ∃ fields, w = .obj fields := by
  cases w with
  | obj fields => exact ⟨fields, rfl⟩
  | bool b => cases b <;> cases h
  | _ => cases h

mutual

/-- Unique reading: equal texts of exact values end at the same place. -/
theorem text_inj : ∀ (v w : Json) {rest rest' : List Char}, v.exact = true → w.exact = true →
    Closed rest → Closed rest' → v.text ++ rest = w.text ++ rest' → v = w ∧ rest = rest'
  | .null, w, rest, rest', hv, hw, _, _, h => by
      obtain rfl := eq_null_of_kind (kind_eq_of_text hv hw h).symm
      exact ⟨rfl, by simpa [text] using h⟩
  | .bool b, w, rest, rest', hv, hw, _, _, h => by
      obtain rfl := eq_bool_of_kind (kind_eq_of_text hv hw h).symm
      exact ⟨rfl, List.append_cancel_left h⟩
  | .num n, w, rest, rest', hv, hw, hrest, hrest', h => by
      obtain ⟨m, rfl⟩ := eq_num_of_kind (kind_eq_of_text hv hw h).symm
      cases n with
      | finite s =>
          cases m with
          | finite t =>
              obtain ⟨hchars, hend⟩ := numeric_append_inj s.numeric t.numeric hrest hrest' h
              cases s
              cases t
              cases hchars
              exact ⟨rfl, hend⟩
          | negZero => cases hw
          | notFinite => cases hw
      | negZero => cases hv
      | notFinite => cases hv
  | .str s, w, rest, rest', hv, hw, _, _, h => by
      obtain ⟨t, rfl⟩ := eq_str_of_kind (kind_eq_of_text hv hw h).symm
      obtain ⟨rfl, hend⟩ := quote_inj h
      exact ⟨rfl, hend⟩
  | .arr [], w, rest, rest', hv, hw, _, _, h => by
      obtain ⟨items, rfl⟩ := eq_arr_of_kind (kind_eq_of_text hv hw h).symm
      cases items with
      | nil => exact ⟨rfl, List.append_cancel_left h⟩
      | cons u items =>
          rw [exact, exactItems, Bool.and_eq_true] at hw
          simp only [text, List.cons_append, List.append_assoc, List.cons.injEq, true_and] at h
          exact absurd h (text_ne_stray hw.1 (by decide))
  | .arr (u :: items), w, rest, rest', hv, hw, _, _, h => by
      obtain ⟨items', rfl⟩ := eq_arr_of_kind (kind_eq_of_text hv hw h).symm
      rw [exact, exactItems, Bool.and_eq_true] at hv
      cases items' with
      | nil =>
          simp only [text, List.cons_append, List.append_assoc, List.cons.injEq, true_and] at h
          exact absurd h.symm (text_ne_stray hv.1 (by decide))
      | cons u' items' =>
          rw [exact, exactItems, Bool.and_eq_true] at hw
          simp only [text, List.cons_append, List.append_assoc, List.cons.injEq, true_and] at h
          obtain ⟨rfl, htail⟩ := text_inj u u' hv.1 hw.1 (closed_itemsText items rest)
            (closed_itemsText items' rest') h
          obtain ⟨rfl, hend⟩ := itemsText_inj items items' hv.2 hw.2 htail
          exact ⟨rfl, hend⟩
  | .obj [], w, rest, rest', hv, hw, _, _, h => by
      obtain ⟨fields, rfl⟩ := eq_obj_of_kind (kind_eq_of_text hv hw h).symm
      cases fields with
      | nil => exact ⟨rfl, List.append_cancel_left h⟩
      | cons f fields => simp [text, quote] at h
  | .obj ((k, u) :: fields), w, rest, rest', hv, hw, _, _, h => by
      obtain ⟨fields', rfl⟩ := eq_obj_of_kind (kind_eq_of_text hv hw h).symm
      rw [exact, exactFields, Bool.and_eq_true] at hv
      cases fields' with
      | nil => simp [text, quote] at h
      | cons f fields' =>
          obtain ⟨k', u'⟩ := f
          rw [exact, exactFields, Bool.and_eq_true] at hw
          simp only [text, List.cons_append, List.append_assoc, List.cons.injEq, true_and] at h
          obtain ⟨rfl, hvalue⟩ := quote_inj h
          obtain ⟨rfl, htail⟩ := text_inj u u' hv.1 hw.1 (closed_fieldsText fields rest)
            (closed_fieldsText fields' rest') (List.cons.inj hvalue).2
          obtain ⟨rfl, hend⟩ := fieldsText_inj fields fields' hv.2 hw.2 htail
          exact ⟨rfl, hend⟩

theorem itemsText_inj : ∀ (items items' : List Json) {rest rest' : List Char},
    exactItems items = true → exactItems items' = true →
    itemsText items ++ rest = itemsText items' ++ rest' → items = items' ∧ rest = rest'
  | [], [], _, _, _, _, h => ⟨rfl, List.append_cancel_left h⟩
  | [], _ :: _, _, _, _, _, h => by simp [itemsText] at h
  | _ :: _, [], _, _, _, _, h => by simp [itemsText] at h
  | v :: items, w :: items', rest, rest', hv, hw, h => by
      rw [exactItems, Bool.and_eq_true] at hv hw
      simp only [itemsText, List.cons_append, List.append_assoc, List.cons.injEq, true_and] at h
      obtain ⟨rfl, htail⟩ := text_inj v w hv.1 hw.1 (closed_itemsText items rest)
        (closed_itemsText items' rest') h
      obtain ⟨rfl, hend⟩ := itemsText_inj items items' hv.2 hw.2 htail
      exact ⟨rfl, hend⟩

theorem fieldsText_inj : ∀ (fields fields' : List (String × Json)) {rest rest' : List Char},
    exactFields fields = true → exactFields fields' = true →
    fieldsText fields ++ rest = fieldsText fields' ++ rest' → fields = fields' ∧ rest = rest'
  | [], [], _, _, _, _, h => ⟨rfl, List.append_cancel_left h⟩
  | [], _ :: _, _, _, _, _, h => by simp [fieldsText] at h
  | _ :: _, [], _, _, _, _, h => by simp [fieldsText] at h
  | (k, v) :: fields, (l, w) :: fields', rest, rest', hv, hw, h => by
      rw [exactFields, Bool.and_eq_true] at hv hw
      simp only [fieldsText, List.cons_append, List.append_assoc, List.cons.injEq, true_and] at h
      obtain ⟨rfl, hvalue⟩ := quote_inj h
      obtain ⟨rfl, htail⟩ := text_inj v w hv.1 hw.1 (closed_fieldsText fields rest)
        (closed_fieldsText fields' rest') (List.cons.inj hvalue).2
      obtain ⟨rfl, hend⟩ := fieldsText_inj fields fields' hv.2 hw.2 htail
      exact ⟨rfl, hend⟩

end

/-- Two values print the same text exactly when they read back the same. -/
theorem stringify_eq_iff {v w : Json} : v.stringify = w.stringify ↔ v.printed = w.printed := by
  constructor
  · intro h
    have htext : v.text = w.text := String.ofList_injective h
    have hprinted : v.printed.text ++ [] = w.printed.text ++ [] := by
      rw [text_printed, text_printed, htext]
    exact (text_inj _ _ (exact_printed v) (exact_printed w) closed_nil closed_nil hprinted).1
  · intro h
    rw [stringify, stringify, ← text_printed v, h, text_printed]

end Json

end Kyberion.Js
