import Kyberion.Grammar
import Mathlib.Data.List.DropRight

/-!
The string operations of the runtime that the modelled code relies on.
`trim` removes the ECMAScript white space and line terminators on both ends;
the Unicode tables behind `normalize` and `toLowerCase` stay parameters.
-/

namespace Kyberion.Js

/-- ECMAScript `WhiteSpace` and `LineTerminator` code points. -/
def isWhiteSpace (c : Char) : Bool :=
  [0x09, 0x0A, 0x0B, 0x0C, 0x0D, 0x20, 0xA0, 0x1680, 0x2000, 0x2001, 0x2002, 0x2003, 0x2004,
    0x2005, 0x2006, 0x2007, 0x2008, 0x2009, 0x200A, 0x2028, 0x2029, 0x202F, 0x205F, 0x3000,
    0xFEFF].contains c.toNat

def trim (s : String) : String :=
  String.ofList ((s.toList.dropWhile isWhiteSpace).rdropWhile isWhiteSpace)

/-- No character of an id is white space. -/
theorem idChar_notWhiteSpace {c : Char} (h : (isDigit c || isLower c || c = '-') = true) :
    isWhiteSpace c = false := by
  have hbounds : 45 ≤ c.toNat ∧ c.toNat ≤ 122 := by
    simp only [isDigit, isLower, Bool.or_eq_true, Bool.and_eq_true, decide_eq_true_eq,
      Char.le_def, UInt32.le_iff_toNat_le] at h
    rcases h with (⟨hlo, hhi⟩ | ⟨hlo, hhi⟩) | rfl
    · exact ⟨Nat.le_trans (by decide) hlo, Nat.le_trans hhi (by decide)⟩
    · exact ⟨Nat.le_trans (by decide) hlo, Nat.le_trans hhi (by decide)⟩
    · decide
  simp only [isWhiteSpace, List.contains_eq_mem, decide_eq_false_iff_not, List.mem_cons,
    List.not_mem_nil, or_false]
  omega

theorem trim_ofList {cs : List Char} (h : ∀ c ∈ cs, isWhiteSpace c = false) :
    trim (String.ofList cs) = String.ofList cs := by
  rw [trim, String.toList_ofList]
  have hdrop : cs.dropWhile isWhiteSpace = cs := by
    cases cs with
    | nil => rfl
    | cons c cs => simp [h c List.mem_cons_self]
  rw [hdrop, List.rdropWhile_eq_self_iff.mpr]
  intro hne
  simp [h _ (List.getLast_mem hne)]

@[simp] theorem trim_trim (s : String) : trim (trim s) = trim s := by
  simp only [trim, String.toList_ofList]
  have hhead (cs l : List Char) (hl : l <+: cs.dropWhile isWhiteSpace) :
      l.dropWhile isWhiteSpace = l := by
    cases l with
    | nil => rfl
    | cons c l =>
        obtain ⟨rest, hrest⟩ := hl
        have hc := List.head?_dropWhile_not isWhiteSpace cs
        rw [← hrest] at hc
        simpa using hc
  rw [hhead _ _ (List.rdropWhile_prefix _ _), List.rdropWhile_idempotent]

/-- The code units of a text. -/
def utf16 (s : String) : List ℕ :=
  s.toList.flatMap fun c =>
    if c.toNat < 0x10000 then [c.toNat]
    else [0xD800 + (c.toNat - 0x10000) / 0x400, 0xDC00 + (c.toNat - 0x10000) % 0x400]

/-- The code units of a character tell it, and where they end. -/
theorem units_append_inj {c d : Char} {units rest : List ℕ}
    (h : (if c.toNat < 0x10000 then [c.toNat]
        else [0xD800 + (c.toNat - 0x10000) / 0x400, 0xDC00 + (c.toNat - 0x10000) % 0x400]) ++ units =
      (if d.toNat < 0x10000 then [d.toNat]
        else [0xD800 + (d.toNat - 0x10000) / 0x400, 0xDC00 + (d.toNat - 0x10000) % 0x400]) ++ rest) :
    c = d ∧ units = rest := by
  have hc : c.toNat < 0xD800 ∨ 0xDFFF < c.toNat ∧ c.toNat < 0x110000 := c.valid
  have hd : d.toNat < 0xD800 ∨ 0xDFFF < d.toNat ∧ d.toNat < 0x110000 := d.valid
  suffices hunits : c.toNat = d.toNat ∧ units = rest from ⟨Char.toNat_inj.mp hunits.1, hunits.2⟩
  split at h <;> split at h <;>
    simp only [List.cons_append, List.nil_append, List.cons.injEq] at h
  · exact h
  · omega
  · omega
  · exact ⟨by omega, h.2.2⟩

theorem utf16_injective : Function.Injective utf16 := by
  intro a b h
  refine String.toList_inj.mp ?_
  unfold utf16 at h
  generalize a.toList = cs at h ⊢
  generalize b.toList = ds at h ⊢
  induction cs generalizing ds with
  | nil =>
      cases ds with
      | nil => rfl
      | cons d ds =>
          rw [List.flatMap_nil, List.flatMap_cons] at h
          split at h <;> cases h
  | cons c cs ih =>
      cases ds with
      | nil =>
          rw [List.flatMap_nil, List.flatMap_cons] at h
          split at h <;> cases h
      | cons d ds =>
          obtain ⟨rfl, hrest⟩ := units_append_inj h
          rw [ih ds hrest]

/-- `s.length` -/
def utf16Length (s : String) : ℕ :=
  (utf16 s).length

/-- The text `s.slice(0, n)`, without half a surrogate pair at its end. -/
def sliceHead : ℕ → List Char → List Char
  | _, [] => []
  | n, c :: cs =>
      let width := if c.toNat < 0x10000 then 1 else 2
      if width ≤ n then c :: sliceHead (n - width) cs else []

/-- `a < b` on texts. -/
def textLt (a b : String) : Bool :=
  decide (utf16 a < utf16 b)

/-- `!s.trim()` -/
def isBlank (s : String) : Bool :=
  trim s = ""

/-- `a || b` on texts. -/
def orElse (a : Option String) (b : String) : String :=
  match a with
  | some s => if s = "" then b else s
  | none => b

/-- `s.replace(/\r\n/g, '\n')` -/
def crlfToLf : List Char → List Char
  | '\r' :: '\n' :: rest => '\n' :: crlfToLf rest
  | c :: rest => c :: crlfToLf rest
  | [] => []

structure Unicode where
  normalizeNfkc : String → String
  toLowerCase : String → String

/-- `s.replace(/^(?:w₁|w₂|…):/, '')` for words of which none extends another. -/
def dropWordPrefix (words : List String) (s : String) : String :=
  match words.find? fun w => (w ++ ":").toList.isPrefixOf s.toList with
  | some w => String.ofList (s.toList.drop (w.length + 1))
  | none => s

end Kyberion.Js
