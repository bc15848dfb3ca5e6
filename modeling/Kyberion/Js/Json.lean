import Mathlib.Data.List.Basic

/-!
JSON values as `JSON.parse` returns them and the text `JSON.stringify` prints.
The text forgets exactly the numbers it cannot print: `-0` prints as `0`, the
others as `null`. Values without such numbers are determined by their text.
-/

namespace Kyberion.Js

/-- Characters of a printed number. -/
def isNumeric (c : Char) : Bool :=
  "0123456789+-.e".toList.contains c

/-- A finite number other than `-0`, named by the text the language prints for it. -/
structure NumText where
  chars : List Char
  nonempty : chars ≠ []
  numeric : ∀ c ∈ chars, isNumeric c = true
  deriving DecidableEq

def NumText.zero : NumText :=
  ⟨['0'], by decide, by simp [isNumeric]⟩

theorem isNumeric_of_isDigit {c : Char} (h : c.isDigit = true) : isNumeric c = true := by
  have hdigits : ∀ n, n < 10 → isNumeric (Char.ofNat (48 + n)) = true := by decide
  simp only [Char.isDigit, Bool.and_eq_true, decide_eq_true_eq, ge_iff_le,
    UInt32.le_iff_toNat_le] at h
  have hlo : 48 ≤ c.toNat := h.1
  have hhi : c.toNat ≤ 57 := h.2
  rw [← Char.ofNat_toNat c, show c.toNat = 48 + (c.toNat - 48) by omega]
  exact hdigits _ (by omega)

inductive Number
  | finite (text : NumText)
  | negZero
  | notFinite
  deriving DecidableEq

inductive Json
  | null
  | bool (b : Bool)
  | num (n : Number)
  | str (s : String)
  | arr (items : List Json)
  | obj (fields : List (String × Json))

/-- A natural number; those below 10^21 print all their digits. -/
def Json.nat (n : ℕ) : Json :=
  .num (.finite
    { chars := Nat.toDigits 10 n
      nonempty := Nat.toDigits_ne_nil
      numeric := fun _ hc =>
        isNumeric_of_isDigit (Nat.isDigit_of_mem_toDigits (by decide) (by decide) hc) })

theorem Json.nat_inj {m n : ℕ} (h : Json.nat m = Json.nat n) : m = n := by
  simp only [Json.nat, Json.num.injEq, Number.finite.injEq, NumText.mk.injEq] at h
  rw [← Nat.ofDigitChars_ten_toDigits (n := m), h, Nat.ofDigitChars_ten_toDigits]

/-- Characters with an escape of their own. -/
def shortEscapes : List (Char × Char) :=
  [('"', '"'), ('\\', '\\'), ('\x08', 'b'), ('\t', 't'), ('\n', 'n'), ('\x0C', 'f'), ('\r', 'r')]

def hexDigit (n : ℕ) : Char :=
  "0123456789abcdef".toList.getD n '0'

def escape (c : Char) : List Char :=
  match shortEscapes.find? (·.1 = c) with
  | some p => ['\\', p.2]
  | none =>
      if c.toNat < 0x20 then ['\\', 'u', '0', '0', hexDigit (c.toNat / 16), hexDigit (c.toNat % 16)]
      else [c]

def quote (s : String) : List Char :=
  '"' :: (s.toList.flatMap escape ++ ['"'])

namespace Json

mutual

/-- The characters of `JSON.stringify`. -/
def text : Json → List Char
  | .null => ['n', 'u', 'l', 'l']
  | .bool true => ['t', 'r', 'u', 'e']
  | .bool false => ['f', 'a', 'l', 's', 'e']
  | .num (.finite t) => t.chars
  | .num .negZero => ['0']
  | .num .notFinite => ['n', 'u', 'l', 'l']
  | .str s => quote s
  | .arr [] => ['[', ']']
  | .arr (v :: items) => '[' :: (v.text ++ itemsText items)
  | .obj [] => ['{', '}']
  | .obj ((k, v) :: fields) => '{' :: (quote k ++ ':' :: (v.text ++ fieldsText fields))

def itemsText : List Json → List Char
  | [] => [']']
  | v :: items => ',' :: (v.text ++ itemsText items)

def fieldsText : List (String × Json) → List Char
  | [] => ['}']
  | (k, v) :: fields => ',' :: (quote k ++ ':' :: (v.text ++ fieldsText fields))

end

def stringify (v : Json) : String :=
  String.ofList v.text

mutual

/-- `String(value)` -/
def asString : Json → String
  | .null => "null"
  | .bool b => if b then "true" else "false"
  | .num (.finite t) => String.ofList t.chars
  | .num .negZero => "0"
  | .num .notFinite => "Infinity"
  | .str s => s
  | .arr items => String.intercalate "," (itemStrings items)
  | .obj _ => "[object Object]"

def itemStrings : List Json → List String
  | [] => []
  | .null :: items => "" :: itemStrings items
  | v :: items => v.asString :: itemStrings items

end

mutual

/-- `isDeepStrictEqual` on parsed values: the order of object keys does not count. -/
def deepEqual : Json → Json → Bool
  | .null, .null => true
  | .bool a, .bool b => a = b
  | .num a, .num b => a = b
  | .str a, .str b => a = b
  | .arr items, .arr others => items.length = others.length && deepEqualItems items others
  | .obj fields, .obj others => fields.length = others.length && deepEqualFields fields others
  | _, _ => false

def deepEqualItems : List Json → List Json → Bool
  | [], _ => true
  | _ :: _, [] => false
  | v :: items, w :: others => v.deepEqual w && deepEqualItems items others

def deepEqualFields : List (String × Json) → List (String × Json) → Bool
  | [], _ => true
  | (k, v) :: fields, others =>
      (match others.lookup k with
        | some w => v.deepEqual w
        | none => false) && deepEqualFields fields others

end

mutual

/-- What reading the printed text returns. -/
def printed : Json → Json
  | .null => .null
  | .bool b => .bool b
  | .num (.finite t) => .num (.finite t)
  | .num .negZero => .num (.finite .zero)
  | .num .notFinite => .null
  | .str s => .str s
  | .arr items => .arr (printedItems items)
  | .obj fields => .obj (printedFields fields)

def printedItems : List Json → List Json
  | [] => []
  | v :: items => v.printed :: printedItems items

def printedFields : List (String × Json) → List (String × Json)
  | [] => []
  | (k, v) :: fields => (k, v.printed) :: printedFields fields

end

mutual

/-- Every number prints back to itself. -/
def exact : Json → Bool
  | .num (.finite _) => true
  | .num _ => false
  | .arr items => exactItems items
  | .obj fields => exactFields fields
  | _ => true

def exactItems : List Json → Bool
  | [] => true
  | v :: items => v.exact && exactItems items

def exactFields : List (String × Json) → Bool
  | [] => true
  | (_, v) :: fields => v.exact && exactFields fields

end

mutual

/-- No object key of the tree may reach a prototype. -/
def isSafeJsonValue : Json → Bool
  | .arr items => safeItems items
  | .obj fields => safeFields fields
  | _ => true

def safeItems : List Json → Bool
  | [] => true
  | v :: items => v.isSafeJsonValue && safeItems items

def safeFields : List (String × Json) → Bool
  | [] => true
  | (k, v) :: fields =>
      !(["__proto__", "constructor", "prototype"].contains k) && v.isSafeJsonValue &&
        safeFields fields

end

/-- `value[key]` on a parsed value. -/
def get (key : String) : Json → Option Json
  | .obj fields => fields.lookup key
  | _ => none

def isRecord : Json → Bool
  | .obj _ => true
  | _ => false

mutual

theorem exact_printed : ∀ v : Json, v.printed.exact = true
  | .null => rfl
  | .bool _ => rfl
  | .num (.finite _) => rfl
  | .num .negZero => rfl
  | .num .notFinite => rfl
  | .str _ => rfl
  | .arr items => by rw [printed, exact, exactItems_printed items]
  | .obj fields => by rw [printed, exact, exactFields_printed fields]

theorem exactItems_printed : ∀ items : List Json, exactItems (printedItems items) = true
  | [] => rfl
  | v :: items => by
      rw [printedItems, exactItems, exact_printed v, exactItems_printed items, Bool.and_true]

theorem exactFields_printed :
    ∀ fields : List (String × Json), exactFields (printedFields fields) = true
  | [] => rfl
  | (_, v) :: fields => by
      rw [printedFields, exactFields, exact_printed v, exactFields_printed fields, Bool.and_true]

end

mutual

theorem printed_of_exact : ∀ v : Json, v.exact = true → v.printed = v
  | .null, _ => rfl
  | .bool _, _ => rfl
  | .num (.finite _), _ => rfl
  | .num .negZero, h => by cases h
  | .num .notFinite, h => by cases h
  | .str _, _ => rfl
  | .arr items, h => by rw [printed, printedItems_of_exact items h]
  | .obj fields, h => by rw [printed, printedFields_of_exact fields h]

theorem printedItems_of_exact :
    ∀ items : List Json, exactItems items = true → printedItems items = items
  | [], _ => rfl
  | v :: items, h => by
      rw [exactItems, Bool.and_eq_true] at h
      rw [printedItems, printed_of_exact v h.1, printedItems_of_exact items h.2]

theorem printedFields_of_exact :
    ∀ fields : List (String × Json), exactFields fields = true → printedFields fields = fields
  | [], _ => rfl
  | (_, v) :: fields, h => by
      rw [exactFields, Bool.and_eq_true] at h
      rw [printedFields, printed_of_exact v h.1, printedFields_of_exact fields h.2]

end

theorem printed_eq_self_iff (v : Json) : v.printed = v ↔ v.exact = true := by
  constructor
  · intro h
    rw [← h]
    exact exact_printed v
  · exact printed_of_exact v

mutual

/-- A value and what its text reads back to print alike. -/
theorem text_printed : ∀ v : Json, v.printed.text = v.text
  | .null => rfl
  | .bool _ => rfl
  | .num (.finite _) => rfl
  | .num .negZero => rfl
  | .num .notFinite => rfl
  | .str _ => rfl
  | .arr [] => rfl
  | .arr (v :: items) => by
      rw [printed, printedItems, text, text, text_printed v, itemsText_printed items]
  | .obj [] => rfl
  | .obj ((k, v) :: fields) => by
      rw [printed, printedFields, text, text, text_printed v, fieldsText_printed fields]

theorem itemsText_printed :
    ∀ items : List Json, itemsText (printedItems items) = itemsText items
  | [] => rfl
  | v :: items => by
      rw [printedItems, itemsText, itemsText, text_printed v, itemsText_printed items]

theorem fieldsText_printed :
    ∀ fields : List (String × Json), fieldsText (printedFields fields) = fieldsText fields
  | [] => rfl
  | (k, v) :: fields => by
      rw [printedFields, fieldsText, fieldsText, text_printed v, fieldsText_printed fields]

end

mutual

theorem isSafeJsonValue_printed : ∀ v : Json, v.printed.isSafeJsonValue = v.isSafeJsonValue
  | .null => rfl
  | .bool _ => rfl
  | .num (.finite _) => rfl
  | .num .negZero => rfl
  | .num .notFinite => rfl
  | .str _ => rfl
  | .arr items => by rw [printed, isSafeJsonValue, isSafeJsonValue, safeItems_printed items]
  | .obj fields => by rw [printed, isSafeJsonValue, isSafeJsonValue, safeFields_printed fields]

theorem safeItems_printed : ∀ items : List Json, safeItems (printedItems items) = safeItems items
  | [] => rfl
  | v :: items => by
      rw [printedItems, safeItems, safeItems, isSafeJsonValue_printed v, safeItems_printed items]

theorem safeFields_printed :
    ∀ fields : List (String × Json), safeFields (printedFields fields) = safeFields fields
  | [] => rfl
  | (_, v) :: fields => by
      rw [printedFields, safeFields, safeFields, isSafeJsonValue_printed v,
        safeFields_printed fields]

end

theorem isRecord_printed (v : Json) : v.printed.isRecord = v.isRecord := by
  cases v with
  | num n => cases n <;> rfl
  | _ => rfl

theorem lookup_printedFields (fields : List (String × Json)) (key : String) :
    (printedFields fields).lookup key = (fields.lookup key).map printed := by
  induction fields with
  | nil => rfl
  | cons field fields ih =>
      obtain ⟨k, v⟩ := field
      rw [printedFields, List.lookup_cons, List.lookup_cons, ih]
      cases key == k <;> rfl

theorem get_printed (v : Json) (key : String) : v.printed.get key = (v.get key).map printed := by
  cases v with
  | num n => cases n <;> rfl
  | obj fields => exact lookup_printedFields fields key
  | _ => rfl

theorem printedFields_append (fields fields' : List (String × Json)) :
    printedFields (fields ++ fields') = printedFields fields ++ printedFields fields' := by
  induction fields with
  | nil => rfl
  | cons f fields ih => rw [List.cons_append, printedFields, printedFields, ih, List.cons_append]

end Json

end Kyberion.Js
