import Kyberion.Js.JsonText

/-!
`JSON.parse` as a machine that reads one character after the other: a stack of the open arrays and
objects, what the grammar expects next, and how far the current word, number or string is. A text
with a lone surrogate escape is no text of a string here and is refused.
-/

namespace Kyberion.Js

/-- An open array or object whose next value is being read; both stand in reverse order. -/
inductive Frame
  | item (items : List Json)
  | field (fields : List (String × Json)) (key : String)

inductive Expect
  | value
  | firstItem
  | afterItem (items : List Json)
  | firstKey
  | nextKey (fields : List (String × Json))
  | colon (fields : List (String × Json)) (key : String)
  | afterField (fields : List (String × Json))
  | done (v : Json)

structure Awaiting where
  frames : List Frame
  expect : Expect

inductive Word
  | null | yes | no

/-- Read characters stand in reverse order; `high` is the code of a high surrogate. -/
inductive Mode
  | plain
  | word (word : Word) (read : ℕ)
  | number (chars : List Char)
  | text (chars : List Char)
  | escape (chars : List Char)
  | hex (chars : List Char) (high : Option ℕ) (digits : List Char)
  | high (chars : List Char) (code : ℕ)
  | highEscape (chars : List Char) (code : ℕ)

structure Reader where
  mode : Mode
  awaiting : Awaiting

def Word.letters : Word → List Char
  | .null => ['n', 'u', 'l', 'l']
  | .yes => ['t', 'r', 'u', 'e']
  | .no => ['f', 'a', 'l', 's', 'e']

def Word.value : Word → Json
  | .null => .null
  | .yes => .bool true
  | .no => .bool false

def wordOf (c : Char) : Option Word :=
  if c = 'n' then some .null else if c = 't' then some .yes
  else if c = 'f' then some .no else none

def isJsonSpace (c : Char) : Bool :=
  c = ' ' || c = '\t' || c = '\n' || c = '\r'

section Numerals

/-- Characters of a numeral. -/
def isNumeralChar (c : Char) : Bool :=
  c.isDigit || c = '+' || c = '-' || c = '.' || c = 'e' || c = 'E'

def isExponent : List Char → Bool
  | [] => true
  | e :: rest =>
      let digits := if rest.head? = some '+' || rest.head? = some '-' then rest.tail else rest
      (e = 'e' || e = 'E') && digits ≠ [] && digits.all Char.isDigit

def isFraction : List Char → Bool
  | '.' :: rest => rest.takeWhile Char.isDigit ≠ [] && isExponent (rest.dropWhile Char.isDigit)
  | rest => isExponent rest

/-- `-?(0|[1-9]\d*)(\.\d+)?([eE][+-]?\d+)?` -/
def isNumeral (chars : List Char) : Bool :=
  let unsigned := if chars.head? = some '-' then chars.tail else chars
  let digits := unsigned.takeWhile Char.isDigit
  digits ≠ [] && (digits = ['0'] || digits.head? ≠ some '0') &&
    isFraction (unsigned.dropWhile Char.isDigit)

end Numerals

/-- A key that comes again overwrites its value and keeps its place. -/
def setField (fields : List (String × Json)) (key : String) (v : Json) : List (String × Json) :=
  if (fields.lookup key).isSome then
    fields.map fun field => if field.1 = key then (key, v) else field
  else (key, v) :: fields

namespace Awaiting

def complete (frames : List Frame) (v : Json) : Awaiting :=
  match frames with
  | [] => ⟨[], .done v⟩
  | .item items :: rest => ⟨rest, .afterItem (v :: items)⟩
  | .field fields key :: rest => ⟨rest, .afterField (setField fields key v)⟩

/-- A value after `[` is the first item of the array. -/
def enter (a : Awaiting) : Awaiting :=
  match a.expect with
  | .firstItem => ⟨.item [] :: a.frames, .value⟩
  | _ => a

def keyed (a : Awaiting) (fields : List (String × Json)) : Json → Option Awaiting
  | .str key => some ⟨a.frames, .colon fields key⟩
  | _ => none

/-- A string, a number or a word. -/
def scalar (a : Awaiting) (v : Json) : Option Awaiting :=
  match a.expect with
  | .value => some (complete a.frames v)
  | .firstKey => a.keyed [] v
  | .nextKey fields => a.keyed fields v
  | _ => none

def punctuation (a : Awaiting) (c : Char) : Option Awaiting :=
  match a.expect with
  | .value =>
      if c = '[' then some ⟨a.frames, .firstItem⟩
      else if c = '{' then some ⟨a.frames, .firstKey⟩ else none
  | .firstItem => if c = ']' then some (complete a.frames (.arr [])) else none
  | .afterItem items =>
      if c = ',' then some ⟨.item items :: a.frames, .value⟩
      else if c = ']' then some (complete a.frames (.arr items.reverse)) else none
  | .firstKey => if c = '}' then some (complete a.frames (.obj [])) else none
  | .colon fields key => if c = ':' then some ⟨.field fields key :: a.frames, .value⟩ else none
  | .afterField fields =>
      if c = ',' then some ⟨a.frames, .nextKey fields⟩
      else if c = '}' then some (complete a.frames (.obj fields.reverse)) else none
  | .nextKey _ | .done _ => none

def result (a : Awaiting) : Option Json :=
  match a.expect with
  | .done v => some v
  | _ => none

end Awaiting

section Read

variable (readNumber : List Char → Number)

def readNumeral (a : Awaiting) (chars : List Char) : Option Awaiting :=
  if isNumeral chars.reverse then a.scalar (.num (readNumber chars.reverse)) else none

/-- A character between the tokens. -/
def stepPlain (a : Awaiting) (c : Char) : Option Reader :=
  if isJsonSpace c then some ⟨.plain, a⟩
  else if a.result.isSome then none
  else
    let b := if c = ']' then a else a.enter
    if c = '"' then some ⟨.text [], b⟩
    else if c = '-' || c.isDigit then some ⟨.number [c], b⟩
    else match wordOf c with
      | some word => some ⟨.word word 1, b⟩
      | none => (b.punctuation c).map fun next => ⟨.plain, next⟩

def unescaped (c : Char) : Option Char :=
  if c = '/' then some '/' else (shortEscapes.find? (·.2 = c)).map Prod.fst

def isHexDigit (c : Char) : Bool :=
  c.isDigit || ('a' ≤ c && c ≤ 'f') || ('A' ≤ c && c ≤ 'F')

def hexCode (digits : List Char) : ℕ :=
  digits.foldl (fun code c => 16 * code + hexValue c.toLower) 0

/-- After the four digits of an escape. -/
def endHex (chars : List Char) (high : Option ℕ) (code : ℕ) : Option Mode :=
  match high with
  | none =>
      if 0xD800 ≤ code ∧ code < 0xDC00 then some (.high chars code)
      else if 0xDC00 ≤ code ∧ code < 0xE000 then none
      else some (.text (Char.ofNat code :: chars))
  | some lead =>
      if 0xDC00 ≤ code ∧ code < 0xE000 then
        some (.text (Char.ofNat (0x10000 + 0x400 * (lead - 0xD800) + (code - 0xDC00)) :: chars))
      else none

def stepText (a : Awaiting) (chars : List Char) (c : Char) : Option Reader :=
  if c = '"' then
    (a.scalar (.str (String.ofList chars.reverse))).map fun next => ⟨.plain, next⟩
  else if c = '\\' then some ⟨.escape chars, a⟩
  else if c.toNat < 0x20 then none
  else some ⟨.text (c :: chars), a⟩

def stepHex (a : Awaiting) (chars : List Char) (high : Option ℕ) (digits : List Char) (c : Char) :
    Option Reader :=
  if isHexDigit c then
    if digits.length = 3 then
      (endHex chars high (hexCode (digits ++ [c]))).map fun mode => ⟨mode, a⟩
    else some ⟨.hex chars high (digits ++ [c]), a⟩
  else none

def stepWord (a : Awaiting) (word : Word) (read : ℕ) (c : Char) : Option Reader :=
  if word.letters[read]? = some c then
    if read + 1 = word.letters.length then
      (a.scalar word.value).map fun next => ⟨.plain, next⟩
    else some ⟨.word word (read + 1), a⟩
  else none

def Reader.step (s : Reader) (c : Char) : Option Reader :=
  match s.mode with
  | .plain => stepPlain s.awaiting c
  | .word word read => stepWord s.awaiting word read c
  | .number chars =>
      if isNumeralChar c then some ⟨.number (c :: chars), s.awaiting⟩
      else (readNumeral readNumber s.awaiting chars).bind fun next => stepPlain next c
  | .text chars => stepText s.awaiting chars c
  | .escape chars =>
      if c = 'u' then some ⟨.hex chars none [], s.awaiting⟩
      else (unescaped c).map fun char => ⟨.text (char :: chars), s.awaiting⟩
  | .hex chars high digits => stepHex s.awaiting chars high digits c
  | .high chars code => if c = '\\' then some ⟨.highEscape chars code, s.awaiting⟩ else none
  | .highEscape chars code =>
      if c = 'u' then some ⟨.hex chars (some code) [], s.awaiting⟩ else none

def Reader.finish (s : Reader) : Option Json :=
  match s.mode with
  | .plain => s.awaiting.result
  | .number chars => (readNumeral readNumber s.awaiting chars).bind Awaiting.result
  | _ => none

def Reader.start : Reader :=
  ⟨.plain, ⟨[], .value⟩⟩

/-- `JSON.parse(text)`, none when it throws; `readNumber` is the number that a numeral denotes. -/
def parse (text : List Char) : Option Json :=
  (text.foldlM (Reader.step readNumber) .start).bind (Reader.finish readNumber)

/-- `parseSafeJsonInput`, none when it throws. -/
def parseSafeJsonInput (raw : List Char) : Option Json :=
  (parse readNumber raw).filter Json.isSafeJsonValue

end Read

end Kyberion.Js
