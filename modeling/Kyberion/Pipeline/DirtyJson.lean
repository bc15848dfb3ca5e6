import Kyberion.Js.JsonParse
import Kyberion.Js.Text
import Mathlib.Data.List.Dedup

/-!
The repair of almost-JSON text. A block is cut out of the text, and each stage of
the repair makes one more candidate of it; the first that parses is the result.
Characters are code points here: every test of the source is for an ASCII
character or for white space, on which code units do not differ.
-/

namespace Kyberion.Pipeline

open Js (Json isWhiteSpace parseSafeJsonInput)

def DIRTY_JSON_MAX_INPUT_CHARS : ℕ := 1048576

inductive DirtyJsonError
  | EMPTY_INPUT
  | INPUT_TOO_LARGE
  | NO_JSON_BLOCK
  | UNREPAIRABLE
  deriving DecidableEq

def DirtyJsonError.code : DirtyJsonError → String
  | .EMPTY_INPUT => "dirty_json_empty_input"
  | .INPUT_TOO_LARGE => "dirty_json_input_too_large"
  | .NO_JSON_BLOCK => "dirty_json_no_json_block"
  | .UNREPAIRABLE => "dirty_json_unrepairable"

inductive DirtyJsonParseResult
  | ok (value : Json)
  | error (error : DirtyJsonError)

def trimmed (cs : List Char) : List Char :=
  (Js.trim (String.ofList cs)).toList

def LBRACE : Char := '\x7b'

def RBRACE : Char := '\x7d'

/-- The variables `inString`, `escaped` and `quote` of a scan. -/
structure Quoting where
  inString : Bool := false
  escaped : Bool := false
  quote : Option Char := none

def Quoting.opened (ch : Char) : Quoting :=
  ⟨true, false, some ch⟩

/-- A character of a string. -/
def Quoting.inside (s : Quoting) (ch : Char) : Quoting :=
  if s.escaped then { s with escaped := false }
  else if ch = '\\' then { s with escaped := true }
  else if s.quote = some ch then {}
  else s

def isQuote (ch : Char) : Bool :=
  ch = '"' || ch = '\''

section Extract

def findJsonStart (input : List Char) : Option ℕ :=
  ([LBRACE, '[', '"', '\''].filterMap fun char => input.idxOf? char).min?

/-- How many characters the loop of `extractJsonBlock` takes. -/
def blockEnd (s : Quoting) (stack : List Char) : List Char → ℕ
  | [] => 0
  | ch :: rest =>
      if s.inString then blockEnd (s.inside ch) stack rest + 1
      else if isQuote ch then blockEnd (.opened ch) stack rest + 1
      else if ch = LBRACE then blockEnd s (RBRACE :: stack) rest + 1
      else if ch = '[' then blockEnd s (']' :: stack) rest + 1
      else if ch = RBRACE || ch = ']' then
        match stack with
        | top :: open_ =>
            -- a closer that does not match ends the block as well
            if top ≠ ch || open_ = [] then 1 else blockEnd s open_ rest + 1
        | [] => 1
      else blockEnd s stack rest + 1

def extractJsonBlock (input : List Char) : Option (List Char) :=
  (findJsonStart input).map fun start =>
    let block := input.drop start
    trimmed (block.take (blockEnd {} [] block))

end Extract

section Stages

/-- What follows a block comment. -/
def afterComment : List Char → List Char
  | '*' :: '/' :: rest => rest
  | _ :: rest => afterComment rest
  | [] => []

theorem afterComment_length (cs : List Char) : (afterComment cs).length ≤ cs.length := by
  fun_induction afterComment cs with
  | case1 rest => exact Nat.le_add_right _ 2
  | case2 c rest _ ih => exact Nat.le_succ_of_le ih
  | case3 => exact Nat.le_refl _

def stripJsonComments (s : Quoting) : List Char → List Char
  | [] => []
  | ch :: rest =>
      if s.inString then ch :: stripJsonComments (s.inside ch) rest
      else if isQuote ch then ch :: stripJsonComments (.opened ch) rest
      else if ch = '/' && rest.head? = some '/' then
        '\n' :: stripJsonComments s (rest.dropWhile (· ≠ '\n'))
      else if ch = '/' && rest.head? = some '*' then
        ' ' :: stripJsonComments s (afterComment rest.tail)
      else ch :: stripJsonComments s rest
termination_by cs => cs.length
decreasing_by
  · exact Nat.lt_succ_self _
  · exact Nat.lt_succ_self _
  · exact Nat.lt_succ_of_le (List.length_dropWhile_le _ _)
  · exact Nat.lt_succ_of_le
      (Nat.le_trans (afterComment_length _) (by rw [List.length_tail]; exact Nat.sub_le _ _))
  · exact Nat.lt_succ_self _

def removeTrailingCommas (s : Quoting) : List Char → List Char
  | [] => []
  | ch :: rest =>
      if s.inString then ch :: removeTrailingCommas (s.inside ch) rest
      else if isQuote ch then ch :: removeTrailingCommas (.opened ch) rest
      else
        let next := (rest.dropWhile isWhiteSpace).head?
        if ch = ',' && (next = none || next = some ']' || next = some RBRACE) then
          removeTrailingCommas s rest
        else ch :: removeTrailingCommas s rest

inductive QuoteState
  | none
  | double
  | single
  deriving DecidableEq

def convertSingleQuotedStrings (state : QuoteState) (escaped : Bool) : List Char → List Char
  | [] => if state = .single then ['"'] else []
  | ch :: rest =>
      match state with
      | .double =>
          if escaped then ch :: convertSingleQuotedStrings .double false rest
          else if ch = '\\' then ch :: convertSingleQuotedStrings .double true rest
          else if ch = '"' then ch :: convertSingleQuotedStrings .none false rest
          else ch :: convertSingleQuotedStrings .double false rest
      | .single =>
          if escaped then
            (if ch = '\'' then ['\''] else ['\\', ch]) ++
              convertSingleQuotedStrings .single false rest
          else if ch = '\\' then convertSingleQuotedStrings .single true rest
          else if ch = '\'' then '"' :: convertSingleQuotedStrings .none false rest
          else if ch = '"' then '\\' :: '"' :: convertSingleQuotedStrings .single false rest
          else ch :: convertSingleQuotedStrings .single false rest
      | .none =>
          if ch = '"' then ch :: convertSingleQuotedStrings .double false rest
          else if ch = '\'' then '"' :: convertSingleQuotedStrings .single false rest
          else ch :: convertSingleQuotedStrings .none escaped rest

def JSON_LITERALS : List String :=
  ["true", "false", "null"]

def NULLISH_TOKENS : List String :=
  ["undefined", "nan", "infinity", "+infinity", "-infinity"]

/-- `(?:[eE][+-]?\d+)?$` -/
def isTokenExponent : List Char → Bool
  | [] => true
  | e :: rest =>
      let digits := if rest.head? = some '+' || rest.head? = some '-' then rest.tail else rest
      (e = 'e' || e = 'E') && digits ≠ [] && digits.all Char.isDigit

/-- `/^[+-]?(?:\d+\.?\d*|\.\d+)(?:[eE][+-]?\d+)?$/` -/
def isNumericToken (token : List Char) : Bool :=
  let unsigned :=
    if token.head? = some '+' || token.head? = some '-' then token.tail else token
  let whole := unsigned.takeWhile Char.isDigit
  let rest := unsigned.dropWhile Char.isDigit
  if rest.head? = some '.' then
    (whole ≠ [] || rest.tail.takeWhile Char.isDigit ≠ []) &&
      isTokenExponent (rest.tail.dropWhile Char.isDigit)
  else whole ≠ [] && isTokenExponent rest

/-- `BARE_TOKEN_BREAK` -/
def isTokenBreak (ch : Char) : Bool :=
  isWhiteSpace ch || [',', ':', '[', LBRACE, ']', RBRACE, '"', '\'', '/'].contains ch

variable (toLowerCase : String → String)

def bareToken (token : List Char) : List Char :=
  let lower := toLowerCase (String.ofList token)
  if JSON_LITERALS.contains lower then lower.toList
  else if NULLISH_TOKENS.contains lower then "null".toList
  else if isNumericToken token then token
  else Js.quote (String.ofList token)

def quoteBareTokens (inString escaped : Bool) : List Char → List Char
  | [] => []
  | ch :: rest =>
      if inString then
        if escaped then ch :: quoteBareTokens true false rest
        else if ch = '\\' then ch :: quoteBareTokens true true rest
        else ch :: quoteBareTokens (ch ≠ '"') false rest
      else if ch = '"' then ch :: quoteBareTokens true escaped rest
      else if isTokenBreak ch then ch :: quoteBareTokens false escaped rest
      else
        bareToken toLowerCase (ch :: rest.takeWhile fun c => !isTokenBreak c) ++
          quoteBareTokens false escaped (rest.dropWhile fun c => !isTokenBreak c)
termination_by cs => cs.length
decreasing_by
  all_goals first
    | exact Nat.lt_succ_self _
    | exact Nat.lt_succ_of_le (List.length_dropWhile_le _ _)

/-- The variables of `closeUnbalancedConstructs`. -/
structure Closing where
  stack : List Char := []
  out : List Char := []
  inString : Bool := false
  escaped : Bool := false

def Closing.step (s : Closing) (ch : Char) : Closing :=
  if s.inString then
    { s with
      out := s.out ++ [ch]
      escaped := !s.escaped && ch = '\\'
      inString := s.escaped || ch ≠ '"' }
  else if ch = '"' then { s with inString := true, out := s.out ++ [ch] }
  else if ch = LBRACE then { s with stack := RBRACE :: s.stack, out := s.out ++ [ch] }
  else if ch = '[' then { s with stack := ']' :: s.stack, out := s.out ++ [ch] }
  else if ch = RBRACE || ch = ']' then
    -- the closers of the inner levels first; one with nothing to pair is dropped
    let out := s.out ++ s.stack.takeWhile (· ≠ ch)
    match s.stack.dropWhile (· ≠ ch) with
    | _ :: stack => { s with stack, out := out ++ [ch] }
    | [] => { s with stack := [], out }
  else { s with out := s.out ++ [ch] }

def closeUnbalancedConstructs (input : List Char) : List Char :=
  let s := input.foldl Closing.step {}
  let out := if s.inString then s.out ++ ['"'] else s.out
  let text := out.rdropWhile isWhiteSpace
  let out := if text.getLast? = some ',' then text.dropLast else out
  let text := out.rdropWhile isWhiteSpace
  let out := if text.getLast? = some ':' then out ++ "null".toList else out
  out ++ s.stack

def buildCandidates (extracted : List Char) : List (List Char) :=
  let stripped := stripJsonComments {} extracted
  let uncomma := removeTrailingCommas {} stripped
  let converted := convertSingleQuotedStrings .none false uncomma
  let quoted := quoteBareTokens toLowerCase false false converted
  let closed := closeUnbalancedConstructs quoted
  ([extracted, stripped, uncomma, converted, quoted, closed].filter (· ≠ [])).eraseDups

end Stages

section Parse

variable (readNumber : List Char → Js.Number) (toLowerCase : String → String)

/-- `text.replace(/^\uFEFF/, '').replace(/\r\n/g, '\n').trim()` -/
def normalizeText (text : List Char) : List Char :=
  trimmed (Js.crlfToLf (if text.head? = some '\uFEFF' then text.tail else text))

def parseDirtyJson (text : String) : DirtyJsonParseResult :=
  if Js.isBlank text then .error .EMPTY_INPUT
  else if DIRTY_JSON_MAX_INPUT_CHARS < Js.utf16Length text then .error .INPUT_TOO_LARGE
  else
    let normalized := normalizeText text.toList
    match parseSafeJsonInput readNumber normalized with
    | some value => .ok value
    | none =>
        match extractJsonBlock normalized with
        | none | some [] => .error .NO_JSON_BLOCK
        | some extracted =>
            match (buildCandidates toLowerCase extracted).findSome?
                (parseSafeJsonInput readNumber) with
            | some value => .ok value
            | none => .error .UNREPAIRABLE

end Parse

end Kyberion.Pipeline
