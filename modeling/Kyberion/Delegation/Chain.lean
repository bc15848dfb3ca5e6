import Kyberion.FirstMatch
import Kyberion.Js.JsonParse
import Kyberion.Js.Text

/-!
The delegation chain inside a context text: its JSON between two markers at the end of the text,
and the reading of the first marked block.
-/

namespace Kyberion.Delegation

open Js FirstMatch

inductive DelegationCapabilityTier
  | implementer | explorer | planner
  deriving DecidableEq

structure DelegationGrantedScope where
  capabilityTier : Option DelegationCapabilityTier := none
  capabilities : Option (List String) := none
  writeScopes : Option (List String) := none
  deriving DecidableEq

structure DelegationLink where
  actor : String
  teamRole : Option String := none
  grantedScope : DelegationGrantedScope
  grantedAt : String
  deriving DecidableEq

abbrev DelegationChain := List DelegationLink

def DelegationCapabilityTier.name : DelegationCapabilityTier → String
  | .implementer => "implementer"
  | .explorer => "explorer"
  | .planner => "planner"

/-- The tier of a name that `isKnownTier` knows. -/
def knownTier (name : String) : Option DelegationCapabilityTier :=
  [.implementer, .explorer, .planner].find? fun tier => tier.name = name

section Serialize

/-- A field that is written when it is there. -/
def field (key : String) : Option Json → List (String × Json)
  | some v => [(key, v)]
  | none => []

def textList (texts : List String) : Json :=
  .arr (texts.map .str)

def DelegationGrantedScope.toJson (scope : DelegationGrantedScope) : Json :=
  .obj (field "capability_tier" (scope.capabilityTier.map fun tier => .str tier.name) ++
    field "capabilities" (scope.capabilities.map textList) ++
    field "write_scopes" (scope.writeScopes.map textList))

def DelegationLink.toJson (link : DelegationLink) : Json :=
  .obj (("actor", .str link.actor) :: field "team_role" (link.teamRole.map .str) ++
    [("granted_scope", link.grantedScope.toJson), ("granted_at", .str link.grantedAt)])

/-- The characters of `JSON.stringify(chain)`. -/
def serializeDelegationChain (chain : DelegationChain) : List Char :=
  (Json.arr (chain.map DelegationLink.toJson)).text

end Serialize

section Parse

def asText : Json → Option String
  | .str s => some s
  | _ => none

/-- A field that must hold a value of one kind when it is there. -/
def optionalField {α : Type} (read : Json → Option α) (v : Json) (key : String) :
    Option (Option α) :=
  match v.get key with
  | none => some none
  | some value => (read value).map some

def readTexts : Json → Option (List String)
  | .arr items => items.mapM asText
  | _ => none

def parseScope (v : Json) : Option DelegationGrantedScope :=
  if v.isRecord then do
    let capabilityTier ← optionalField (fun value => (asText value).bind knownTier) v
      "capability_tier"
    let capabilities ← optionalField readTexts v "capabilities"
    let writeScopes ← optionalField readTexts v "write_scopes"
    return { capabilityTier, capabilities, writeScopes }
  else none

def parseLink (v : Json) : Option DelegationLink :=
  if v.isRecord then do
    let actor ← (((v.get "actor").bind asText).map trim).filter (· ≠ "")
    let grantedAt ← ((v.get "granted_at").bind asText).filter (!isBlank ·)
    let teamRole ← optionalField asText v "team_role"
    let grantedScope ← (v.get "granted_scope").bind parseScope
    return { actor, teamRole := teamRole.filter (· ≠ ""), grantedScope, grantedAt }
  else none

variable (readNumber : List Char → Number)

/-- `parseDelegationChain` of a text. -/
def parseDelegationChain (text : List Char) : Option DelegationChain :=
  match (parse readNumber text).filter Json.isSafeJsonValue with
  | some (.arr items) => items.mapM parseLink
  | _ => none

end Parse

section Context

def contextOpen : List Char := "<delegation-chain>".toList

def contextClose : List Char := "</delegation-chain>".toList

def chainBlock (chain : DelegationChain) : List Char :=
  contextOpen ++ serializeDelegationChain chain ++ contextClose

/-- An empty context counts as none. -/
def embedDelegationChainInContext (context : List Char) (chain : DelegationChain) : List Char :=
  if context = [] then chainBlock chain else context ++ '\n' :: chainBlock chain

/-- What `/\n?<delegation-chain>([\s\S]*?)<\/delegation-chain>/` finds in a text. -/
structure ContextBlock where
  front : List Char
  body : List Char
  back : List Char

/-- The line break that the match takes with it. -/
def dropLineBreak (front : List Char) : List Char :=
  if front.getLast? = some '\n' then front.dropLast else front

def contextBlock (text : List Char) : Option ContextBlock :=
  (splitFirst contextOpen text).bind fun opened =>
    (splitFirst contextClose opened.2).map fun closed =>
      ⟨dropLineBreak opened.1, closed.1, closed.2⟩

structure ExtractedDelegationChainContext where
  chain : Option DelegationChain
  malformed : Bool
  contextWithoutChain : Option (List Char)

def trimChars (text : List Char) : List Char :=
  (text.dropWhile isWhiteSpace).rdropWhile isWhiteSpace

variable (readNumber : List Char → Number)

def extractDelegationChainFromContext (context : List Char) : ExtractedDelegationChainContext :=
  if context = [] then ⟨none, false, some context⟩
  else match contextBlock context with
    | none => ⟨none, false, some context⟩
    | some block =>
        let stripped := trimChars (block.front ++ block.back)
        let chain := parseDelegationChain readNumber block.body
        ⟨chain, chain.isNone, if stripped = [] then none else some stripped⟩

end Context

end Kyberion.Delegation
