import Mathlib.Data.List.Basic

/-!
The identifier grammars of the repository, on the characters of a text.
-/

namespace Kyberion

def isLower (c : Char) : Bool :=
  'a' ≤ c && c ≤ 'z'

def isDigit (c : Char) : Bool :=
  '0' ≤ c && c ≤ '9'

/-- `/^[a-z][a-z0-9-]*$/` -/
def isSlug (cs : List Char) : Bool :=
  match cs with
  | [] => false
  | c :: rest => isLower c && rest.all fun d => isLower d || isDigit d || d = '-'

/-- `/^[a-z][a-z0-9-]{1,30}$/` -/
def isValidMemberId (cs : List Char) : Bool :=
  isSlug cs && 2 ≤ cs.length && cs.length ≤ 31

/-- `/^kyberion:\/\/agent\/[a-z][a-z0-9-]*\/[a-z][a-z0-9-]*$/` -/
def isNhiId (cs : List Char) : Bool :=
  match "kyberion://agent/".toList.isPrefixOf? cs with
  | none => false
  | some rest =>
      isSlug (rest.takeWhile (· ≠ '/')) && isSlug ((rest.dropWhile (· ≠ '/')).drop 1)

end Kyberion
