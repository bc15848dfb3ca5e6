import Kyberion.Js.Text

/-!
Work targets are texts `kind:value`; the value of a path target may be a glob.
Globs are matched unit by unit, as the regular expressions they compile to are.
-/

namespace Kyberion.Work

open Js (utf16)

structure Target where
  kind : List ℕ
  value : List ℕ
  deriving DecidableEq

/-- Everything before the first colon is the kind. -/
def splitTarget (target : String) : Target :=
  let units := utf16 target
  match units.idxOf? ':'.toNat with
  | none => ⟨[], units⟩
  | some index => ⟨units.take index, units.drop (index + 1)⟩

def globChars : List ℕ :=
  ['*', '?', '[', '\x7b'].map Char.toNat

inductive GlobPart
  /-- `.*` -/
  | anything
  /-- `[^/]*` -/
  | segment
  /-- `[^/]` -/
  | one
  | unit (u : ℕ)
  deriving DecidableEq

def globParts : List ℕ → List GlobPart
  | [] => []
  | [u] => [if u = '*'.toNat then .segment else if u = '?'.toNat then .one else .unit u]
  | u :: v :: rest =>
      if u = '*'.toNat then
        if v = '*'.toNat then .anything :: globParts rest else .segment :: globParts (v :: rest)
      else if u = '?'.toNat then .one :: globParts (v :: rest)
      else .unit u :: globParts (v :: rest)

/-- What `.` does not match. -/
def lineTerminators : List ℕ :=
  [0x0A, 0x0D, 0x2028, 0x2029]

/-- Some prefix of units that satisfy `p`, then the rest. -/
def matchStar (p : ℕ → Bool) (rest : List ℕ → Bool) : List ℕ → Bool
  | [] => rest []
  | u :: units => rest (u :: units) || (p u && matchStar p rest units)

def globMatch : List GlobPart → List ℕ → Bool
  | [], units => units.isEmpty
  | .anything :: parts, units =>
      matchStar (fun u => !lineTerminators.contains u) (globMatch parts) units
  | .segment :: parts, units => matchStar (fun u => u ≠ '/'.toNat) (globMatch parts) units
  | .one :: parts, u :: units => u ≠ '/'.toNat && globMatch parts units
  | .unit v :: parts, u :: units => u = v && globMatch parts units
  | _ :: _, [] => false

/-- `globRegExp(glob).test(value)` -/
def globTest (glob value : List ℕ) : Bool :=
  globMatch (globParts glob) value

def isGlob (value : List ℕ) : Bool :=
  value.any globChars.contains

/-- The part before the first glob character. -/
def globPrefix (glob : List ℕ) : List ℕ :=
  glob.takeWhile fun u => !globChars.contains u

def workTargetsOverlap (a b : String) : Bool :=
  if a = b then true
  else
    let left := splitTarget a
    let right := splitTarget b
    if left.kind ≠ right.kind || left.kind ≠ utf16 "path" then false
    else
      let lg := isGlob left.value
      let rg := isGlob right.value
      (lg && globTest left.value right.value) || (rg && globTest right.value left.value) ||
        (lg && rg && ((globPrefix right.value).isPrefixOf (globPrefix left.value) ||
          (globPrefix left.value).isPrefixOf (globPrefix right.value)))

def workTargetPatternCovers (pattern target : String) : Bool :=
  if pattern = target then true
  else
    let owned := splitTarget pattern
    let wanted := splitTarget target
    owned.kind = wanted.kind && globTest owned.value wanted.value

end Kyberion.Work
