import Mathlib.Data.List.Basic
import Mathlib.Data.List.DropRight

/-!
Claims on resources and when two of them conflict, shared by the scheduler of tool calls and the
scheduler of graphs.
-/

namespace Kyberion.Tool

inductive FileOperation
  | read | write
  deriving DecidableEq

structure FileResourceClaim where
  operation : FileOperation
  path : String
  /-- The claim covers the whole subtree under `path`. -/
  recursive : Bool := false
  deriving DecidableEq

inductive ResourceClaim
  | file (claim : FileResourceClaim)
  | all
  deriving DecidableEq

/-- `trimEndChars(value, '/')` -/
def trimEndSlashes (value : List Char) : List Char :=
  value.rdropWhile (· = '/')

def normalizeClaimPath (rawPath : String) : List Char :=
  let posix := rawPath.toList.map fun c => if c = '\\' then '/' else c
  let trimmed := if 1 < posix.length then trimEndSlashes posix else posix
  if trimmed = [] then ['/'] else trimmed

def pathsOverlap (a b : FileResourceClaim) : Bool :=
  let pathA := normalizeClaimPath a.path
  let pathB := normalizeClaimPath b.path
  pathA = pathB || (a.recursive && (pathA ++ ['/']).isPrefixOf pathB) ||
    (b.recursive && (pathB ++ ['/']).isPrefixOf pathA)

def resourceClaimsConflict : ResourceClaim → ResourceClaim → Bool
  | .all, _ => true
  | _, .all => true
  | .file a, .file b =>
      if a.operation = .read ∧ b.operation = .read then false else pathsOverlap a b

theorem pathsOverlap_comm (a b : FileResourceClaim) : pathsOverlap a b = pathsOverlap b a := by
  simp only [pathsOverlap, eq_comm (a := normalizeClaimPath a.path)]
  rw [Bool.or_assoc, Bool.or_assoc, Bool.or_comm (_ && _)]

theorem resourceClaimsConflict_comm (a b : ResourceClaim) :
    resourceClaimsConflict a b = resourceClaimsConflict b a := by
  cases a with
  | all => cases b <;> rfl
  | file a =>
      cases b with
      | all => rfl
      | file b =>
          simp only [resourceClaimsConflict, pathsOverlap_comm a b, and_comm]

end Kyberion.Tool
