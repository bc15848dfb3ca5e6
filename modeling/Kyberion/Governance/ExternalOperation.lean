import Kyberion.Js.Json
import Kyberion.Js.Text
import Mathlib.Data.List.Infix

/-!
The targets an accountable human signs for external operations: their normal form, and when a
signed grant covers a target.
-/

namespace Kyberion.Governance

open Js

/-- `new URL(text)`, as far as it is read -/
structure TargetUrl where
  protocol : String
  username : String
  password : String
  search : String
  hash : String
  pathname : String
  origin : String
  deriving DecidableEq

structure DelegationTargetSpec where
  fields : List String
  optionalFields : List String := []
  requiredOneOf : Option (List String) := none

def EXTERNAL_OPERATION_DELEGATION : List (String × DelegationTargetSpec) :=
  [("vcs:pr_create", { fields := ["repository"], optionalFields := ["visibility"] }),
    ("vcs:pr_merge",
      { fields := ["repository"]
        optionalFields := ["branch", "branch_pattern", "visibility"]
        requiredOneOf := some ["branch", "branch_pattern"] }),
    ("vcs:push",
      { fields := ["repository"]
        optionalFields := ["branch", "branch_pattern", "visibility"]
        requiredOneOf := some ["branch", "branch_pattern"] }),
    ("browser:goto", { fields := ["origin"] }),
    ("browser:open_tab", { fields := ["origin"] }),
    ("tenant:attest_provider",
      { fields := ["attested_by", "basis", "plan", "provider", "tenant_slug", "training_use"] })]

/-- A grant in its normal form: the fields besides the operation, in the order of its spec. -/
structure ExternalOperationGrant where
  operationId : String
  fields : List (String × String)
  deriving DecidableEq

def ExternalOperationGrant.entries (grant : ExternalOperationGrant) : List (String × Json) :=
  ("operation_id", .str grant.operationId) ::
    grant.fields.map fun field => (field.1, .str field.2)

def textOf : Json → Option String
  | .str s => some s
  | _ => none

/-- `/[\s^~:?[\]\\]/` -/
def isRefusedInBranch (c : Char) : Bool :=
  isWhiteSpace c || ['^', '~', ':', '?', '[', ']', '\\'].contains c

/-- `.replace(/^refs\/heads\//, '')` -/
def dropHeads (cs : List Char) : List Char :=
  (cs.dropPrefix? "refs/heads/".toList).getD cs

def normalizeBranch (raw : String) : Option String :=
  let branch := dropHeads (trim raw).toList
  if branch = [] ∨ '*' ∈ branch ∨ branch.any isRefusedInBranch then none
  else some (String.ofList branch)

/-- A run of wildcards at the end is one wildcard, behind a literal tree prefix. -/
def normalizeBranchPattern (raw : String) : Option String :=
  let cs := dropHeads (trim raw).toList
  let literal := cs.rdropWhile (· = '*')
  if literal = cs ∨ literal.length < 2 ∨ literal.getLast? ≠ some '/' ∨ '*' ∈ literal ∨
      literal.any isRefusedInBranch then none
  else some (String.ofList (literal ++ ['*']))

/-- `/[A-Za-z0-9_.-]/` -/
def isRepositoryChar (c : Char) : Bool :=
  isLower c || ('A' ≤ c && c ≤ 'Z') || isDigit c || c = '_' || c = '.' || c = '-'

/-- `/^\/[A-Za-z0-9_.-]+\/[A-Za-z0-9_.-]+$/` -/
def isRepositoryPath : List Char → Bool
  | '/' :: rest =>
      let owner := rest.takeWhile (· ≠ '/')
      let name := (rest.drop owner.length).drop 1
      owner ≠ [] && owner.all isRepositoryChar && name ≠ [] && name.all isRepositoryChar
  | _ => false

/-- `.replace(/\.git$/, '').replace(/\/$/, '')` -/
def dropRepositoryEnd (cs : List Char) : List Char :=
  let bare := if ".git".toList <:+ cs then cs.take (cs.length - 4) else cs
  if bare.getLast? = some '/' then bare.dropLast else bare

section Parse

variable (parseUrl : String → Option TargetUrl)

/-- The URL of a target, unless it carries anything beside origin and path. -/
def plainUrl (target : String) : Option TargetUrl :=
  (parseUrl target).filter fun url => url.protocol = "https:" ∧ url.username = "" ∧
    url.password = "" ∧ url.search = "" ∧ url.hash = ""

def normalizeRepositoryUrl (target : String) : Option String := do
  let url ← plainUrl parseUrl target
  let pathname := dropRepositoryEnd url.pathname.toList
  if isRepositoryPath pathname then some (url.origin ++ String.ofList pathname) else none

def normalizeOrigin (target : String) : Option String := do
  let url ← plainUrl parseUrl target
  if url.origin = target then some url.origin else none

/-- A field's value as it may stand in a grant: a trimmed text, without a wildcard outside the
branch pattern. -/
def grantText (field : String) (v : Json) : Option String := do
  let text ← textOf v
  if text = trim text ∧ (field = "branch_pattern" ∨ '*' ∉ text.toList) then some text else none

def normalizeField (field text : String) : Option String :=
  if field = "visibility" ∧ text ≠ "private" then none
  else
    let value :=
      if field = "repository" then normalizeRepositoryUrl parseUrl text
      else if field = "branch" then normalizeBranch text
      else if field = "branch_pattern" then normalizeBranchPattern text
      else if field = "origin" then normalizeOrigin parseUrl text
      else some text
    value.filter (· ≠ "")

/-- The fields that are there, each in its normal form. -/
def normalizedFields (raw : List (String × Json)) : List String → Option (List (String × String))
  | [] => some []
  | field :: rest =>
      match raw.lookup field with
      | none => normalizedFields raw rest
      | some v => do
          let text ← grantText field v
          let value ← normalizeField parseUrl field text
          let values ← normalizedFields raw rest
          return (field, value) :: values

def parseExternalOperationGrant (raw : List (String × Json)) : Option ExternalOperationGrant := do
  let op ← (raw.lookup "operation_id").bind textOf
  let spec ← EXTERNAL_OPERATION_DELEGATION.lookup op
  let known := spec.fields ++ spec.optionalFields
  if raw.any (fun entry => entry.1 ∉ "operation_id" :: known) then none
  else if spec.fields.any (fun field => (raw.lookup field).isNone) then none
  else if (spec.requiredOneOf.any fun oneOf =>
      (oneOf.filter fun field => ((raw.lookup field).bind textOf).isSome).length ≠ 1) then none
  else
    let normalized ← normalizedFields parseUrl raw known
    if op = "tenant:attest_provider" ∧ normalized.lookup "training_use" ≠ some "none" then none
    else some ⟨op, normalized⟩

/-- What stands before the trailing wildcard of a pattern. -/
def treePrefix (pattern : String) : List Char :=
  pattern.toList.dropLast

/-- A field of a grant against the fields of a target. -/
def fieldCovers (target : List (String × String)) (field : String × String) : Bool :=
  if field.1 = "branch_pattern" then
    match target.lookup "branch" with
    | some branch => treePrefix field.2 <+: branch.toList
    | none =>
        match target.lookup "branch_pattern" with
        | some pattern => treePrefix field.2 <+: treePrefix pattern
        | none => false
  else target.lookup field.1 = some field.2

def externalOperationGrantMatches (grant target : List (String × Json)) : Bool :=
  match parseExternalOperationGrant parseUrl grant, parseExternalOperationGrant parseUrl target with
  | some a, some b => a.operationId = b.operationId && a.fields.all (fieldCovers b.fields)
  | _, _ => false

end Parse

/-- A field that a grant covers carries the cover on to what covers that grant's target. -/
theorem fieldCovers_trans {outer : String × String} {middle inner : List (String × String)}
    (houter : fieldCovers middle outer = true) (hmiddle : middle.all (fieldCovers inner) = true) :
    fieldCovers inner outer = true := by
  have hfield {key value : String} (h : middle.lookup key = some value) :
      fieldCovers inner (key, value) = true := by
    obtain ⟨front, back, heq, -⟩ := List.lookup_eq_some_iff.mp h
    exact List.all_eq_true.mp hmiddle _ (heq ▸ by simp)
  rw [fieldCovers] at houter
  split at houter
  · rename_i hpattern
    rw [fieldCovers, if_pos hpattern]
    split at houter
    · rename_i branch hbranch
      have h := hfield hbranch
      rw [fieldCovers, if_neg (show ¬ ("branch" = "branch_pattern") by decide)] at h
      rw [of_decide_eq_true h]
      exact houter
    · split at houter
      · rename_i pattern hfound
        have h := hfield hfound
        rw [fieldCovers, if_pos rfl] at h
        have hfront := of_decide_eq_true houter
        split at h
        · rename_i branch hbranch
          exact decide_eq_true (hfront.trans (of_decide_eq_true h))
        · split at h
          · exact decide_eq_true (hfront.trans (of_decide_eq_true h))
          · cases h
      · cases houter
  · rename_i hpattern
    have h := hfield (of_decide_eq_true houter)
    rwa [fieldCovers, if_neg hpattern] at h ⊢

theorem externalOperationGrantMatches_trans {parseUrl : String → Option TargetUrl}
    {outer middle inner : List (String × Json)}
    (houter : externalOperationGrantMatches parseUrl outer middle = true)
    (hinner : externalOperationGrantMatches parseUrl middle inner = true) :
    externalOperationGrantMatches parseUrl outer inner = true := by
  unfold externalOperationGrantMatches at houter hinner ⊢
  cases hparsed : parseExternalOperationGrant parseUrl outer with
  | none => simp [hparsed] at houter
  | some a =>
      cases hmiddle : parseExternalOperationGrant parseUrl middle with
      | none => simp [hmiddle] at hinner
      | some b =>
          cases hlast : parseExternalOperationGrant parseUrl inner with
          | none => simp [hlast] at hinner
          | some c =>
              simp only [hparsed, hmiddle, hlast, Bool.and_eq_true, decide_eq_true_eq] at *
              refine ⟨houter.1.trans hinner.1, List.all_eq_true.mpr fun field hfield => ?_⟩
              exact fieldCovers_trans (List.all_eq_true.mp houter.2 field hfield) hinner.2

end Kyberion.Governance
