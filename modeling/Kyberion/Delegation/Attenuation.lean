import Kyberion.Delegation.ChainContext
import Kyberion.Transition
import Mathlib.Data.Set.Basic
import Mathlib.Order.WithBot

/-!
What each link of a delegation chain may do, and the dispatch hop that appends a link to the chain
in its context: the check of each link against its parent keeps every link within all that stand
before it, through any number of hops.
-/

namespace Kyberion.Delegation

open Js FirstMatch Transition

/-- `CAPABILITY_TIER_PRIVILEGE` -/
def DelegationCapabilityTier.privilege : DelegationCapabilityTier → ℕ
  | .planner => 0
  | .explorer => 1
  | .implementer => 2

section Validate

def joined (texts : List String) : String :=
  ", ".intercalate texts

/-- The violation of one list that a link grants, if any. -/
def checkSubsetList (dimension : String) (index : ℕ) :
    Option (List String) → Option (List String) → List String
  | none, _ => []
  | some parent, none =>
      ["link[" ++ toString index ++ "] omits " ++ dimension ++
        " (= unrestricted) while its parent restricts to [" ++ joined parent ++ "]"]
  | some parent, some child =>
      let excess := child.filter (· ∉ parent)
      if excess = [] then []
      else ["link[" ++ toString index ++ "] " ++ dimension ++ " [" ++ joined excess ++
        "] exceed the parent grant [" ++ joined parent ++ "]"]

def checkTier (index : ℕ) :
    Option DelegationCapabilityTier → Option DelegationCapabilityTier → List String
  | none, _ => []
  | some parent, none =>
      ["link[" ++ toString index ++
        "] omits capability_tier (= unrestricted) while its parent restricts to \"" ++
        parent.name ++ "\""]
  | some parent, some child =>
      if parent.privilege < child.privilege then
        ["link[" ++ toString index ++ "] capability_tier \"" ++ child.name ++
          "\" outranks the parent grant \"" ++ parent.name ++ "\""]
      else []

/-- What is wrong with a link under its parent. -/
def linkViolations (index : ℕ) (parent child : DelegationGrantedScope) : List String :=
  checkTier index parent.capabilityTier child.capabilityTier ++
    checkSubsetList "capabilities" index parent.capabilities child.capabilities ++
    checkSubsetList "write_scopes" index parent.writeScopes child.writeScopes

/-- The violations of each link under the one before it. -/
def violationsFrom : ℕ → DelegationChain → List String
  | index, parent :: child :: rest =>
      linkViolations (index + 1) parent.grantedScope child.grantedScope ++
        violationsFrom (index + 1) (child :: rest)
  | _, _ => []

/-- The violations, none where the code's result is `ok`. -/
def validateChainAttenuation (chain : DelegationChain) : List String :=
  violationsFrom 0 chain

/-- The message of a `DelegationAttenuationError`. -/
def attenuationMessage (violations : List String) : String :=
  "[delegation-chain] attenuation violation — a delegated grant may never exceed its parent: " ++
    "; ".intercalate violations

/-- The chain that an envelope is routed with. -/
def routedDelegationChain (readNumber : List Char → Number) (msgId : String) (claim : List Char) :
    Except String DelegationChain :=
  match parseDelegationChain readNumber claim with
  | none => .error (attenuationMessage ["malformed delegation_chain header on message " ++ msgId])
  | some chain =>
      let violations := validateChainAttenuation chain
      if violations = [] then .ok chain else .error (attenuationMessage violations)

end Validate

section Permissions

/-- The operations of a tier and all below it, and the names a link may use; a dimension that the
scope does not mention is not restricted. -/
structure Permissions where
  tier : WithTop ℕ
  capabilities : Set String
  writeScopes : Set String

/-- One link may do no more than another. -/
def Permissions.Within (child parent : Permissions) : Prop :=
  child.tier ≤ parent.tier ∧ child.capabilities ⊆ parent.capabilities ∧
    child.writeScopes ⊆ parent.writeScopes

theorem Permissions.Within.trans {a b c : Permissions} (hab : a.Within b) (hbc : b.Within c) :
    a.Within c :=
  ⟨hab.1.trans hbc.1, hab.2.1.trans hbc.2.1, hab.2.2.trans hbc.2.2⟩

def allowed : Option (List String) → Set String
  | none => Set.univ
  | some names => {name | name ∈ names}

def DelegationGrantedScope.permissions (scope : DelegationGrantedScope) : Permissions where
  tier := (scope.capabilityTier.map fun tier => WithTop.some tier.privilege).getD ⊤
  capabilities := allowed scope.capabilities
  writeScopes := allowed scope.writeScopes

theorem exists_longer (names : List String) : ∃ n, ∀ name ∈ names, name.length < n := by
  induction names with
  | nil => exact ⟨0, by simp⟩
  | cons first rest ih =>
      obtain ⟨n, hn⟩ := ih
      refine ⟨max n (first.length + 1), fun name hname => ?_⟩
      rcases List.mem_cons.mp hname with rfl | hname
      · omega
      · have hlt := hn name hname
        omega

theorem exists_not_mem (names : List String) : ∃ name, name ∉ names := by
  obtain ⟨n, hn⟩ := exists_longer names
  refine ⟨String.ofList (List.replicate n 'a'), fun hmem => ?_⟩
  have hlt := hn _ hmem
  rw [String.length_ofList, List.length_replicate] at hlt
  exact Nat.lt_irrefl n hlt

theorem checkSubsetList_eq_nil {dimension : String} {index : ℕ}
    {parent child : Option (List String)} :
    checkSubsetList dimension index parent child = [] ↔ allowed child ⊆ allowed parent := by
  cases parent with
  | none => simp [checkSubsetList, allowed]
  | some parent =>
      cases child with
      | none =>
          obtain ⟨name, hname⟩ := exists_not_mem parent
          simp only [checkSubsetList, List.cons_ne_nil, false_iff]
          exact fun hsubset => hname (hsubset (Set.mem_univ name))
      | some child =>
          simp only [checkSubsetList, allowed]
          by_cases hexcess : child.filter (· ∉ parent) = []
          · rw [if_pos hexcess]
            refine iff_of_true rfl fun name hname => ?_
            simpa using List.filter_eq_nil_iff.mp hexcess name hname
          · rw [if_neg hexcess]
            refine iff_of_false (List.cons_ne_nil _ _) fun hsubset => hexcess ?_
            exact List.filter_eq_nil_iff.mpr fun name hname => by simpa using hsubset hname

theorem checkTier_eq_nil {index : ℕ} {parent child : Option DelegationCapabilityTier} :
    checkTier index parent child = [] ↔
      (child.map fun tier => WithTop.some tier.privilege).getD ⊤ ≤
        (parent.map fun tier => WithTop.some tier.privilege).getD ⊤ := by
  cases parent with
  | none => simp [checkTier]
  | some parent =>
      cases child with
      | none => simp [checkTier]
      | some child =>
          simp only [checkTier, Option.map_some, Option.getD_some, WithTop.coe_le_coe]
          split
          · rename_i hlt
            exact iff_of_false (List.cons_ne_nil _ _) (Nat.not_le.mpr hlt)
          · rename_i hle
            exact iff_of_true rfl (Nat.le_of_not_lt hle)

theorem linkViolations_eq_nil {index : ℕ} {parent child : DelegationGrantedScope} :
    linkViolations index parent child = [] ↔ child.permissions.Within parent.permissions := by
  simp only [linkViolations, List.append_eq_nil_iff, checkTier_eq_nil, checkSubsetList_eq_nil,
    Permissions.Within, DelegationGrantedScope.permissions, and_assoc]

/-- What the later link may do, the earlier one may. -/
def DelegationLink.Covers (earlier later : DelegationLink) : Prop :=
  later.grantedScope.permissions.Within earlier.grantedScope.permissions

instance : Trans DelegationLink.Covers DelegationLink.Covers DelegationLink.Covers :=
  ⟨fun hab hbc => Permissions.Within.trans hbc hab⟩

/-- A later link of the chain may do no more than any earlier one. -/
def Attenuated (chain : DelegationChain) : Prop :=
  chain.Pairwise DelegationLink.Covers

theorem violationsFrom_eq_nil {chain : DelegationChain} {index : ℕ} :
    violationsFrom index chain = [] ↔ Attenuated chain := by
  rw [Attenuated, ← List.isChain_iff_pairwise]
  induction chain generalizing index with
  | nil => simp [violationsFrom]
  | cons parent rest ih =>
      cases rest with
      | nil => simp [violationsFrom]
      | cons child rest =>
          rw [violationsFrom, List.append_eq_nil_iff, linkViolations_eq_nil, ih,
            List.isChain_cons_cons, DelegationLink.Covers]

/-- The check of each link against the one before it is the check against all before it. -/
theorem validateChainAttenuation_eq_nil {chain : DelegationChain} :
    validateChainAttenuation chain = [] ↔ Attenuated chain :=
  violationsFrom_eq_nil

/-- An envelope is routed exactly with the chains in which nobody has been granted more than
anybody before. -/
theorem routed_iff_attenuated {readNumber : List Char → Number} {msgId : String}
    {claim : List Char} {chain : DelegationChain} :
    routedDelegationChain readNumber msgId claim = .ok chain ↔
      parseDelegationChain readNumber claim = some chain ∧ Attenuated chain := by
  unfold routedDelegationChain
  cases hparse : parseDelegationChain readNumber claim with
  | none => exact iff_of_false (by rintro ⟨⟩) (by rintro ⟨⟨⟩, -⟩)
  | some parsed =>
      dsimp only
      split
      · rename_i hok
        constructor
        · rintro ⟨⟩
          exact ⟨rfl, validateChainAttenuation_eq_nil.mp hok⟩
        · rintro ⟨⟨⟩, -⟩
          rfl
      · rename_i hbad
        refine iff_of_false (by rintro ⟨⟩) ?_
        rintro ⟨⟨⟩, hattenuated⟩
        exact hbad (validateChainAttenuation_eq_nil.mpr hattenuated)

end Permissions

end Kyberion.Delegation
