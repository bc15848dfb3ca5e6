import Kyberion.Js.Text
import Kyberion.Js.Throw
import Mathlib.Algebra.Order.Field.Rat

/-!
The authority a trigger runs with: a role of the registry at the level of its scope classes, bound to
the role that is active when the trigger is claimed.
-/

namespace Kyberion.Trigger

open Js

structure TriggerAuthoritySnapshot where
  authorityRole : String
  level : ℚ
  tenantSlug : Option String := none
  deriving DecidableEq

/-- The role registry, and the role that is active. -/
structure RoleContext where
  roles : List (String × List String)
  activeRole : Option String
  deriving DecidableEq

def TRIGGER_SCOPE_LEVELS : List (String × ℚ) :=
  [("communication_surface", 20), ("project_delivery", 30), ("quality_validation", 30),
    ("coordination_runtime", 40), ("operations_runtime", 40), ("mission_state", 50), ("audit", 20),
    ("knowledge_core", 70), ("security_validation", 70), ("codebase_core", 80),
    ("design_system", 30), ("personal_identity", 90)]

def normalizeAuthority (authority : TriggerAuthoritySnapshot) :
    Except String TriggerAuthoritySnapshot :=
  let role := trim authority.authorityRole
  throwIf (role = "") "Trigger authority_role is required." <|
  throwIf (authority.level < 0) "Trigger authority level must be a finite non-negative number." <|
  .ok
    { authorityRole := role
      level := authority.level
      tenantSlug := (authority.tenantSlug.map trim).filter (· ≠ "") }

variable (numberText : ℚ → String) (context : RoleContext)

/-- The highest level of the scope classes of a role. -/
def governedTriggerLevel (role : String) : Option ℚ :=
  (context.roles.lookup role).bind fun scopes =>
    (scopes.filterMap (TRIGGER_SCOPE_LEVELS.lookup ·)).max?

def assertCanonicalAuthorityRole (role : String) : Except String Unit :=
  throwIf (context.roles.lookup role = none)
    ("[POLICY_VIOLATION] Unknown trigger authority role: " ++ role) <| .ok ()

def resolveGovernedAuthority (authority : TriggerAuthoritySnapshot) :
    Except String TriggerAuthoritySnapshot := do
  let normalized ← normalizeAuthority authority
  assertCanonicalAuthorityRole context normalized.authorityRole
  match governedTriggerLevel context normalized.authorityRole with
  | none =>
      .error ("[POLICY_VIOLATION] Trigger authority role has no governed level: " ++
        normalized.authorityRole)
  | some governedLevel =>
      throwIf (normalized.level ≠ governedLevel)
        ("[POLICY_VIOLATION] Trigger authority level does not match role registry: role=" ++
          normalized.authorityRole ++ " expected=" ++ numberText governedLevel ++ " received=" ++
          numberText normalized.level) <|
      match context.activeRole with
      | none => .error "[AUTHORITY_UNBOUND] Trigger execution requires an active MISSION_ROLE."
      | some activeRole =>
          throwIf (activeRole ≠ normalized.authorityRole)
            ("[POLICY_VIOLATION] Trigger authority is not bound to the active execution role: " ++
              "active=" ++ activeRole ++ " requested=" ++ normalized.authorityRole) <|
          .ok normalized

/-- The level of a snapshot is that of the registry. -/
def assertGovernedLevel (authority : TriggerAuthoritySnapshot) : Except String Unit := do
  assertCanonicalAuthorityRole context authority.authorityRole
  let governedLevel := governedTriggerLevel context authority.authorityRole
  throwIf (governedLevel ≠ some authority.level)
    ("[POLICY_VIOLATION] Trigger authority level does not match role registry: role=" ++
      authority.authorityRole ++ " expected=" ++
      ((governedLevel.map numberText).getD "registered level") ++ " received=" ++
      numberText authority.level) <| .ok ()

def assertNoEscalation (createdBy requestedAuthority : TriggerAuthoritySnapshot) :
    Except String Unit := do
  let creator ← normalizeAuthority createdBy
  let requested ← normalizeAuthority requestedAuthority
  assertGovernedLevel numberText context creator
  assertGovernedLevel numberText context requested
  throwIf (creator.level < requested.level)
    ("[POLICY_VIOLATION] Trigger authority escalation denied: creator=" ++ creator.authorityRole ++
      ":" ++ numberText creator.level ++ " requested=" ++ requested.authorityRole ++ ":" ++
      numberText requested.level) <|
  throwIf (creator.tenantSlug.isSome ∧ requested.tenantSlug.isSome ∧
      creator.tenantSlug ≠ requested.tenantSlug)
    ("[POLICY_VIOLATION] Trigger tenant scope escalation denied: creator=" ++
      creator.tenantSlug.getD "" ++ " requested=" ++ requested.tenantSlug.getD "") <|
  .ok ()

/-- What an authority that has been resolved is known to be. -/
structure Governed (authority : TriggerAuthoritySnapshot) : Prop where
  active : context.activeRole = some authority.authorityRole
  level : governedTriggerLevel context authority.authorityRole = some authority.level
  normal : normalizeAuthority authority = .ok authority

variable {numberText context} {authority normalized createdBy requestedAuthority :
  TriggerAuthoritySnapshot}

theorem normalizeAuthority_normal (h : normalizeAuthority authority = .ok normalized) :
    normalizeAuthority normalized = .ok normalized := by
  obtain ⟨hrole, h⟩ := throwIf_eq_ok.mp h
  obtain ⟨hlevel, h⟩ := throwIf_eq_ok.mp h
  obtain rfl := Except.ok.inj h
  refine throwIf_eq_ok.mpr ⟨by rwa [trim_trim], throwIf_eq_ok.mpr ⟨hlevel, ?_⟩⟩
  refine congrArg Except.ok ?_
  rw [trim_trim]
  cases htenant : (authority.tenantSlug.map trim).filter (· ≠ "") with
  | none => rfl
  | some tenant =>
      obtain ⟨hsome, hne⟩ := Option.filter_eq_some_iff.mp htenant
      obtain ⟨raw, -, rfl⟩ := Option.map_eq_some_iff.mp hsome
      have hkept : Option.filter (fun t => decide (t ≠ "")) (some (trim raw)) = some (trim raw) :=
        Option.filter_some_pos hne
      simp only [Option.map_some, trim_trim, hkept]

theorem resolveGovernedAuthority_governed
    (h : resolveGovernedAuthority numberText context authority = .ok normalized) :
    Governed context normalized := by
  obtain ⟨found, hnormalize, h⟩ := except_bind_ok h
  obtain ⟨-, -, h⟩ := except_bind_ok h
  split at h
  · cases h
  · rename_i governedLevel hgoverned
    obtain ⟨hlevel, h⟩ := throwIf_eq_ok.mp h
    split at h
    · cases h
    · rename_i activeRole hactive
      obtain ⟨hrole, h⟩ := throwIf_eq_ok.mp h
      obtain rfl := Except.ok.inj h
      exact ⟨by rw [hactive, not_not.mp hrole], by rw [hgoverned, not_not.mp hlevel],
        normalizeAuthority_normal hnormalize⟩

/-- A trigger does not run with more than its creator had, nor for another tenant. -/
structure NotEscalated (createdBy requestedAuthority : TriggerAuthoritySnapshot) : Prop where
  role : requestedAuthority.authorityRole = createdBy.authorityRole
  level : requestedAuthority.level = createdBy.level
  tenant : ∀ creator requested, createdBy.tenantSlug = some creator →
    requestedAuthority.tenantSlug = some requested → requested = creator

theorem notEscalated (hcreated : Governed context createdBy)
    (hrequested : Governed context requestedAuthority)
    (h : assertNoEscalation numberText context createdBy requestedAuthority = .ok ()) :
    NotEscalated createdBy requestedAuthority := by
  obtain ⟨creator, hcreator, h⟩ := except_bind_ok h
  obtain ⟨requested, hnormal, h⟩ := except_bind_ok h
  obtain rfl := Except.ok.inj (hcreated.normal.symm.trans hcreator)
  obtain rfl := Except.ok.inj (hrequested.normal.symm.trans hnormal)
  obtain ⟨-, -, h⟩ := except_bind_ok h
  obtain ⟨-, -, h⟩ := except_bind_ok h
  obtain ⟨-, h⟩ := throwIf_eq_ok.mp h
  obtain ⟨htenant, -⟩ := throwIf_eq_ok.mp h
  have hrole : requestedAuthority.authorityRole = createdBy.authorityRole :=
    Option.some.inj (hrequested.active.symm.trans hcreated.active)
  refine ⟨hrole, ?_, fun creator requested hsome hsome' => ?_⟩
  · have hlevel := hrequested.level
    rw [hrole, hcreated.level] at hlevel
    exact (Option.some.inj hlevel).symm
  · rw [hsome, hsome'] at htenant
    simpa [eq_comm] using htenant

end Kyberion.Trigger
