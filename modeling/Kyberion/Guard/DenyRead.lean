import Kyberion.Guard.TenantIsolation

/-!
When a role's carve-outs are asked. In a runtime partition they come before the
store grants; in the other protected tiers they come after the store grants and
after the listing of a directory above a grant.
-/

namespace Kyberion.Guard

open Cascade

section Protected

/-- The partitions of the tiers personal and confidential, and the directories of these tiers. -/
def isProtectedPartition (path : PolicyPath) : Bool :=
  pathStartsWith path.text "knowledge/personal".toList ||
    pathStartsWith path.text "knowledge/confidential".toList ||
    (STATE_ROOTS ++ STORAGE_FLOOR_ROOTS ++ RUNTIME_ROOTS).any fun root =>
      (tierAt root path.text).any DataTier.isProtected

theorem tierAt_starts {root : String} {text : List Char} {tier : DataTier}
    (h : tierAt root text = some tier) : root.toList <+: text := by
  obtain ⟨rest, hrest, -⟩ := Option.bind_eq_some_iff.mp h
  rw [below?, List.isPrefixOf?_eq_some_iff_append_eq, List.append_assoc] at hrest
  exact ⟨_, hrest⟩

theorem protected_inside {path : PolicyPath} (h : isProtectedPartition path = true) :
    isOutsideProjectRoot path.text = false := by
  have hroot (root : String) (hmem : root ∈ STATE_ROOTS ++ STORAGE_FLOOR_ROOTS ++ RUNTIME_ROOTS) :
      isCleanRoot root.toList = true := by
    rcases List.mem_append.mp hmem with hmem | hmem
    · exact List.all_eq_true.mp state_roots root hmem
    · exact (Bool.and_eq_true_iff.mp (List.all_eq_true.mp runtime_roots root hmem)).2
  have hstart {start : String} (h : pathStartsWith path.text start.toList = true)
      (hclean : isCleanRoot (normalizePath start.toList) = true) :
      isOutsideProjectRoot path.text = false := by
    refine inside_of_root hclean ?_
    rcases (path.startsWith_iff _).mp h with heq | hlonger
    · exact heq ▸ List.prefix_refl _
    · exact (List.prefix_append _ _).trans hlonger
  rw [isProtectedPartition, Bool.or_eq_true, Bool.or_eq_true] at h
  rcases h with (h | h) | h
  · exact hstart h (by decide +kernel)
  · exact hstart h (by decide +kernel)
  · obtain ⟨root, hmem, htier⟩ := List.any_eq_true.mp h
    obtain ⟨tier, htier, -⟩ := (Option.any_eq_true _ _).mp htier
    exact inside_of_root (hroot root hmem) (tierAt_starts htier)

end Protected

section Carved

variable (host : GuardHost) (policy : Policy) (path : PolicyPath) (operation : Operation)

/-- The path comes to a carve-out, or is refused before: in the shared runtime where a protected
prefix covers it or its store is declared wrongly, and elsewhere where the tenant check refuses or
neither a store grant nor the listing of a directory speaks first. -/
def comesToCarveOut : Bool :=
  (host.requestResourceDenial path.text operation).isSome ||
    (isRuntimePartitionPath path && (!runtimeStatePolicyDeclarationValid policy path.text ||
      (extractTenantFromProtectedPrefix path.text
        (tenantScopeConfig host policy).protectedPrefixes).isSome)) ||
    (!isOpenRead path && ((checkTenantScope host policy path.text .read host.identity).isSome ||
      !(host.storeGrantAuthorizes path.text operation ||
        isListedAbove host path operation policy)))

variable {host policy path}

/-- In a runtime partition the carve-out refuses, if the tenant check does not. -/
theorem readPartition_denied {reason : String} {found : TenantMatch}
    (hcarved : roleDenyReadDecision host policy path.text host.identity = some reason) :
    (readPartition host path operation policy found).IsDenial := by
  rw [readPartition, hcarved]
  exact firstOr_cons (fun _ => isDenial_map) rfl

theorem personaTier_denied {reason : String}
    (hcarved : roleDenyReadDecision host policy path.text host.identity = some reason) :
    (personaTierReadDecision host policy path.text host.identity).IsDenial := by
  rw [personaTierReadDecision, hcarved]
  rfl

/-- What the runtime part of the decision says to a path that is carved out. -/
theorem readRuntime_carved {reason : String} (hpolicy : host.policy = .loaded policy)
    (hcarved : roleDenyReadDecision host policy path.text host.identity = some reason) :
    ((isRuntimePartitionPath path && (!runtimeStatePolicyDeclarationValid policy path.text ||
      (extractTenantFromProtectedPrefix path.text
        (tenantScopeConfig host policy).protectedPrefixes).isSome)) = true ∧
      ∃ d, readRuntime host path operation = some d ∧ d.IsDenial) ∨
    ((isRuntimePartitionPath path && (!runtimeStatePolicyDeclarationValid policy path.text ||
      (extractTenantFromProtectedPrefix path.text
        (tenantScopeConfig host policy).protectedPrefixes).isSome)) = false ∧
      readRuntime host path operation = none) := by
  cases hpartition : isRuntimePartitionPath path with
  | false => exact .inr ⟨rfl, by rw [readRuntime, hpartition, if_neg Bool.false_ne_true]⟩
  | true =>
      rw [readRuntime, hpartition, if_pos rfl, hpolicy]
      dsimp only
      cases hvalid : runtimeStatePolicyDeclarationValid policy path.text with
      | false => exact .inl ⟨rfl, _, rfl, rfl⟩
      | true =>
          cases hfound : extractTenantFromProtectedPrefix path.text
              (tenantScopeConfig host policy).protectedPrefixes with
          | none => exact .inr ⟨rfl, rfl⟩
          | some found => exact .inl ⟨rfl, _, rfl, readPartition_denied operation hcarved⟩

/-- Outside the runtime partitions a carve-out refuses unless a grant or a listing is first. -/
theorem readUnderPolicy_carved {reason : String}
    (hcarved : roleDenyReadDecision host policy path.text host.identity = some reason) :
    (readUnderPolicy host path operation policy).allowed = false ↔
      ((checkTenantScope host policy path.text .read host.identity).isSome ||
        !(host.storeGrantAuthorizes path.text operation ||
          isListedAbove host path operation policy)) = true := by
  have hlast := personaTier_denied hcarved
  rw [readUnderPolicy]
  cases checkTenantScope host policy path.text .read host.identity with
  | some denial => exact ⟨fun _ => rfl, fun _ => rfl⟩
  | none =>
      cases host.storeGrantAuthorizes path.text operation with
      | true => exact ⟨by rintro ⟨⟩, by rintro ⟨⟩⟩
      | false =>
          cases isListedAbove host path operation policy with
          | true => exact ⟨by rintro ⟨⟩, by rintro ⟨⟩⟩
          | false => exact ⟨fun _ => rfl, fun _ => hlast⟩

end Carved

/-- A path that a role's carve-outs cover is not readable exactly where the decision comes to the
carve-outs or refuses before. -/
theorem carve_out_refuses_iff {host : GuardHost} {policy : Policy} {path : PolicyPath}
    (hpolicy : host.policy = .loaded policy) (hprotected : isProtectedPartition path = true)
    (hcarved : (roleDenyReadDecision host policy path.text host.identity).isSome = true)
    (operation : Operation) :
    (inspectReadPermission host path operation).allowed = false ↔
      comesToCarveOut host policy path operation = true := by
  obtain ⟨reason, hcarved⟩ := Option.isSome_iff_exists.mp hcarved
  rw [inspectReadPermission, protected_inside hprotected, hpolicy, comesToCarveOut]
  cases host.requestResourceDenial path.text operation with
  | some denial => exact ⟨fun _ => rfl, fun _ => rfl⟩
  | none =>
      rcases readRuntime_carved operation hpolicy hcarved with
        ⟨hcondition, d, hd, hdenial⟩ | ⟨hcondition, hd⟩
      · rw [hcondition, hd]
        exact ⟨fun _ => rfl, fun _ => hdenial⟩
      · rw [hcondition, hd]
        cases hopen : isOpenRead path with
        | true => exact ⟨by rintro ⟨⟩, by rintro ⟨⟩⟩
        | false => simpa [allowWhen] using readUnderPolicy_carved operation hcarved

/-- A reader of charters that must not see the personal tier. -/
def carvedPolicy : Policy where
  authorityRolePermissions _ :=
    { allowRead := ["knowledge/"], denyRead := ["knowledge/personal/"] }
  blockMessage _ := "blocked"

def charterReader : GuardHost where
  policy := .loaded carvedPolicy
  identity := { persona := "worker", role := "charter_reader" }

def founderCharter : PolicyPath :=
  ⟨"knowledge/personal/charters/founder.json".toList, by decide +kernel⟩

theorem carve_out_refuses_iff_charter :
    (inspectReadPermission charterReader founderCharter .read).allowed = false ↔
      comesToCarveOut charterReader carvedPolicy founderCharter .read = true :=
  carve_out_refuses_iff rfl (by decide +kernel) (by decide +kernel) .read

/-- A live store grant on the charters is asked before the carve-outs. -/
theorem store_grant_passes_carve_out :
    ¬ ∀ (host : GuardHost) (policy : Policy) (path : PolicyPath) (operation : Operation),
      host.policy = .loaded policy → isProtectedPartition path = true →
        (roleDenyReadDecision host policy path.text host.identity).isSome = true →
          (inspectReadPermission host path operation).allowed = false := by
  intro h
  have hdenied := h { charterReader with storeGrantAuthorizes := fun _ _ => true } carvedPolicy
    founderCharter .read rfl (by decide +kernel) (by decide +kernel)
  revert hdenied
  decide +kernel

end Kyberion.Guard
