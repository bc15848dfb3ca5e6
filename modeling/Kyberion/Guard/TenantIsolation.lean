import Kyberion.Guard.Decision

/-!
No grant reaches into the partition of another tenant: whatever speaks before
the tenant check refuses, and every path of a registered partition comes to it.
-/

namespace Kyberion.Guard

open Cascade

section Registered

/-- The roots outside the shared runtime whose partitions are protected. -/
def STATE_ROOTS : List String :=
  ["active/organizations", "active/missions", "active/archive/missions", "active/projects"]

def RUNTIME_ROOTS : List String :=
  PARTITIONED_RUNTIME_STATE_ROOTS ++ PARTITIONED_RUNTIME_LEDGER_ROOTS ++
    [SURFACE_MANAGEMENT_ROOT_PATH]

def protectedPartitions (roots : List String) : List String :=
  roots.flatMap fun root => [root ++ "/personal/", root ++ "/confidential/"]

/-- The protected prefixes of the registered kinds. -/
def registeredPrefixes : List String :=
  "knowledge/confidential/" :: protectedPartitions (STATE_ROOTS ++ STORAGE_FLOOR_ROOTS) ++
    protectedPartitions RUNTIME_ROOTS

variable {path : PolicyPath} {start : String} {rest : List Char}

theorem hasProtectedSegment_iff (text : List Char) : hasProtectedSegment text = true ↔
    "/personal/".toList <:+: text ∨ "/confidential/".toList <:+: text := by
  simp only [hasProtectedSegment, List.any_eq_true, Bool.or_eq_true, List.mem_tails,
    List.isPrefixOf_iff_prefix, List.infix_iff_prefix_suffix]
  constructor
  · rintro ⟨tail, htail, h | h⟩
    · exact .inl ⟨tail, h, htail⟩
    · exact .inr ⟨tail, h, htail⟩
  · rintro (⟨tail, h, htail⟩ | ⟨tail, h, htail⟩)
    · exact ⟨tail, htail, .inl h⟩
    · exact ⟨tail, htail, .inr h⟩

theorem mem_protectedPartitions {roots : List String} (h : start ∈ protectedPartitions roots) :
    ∃ root ∈ roots, ∃ tier, (tier = "/personal".toList ∨ tier = "/confidential".toList) ∧
      start.toList = root.toList ++ tier ++ ['/'] := by
  obtain ⟨root, hroot, h⟩ := List.mem_flatMap.mp h
  rcases List.mem_pair.mp h with rfl | rfl
  · exact ⟨root, hroot, _, .inl rfl, by rw [String.toList_append, List.append_assoc]; rfl⟩
  · exact ⟨root, hroot, _, .inr rfl, by rw [String.toList_append, List.append_assoc]; rfl⟩

/-- A root without backslashes that does not begin with a dot. -/
def isCleanRoot (root : List Char) : Bool :=
  root.all (· ≠ '\\') && root.head?.any (· ≠ '.')

theorem runtime_roots : (RUNTIME_ROOTS.all fun root =>
    "active/shared/runtime/".toList.isPrefixOf root.toList && isCleanRoot root.toList) = true := by
  decide +kernel

theorem state_roots : ((STATE_ROOTS ++ STORAGE_FLOOR_ROOTS).all fun root =>
    isCleanRoot root.toList) = true := by
  decide +kernel

theorem registered_text (hstart : start ∈ registeredPrefixes) :
    ∃ root tier, isCleanRoot root = true ∧
      (tier = "/personal".toList ∨ tier = "/confidential".toList) ∧
      start.toList = root ++ tier ++ ['/'] := by
  rw [registeredPrefixes, List.cons_append, List.mem_cons, List.mem_append] at hstart
  rcases hstart with rfl | hstart | hstart
  · exact ⟨"knowledge".toList, _, by decide, .inr rfl, rfl⟩
  · obtain ⟨root, hroot, tier, htier, heq⟩ := mem_protectedPartitions hstart
    exact ⟨root.toList, tier, List.all_eq_true.mp state_roots root hroot, htier, heq⟩
  · obtain ⟨root, hroot, tier, htier, heq⟩ := mem_protectedPartitions hstart
    have hclean := List.all_eq_true.mp runtime_roots root hroot
    exact ⟨root.toList, tier, (Bool.and_eq_true_iff.mp hclean).2, htier, heq⟩

theorem normalizePath_concat {text : List Char} (hclean : text.all (· ≠ '\\') = true)
    (hlast : text.getLast? ≠ some '/') : normalizePath (text ++ ['/']) = text := by
  have hmap : text.map (fun c => if c = '\\' then '/' else c) = text := by
    refine (List.map_congr_left fun c hc => if_neg ?_).trans (List.map_id' text)
    exact of_decide_eq_true (List.all_eq_true.mp hclean c hc)
  rw [normalizePath, List.map_append, hmap, List.map_singleton, if_neg (by decide),
    List.rdropWhile_concat_pos _ _ _ (by decide), List.rdropWhile_eq_self_iff]
  intro h hslash
  exact hlast (by rw [List.getLast?_eq_some_getLast h, of_decide_eq_true hslash])

/-- A registered prefix ends its last segment. -/
theorem registered_normal (hstart : start ∈ registeredPrefixes) :
    normalizePath start.toList ++ ['/'] = start.toList := by
  obtain ⟨root, tier, hroot, htier, heq⟩ := registered_text hstart
  obtain ⟨hclean, -⟩ := Bool.and_eq_true_iff.mp hroot
  have htext : tier.all (· ≠ '\\') = true ∧ tier.getLast? = some 'l' := by
    rcases htier with rfl | rfl <;> decide
  obtain ⟨htierClean, hlast⟩ := htext
  rw [heq, normalizePath_concat]
  · rw [List.all_append, hclean, htierClean, Bool.and_self]
  · rw [List.getLast?_append, hlast, Option.some_or]
    decide

/-- What begins like a root does not leave the repository. -/
theorem inside_of_root {root text : List Char} (hroot : isCleanRoot root = true)
    (h : root <+: text) : isOutsideProjectRoot text = false := by
  obtain ⟨-, hhead⟩ := Bool.and_eq_true_iff.mp hroot
  obtain ⟨c, hc, hdot⟩ := (Option.any_eq_true _ _).mp hhead
  obtain ⟨tail, rfl⟩ := List.head?_eq_some_iff.mp hc
  obtain ⟨rest, rfl⟩ := h
  rw [isOutsideProjectRoot, decide_eq_false_iff_not]
  intro hdots
  simp only [firstSegment, List.cons_append, List.takeWhile_cons] at hdots
  split at hdots
  · exact of_decide_eq_true hdot (List.cons.inj hdots).1
  · cases hdots

theorem registered_inside (hstart : start ∈ registeredPrefixes)
    (hpath : path.text = start.toList ++ rest) : isOutsideProjectRoot path.text = false := by
  obtain ⟨root, tier, hroot, -, heq⟩ := registered_text hstart
  rw [heq, List.append_assoc, List.append_assoc] at hpath
  exact inside_of_root hroot ⟨_, hpath.symm⟩

theorem runtime_partition (hstart : start ∈ protectedPartitions RUNTIME_ROOTS)
    (hpath : path.text = start.toList ++ rest) : isRuntimePartitionPath path = true := by
  obtain ⟨root, hroot, tier, htier, heq⟩ := mem_protectedPartitions hstart
  have hroots := List.all_eq_true.mp runtime_roots root hroot
  have hruntime := List.isPrefixOf_iff_prefix.mp (Bool.and_eq_true_iff.mp hroots).1
  rw [heq, List.append_assoc root.toList, List.append_assoc] at hpath
  rw [isRuntimePartitionPath, Bool.and_eq_true, Bool.or_eq_true]
  refine ⟨(path.startsWith_iff _).mpr (.inr (hruntime.trans ⟨_, hpath.symm⟩)),
    .inl ((hasProtectedSegment_iff _).mpr ?_)⟩
  rw [hpath]
  rcases htier with rfl | rfl
  · exact .inl ⟨root.toList, rest, by rw [List.append_assoc]; rfl⟩
  · exact .inr ⟨root.toList, rest, by rw [List.append_assoc]; rfl⟩

theorem tier_state (hstart : start ∈ protectedPartitions (STATE_ROOTS ++ STORAGE_FLOOR_ROOTS))
    (hpath : path.text = start.toList ++ rest) :
    isTierStatePath path = true ∧ pathStartsWith path.text "knowledge/public".toList = false := by
  simp only [protectedPartitions, STATE_ROOTS, STORAGE_FLOOR_ROOTS, List.cons_append,
    List.nil_append, List.flatMap_cons, List.flatMap_nil, List.mem_cons, List.not_mem_nil,
    or_false] at hstart
  simp only [isTierStatePath, path.startsWith_eq]
  rw [hpath]
  rcases hstart with rfl | rfl | rfl | rfl | rfl | rfl | rfl | rfl | rfl | rfl | rfl | rfl | rfl |
    rfl | rfl | rfl <;> exact ⟨rfl, rfl⟩

/-- A path behind a registered prefix is not open to readers. -/
theorem registered_guarded (hstart : start ∈ registeredPrefixes)
    (hpath : path.text = start.toList ++ rest) :
    isRuntimePartitionPath path = true ∨ isOpenRead path = false := by
  rw [registeredPrefixes, List.cons_append, List.mem_cons, List.mem_append] at hstart
  rcases hstart with rfl | hstart | hstart
  · have hknowledge : pathStartsWith path.text "knowledge".toList = true := by
      rw [path.startsWith_eq, hpath]
      rfl
    have hpublic : pathStartsWith path.text "knowledge/public".toList = false := by
      rw [path.startsWith_eq, hpath]
      rfl
    have hconfidential : pathStartsWith path.text "knowledge/confidential".toList = true := by
      rw [path.startsWith_eq, hpath]
      rfl
    right
    simp only [isOpenRead, hknowledge, hpublic, hconfidential, Bool.not_true, Bool.false_and,
      Bool.and_false, Bool.or_false]
  · obtain ⟨hstate, hpublic⟩ := tier_state hstart hpath
    right
    simp only [isOpenRead, hstate, hpublic, Bool.not_true, Bool.and_false, Bool.or_false]
  · exact .inl (runtime_partition hstart hpath)

end Registered

section Check

variable {host : GuardHost} {policy : Policy} {path : List Char} {found : TenantMatch}
  {operation : Operation} {identity : Identity}

theorem hasValidTenant_ne_nil (h : hasValidTenant host policy found.tenant = true) :
    found.tenant ≠ [] := by
  intro hnil
  rw [hasValidTenant, hnil, Bool.and_eq_true] at h
  cases h.2

/-- A caller that is bound to a tenant is refused where the path is another tenant's. -/
theorem checkTenantScope_other (hbound : identity.tenantSlug ≠ "")
    (hsudo : "SUDO" ∉ identity.authorities) (hbrokered : identity.brokeredTenants.getD [] = [])
    (hfound : extractTenantFromProtectedPrefix path
      (tenantScopeConfig host policy).protectedPrefixes = some found)
    (hvalid : hasValidTenant host policy found.tenant = true)
    (hother : String.ofList found.tenant ≠ identity.tenantSlug)
    (hshared : isSharedPath host policy path = false)
    (hgroup : extractTenantGroupFromSharedPath path = none)
    (hregistry : isRegistryRead host policy path identity.role = false) :
    ∃ reason, checkTenantScope host policy path operation identity = some reason := by
  have hunbound : identity.isUnbound = false := by
    rw [Identity.isUnbound, decide_eq_false hbound, Bool.false_and]
  have hscope : checkTenantGroupScope host path identity = none := by
    rw [checkTenantGroupScope, hgroup, Option.bind_none]
  have hsudo' : identity.authorities.contains "SUDO" = false := by
    rw [List.contains_eq_mem, decide_eq_false hsudo]
  have hsegment : ∃ reason,
      checkTenantSegment host policy path operation identity found = some reason := by
    simp only [checkTenantSegment, hbrokered, List.any_nil, Bool.false_eq_true, if_false,
      hasValidTenant_ne_nil hvalid, hvalid, Bool.true_eq_false, or_self, hother.symm,
      List.contains_nil]
    exact ⟨_, rfl⟩
  simp only [checkTenantScope, hsudo', hregistry, hscope, hunbound, hshared, hgroup, hfound,
    Bool.false_eq_true, and_false, false_and, if_false, Option.isSome_none, Bool.or_self, or_self,
    Option.bind_some]
  split
  · exact ⟨_, rfl⟩
  · exact hsegment

end Check

section Denied

variable {host : GuardHost} {policy : Policy} {path : PolicyPath} {found : TenantMatch}

/-- Where a tenant's name stands behind a registered prefix, that prefix begins the path. -/
theorem path_of_found {prefixes : List String}
    (hprefixes : ∀ start ∈ prefixes, start ∈ registeredPrefixes)
    (hfound : extractTenantFromProtectedPrefix path.text prefixes = some found)
    (htenant : found.tenant ≠ []) :
    found.start ∈ registeredPrefixes ∧ ∃ rest, path.text = found.start.toList ++ rest := by
  obtain ⟨start, hstart, rfl⟩ := Option.map_eq_some_iff.mp hfound
  have hregistered := hprefixes start (List.mem_of_find?_eq_some hstart)
  have hnormal := registered_normal hregistered
  refine ⟨hregistered, ?_⟩
  have hcovers : pathStartsWith path.text start.toList = true := by
    simpa only using List.find?_some hstart
  rcases (path.startsWith_iff _).mp hcovers with heq | ⟨rest, hrest⟩
  · -- the path is the tier directory itself, and no name stands behind the prefix
    refine absurd ?_ htenant
    have hlength : path.text.length ≤ start.length := by
      have hsum := congrArg List.length hnormal
      rw [List.length_append, String.length_toList] at hsum
      rw [heq]
      omega
    change firstSegment (path.text.drop start.length) = []
    rw [List.drop_eq_nil_of_le hlength]
    rfl
  · exact ⟨rest, by rw [← hrest, hnormal]⟩

variable (operation : Operation)

/-- A write that the tenant check refuses is refused. -/
theorem write_denied (hpolicy : host.policy = .loaded policy) {reason : String}
    (hdenial : checkTenantScope host policy path.text operation host.identity = some reason) :
    (validateWritePermission host path operation).IsDenial := by
  rw [validateWritePermission, hpolicy]
  refine firstOr_cons (fun _ => isDenial_map) (firstOr_cons (fun _ => isDenial_map)
    (firstOr_cons (fun _ => isDenial_denyWhen) ?_))
  dsimp only [firstOr_nil]
  rw [writeUnderPolicy, hdenial]
  refine firstOr_cons (fun d hd => ?_) rfl
  split at hd
  · cases hd
  · obtain rfl := Option.some.inj hd
    rfl

/-- So is a read, when the path lies behind a registered prefix. -/
theorem read_denied (hpolicy : host.policy = .loaded policy) {reason : String}
    (hdenial : checkTenantScope host policy path.text .read host.identity = some reason)
    (hfound : extractTenantFromProtectedPrefix path.text
      (tenantScopeConfig host policy).protectedPrefixes = some found)
    (hinside : isOutsideProjectRoot path.text = false)
    (hguarded : isRuntimePartitionPath path = true ∨ isOpenRead path = false) :
    (inspectReadPermission host path operation).IsDenial := by
  have hruntime (d : Decision) (hd : readRuntime host path operation = some d) : d.IsDenial := by
    simp only [readRuntime, hpolicy, hfound, Option.map_some] at hd
    obtain ⟨-, hd⟩ := Option.ite_none_right_eq_some.mp hd
    split at hd <;> obtain rfl := Option.some.inj hd
    · rw [readPartition, hdenial]
      rfl
    · rfl
  rw [inspectReadPermission, hpolicy, hinside]
  refine firstOr_cons (fun _ => isDenial_map) (firstOr_cons (fun _ h => (nomatch h)) ?_)
  rcases hguarded with hpartition | hclosed
  · have hsome : (readRuntime host path operation).isSome = true := by
      simp only [readRuntime, hpartition, hpolicy, hfound, if_true, Option.map_some]
      split <;> rfl
    obtain ⟨d, hd⟩ := Option.isSome_iff_exists.mp hsome
    rw [hd, firstOr_some]
    exact hruntime d hd
  · refine firstOr_cons hruntime ?_
    rw [hclosed]
    dsimp only [allowWhen, Bool.false_eq_true, if_false, firstOr_none, firstOr_nil]
    rw [readUnderPolicy, hdenial]
    rfl

end Denied

/-- Under a policy whose protected prefixes are registered, a caller that is bound to a tenant can
neither read nor write behind them in the partition of another tenant. -/
theorem other_tenants_denied {host : GuardHost} {policy : Policy} {path : PolicyPath}
    {found : TenantMatch} (hpolicy : host.policy = .loaded policy)
    (hprefixes : ∀ start ∈ (tenantScopeConfig host policy).protectedPrefixes,
      start ∈ registeredPrefixes)
    (hbound : host.identity.tenantSlug ≠ "") (hsudo : "SUDO" ∉ host.identity.authorities)
    (hbrokered : host.identity.brokeredTenants.getD [] = [])
    (hfound : extractTenantFromProtectedPrefix path.text
      (tenantScopeConfig host policy).protectedPrefixes = some found)
    (hvalid : hasValidTenant host policy found.tenant = true)
    (hother : String.ofList found.tenant ≠ host.identity.tenantSlug)
    (hshared : isSharedPath host policy path.text = false)
    (hgroup : extractTenantGroupFromSharedPath path.text = none)
    (hregistry : isRegistryRead host policy path.text host.identity.role = false)
    (operation : Operation) :
    (validateWritePermission host path operation).allowed = false ∧
      (inspectReadPermission host path operation).allowed = false := by
  have hdenied (operation : Operation) : ∃ reason,
      checkTenantScope host policy path.text operation host.identity = some reason :=
    checkTenantScope_other hbound hsudo hbrokered hfound hvalid hother hshared hgroup hregistry
  obtain ⟨hstart, rest, hpath⟩ := path_of_found hprefixes hfound (hasValidTenant_ne_nil hvalid)
  obtain ⟨writeReason, hwrite⟩ := hdenied operation
  obtain ⟨readReason, hread⟩ := hdenied .read
  exact ⟨write_denied operation hpolicy hwrite,
    read_denied operation hpolicy hread hfound (registered_inside hstart hpath)
      (registered_guarded hstart hpath)⟩

/-- A policy that lets every reader into the knowledge tiers and every writer everywhere. -/
def openPolicy : Policy where
  defaultAllow := ["knowledge/"]
  authorityRolePermissions _ := { allowRead := ["knowledge/"], allowWrite := ["knowledge/"] }
  blockMessage _ := "blocked"

def acmeHost : GuardHost where
  policy := .loaded openPolicy
  identity := { persona := "worker", role := "librarian", tenantSlug := "acme" }
  storeGrantAuthorizes _ _ := true

def umbraPlan : PolicyPath := ⟨"knowledge/confidential/umbra/plan.md".toList, by decide +kernel⟩

theorem other_tenants_denied_acme :
    (validateWritePermission acmeHost umbraPlan .append).allowed = false ∧
      (inspectReadPermission acmeHost umbraPlan .append).allowed = false := by
  have hfound : extractTenantFromProtectedPrefix umbraPlan.text
      (tenantScopeConfig acmeHost openPolicy).protectedPrefixes =
        some ⟨"umbra".toList, "knowledge/confidential/"⟩ := by decide +kernel
  exact other_tenants_denied rfl (by decide +kernel) (by decide) (by decide) rfl hfound
    (by decide +kernel) (by decide +kernel) (by decide +kernel) (by decide +kernel)
    (by decide +kernel) .append

end Kyberion.Guard
