import Kyberion.Tool.Claims

/-!
What a file claim covers, and when two claims that cover a common path conflict: always, but for a
recursive claim on the root directory.
-/

namespace Kyberion.Tool

/-- A name in a path. -/
structure PathName where
  chars : List Char
  nonempty : chars ≠ []
  noSlash : '/' ∉ chars
  notDot : chars ≠ ['.'] ∧ chars ≠ ['.', '.']

/-- `/name` for each name; the root directory has none. -/
def pathText (names : List PathName) : List Char :=
  names.flatMap fun name => '/' :: name.chars

/-- A canonical absolute path as it is written, with any trailing slashes. -/
def Denotes (path : String) (names : List PathName) : Prop :=
  ∃ slashes, path.toList = pathText names ++ List.replicate slashes '/' ∧
    (names = [] → 0 < slashes)

/-- A claim covers its own path, and everything below it when it is recursive. -/
def FileResourceClaim.Covers (claim : FileResourceClaim) (own path : List PathName) : Prop :=
  path = own ∨ claim.recursive = true ∧ own <+: path

/-- A recursive claim on the root against a path below it whose first name does not start with a
backslash. -/
def OverRoot (claim : FileResourceClaim) (own other : List PathName) : Prop :=
  claim.recursive = true ∧ own = [] ∧
    ∃ name rest, other = name :: rest ∧ name.chars.head? ≠ some '\\'

section Trim

theorem prefix_rdropWhile {α : Type} {p : α → Bool} {x l : List α} (h : x <+: l)
    (hlast : ∀ hne : x ≠ [], p (x.getLast hne) = false) : x <+: l.rdropWhile p := by
  induction l using List.reverseRecOn with
  | nil => simpa using h
  | append_singleton l c ih =>
      by_cases hc : p c = true
      · rw [List.rdropWhile_concat_pos _ _ _ hc]
        rcases List.prefix_concat_iff.mp h with rfl | hl
        · have hfalse := hlast (by simp)
          rw [List.getLast_append_singleton, hc] at hfalse
          cases hfalse
        · exact ih hl
      · rwa [List.rdropWhile_concat_neg _ _ _ hc]

theorem trimEndSlashes_append_replicate (l : List Char) (n : ℕ) :
    trimEndSlashes (l ++ List.replicate n '/') = trimEndSlashes l := by
  induction n with
  | zero => simp
  | succ n ih =>
      rw [List.replicate_succ', ← List.append_assoc, trimEndSlashes,
        List.rdropWhile_concat_pos _ _ _ (by simp)]
      exact ih

theorem trimEndSlashes_append (l : List Char) :
    ∃ n, l = trimEndSlashes l ++ List.replicate n '/' := by
  refine ⟨(l.rtakeWhile (· = '/')).length, ?_⟩
  have hall : l.rtakeWhile (· = '/') = List.replicate (l.rtakeWhile (· = '/')).length '/' := by
    refine List.eq_replicate_iff.mpr ⟨rfl, fun c hc => ?_⟩
    simpa using List.mem_rtakeWhile_imp hc
  rw [← hall]
  exact (List.rdropWhile_append_rtakeWhile).symm

theorem trimEndSlashes_prefixOf (l : List Char) : trimEndSlashes l <+: l :=
  List.rdropWhile_prefix _ l

theorem trimEndSlashes_last {l : List Char} (h : trimEndSlashes l ≠ []) :
    (trimEndSlashes l).getLast h ≠ '/' := by
  simpa [trimEndSlashes] using List.rdropWhile_last_not (· = '/') l h

end Trim

/-- A path with its backslashes read as slashes. -/
def posixText (names : List PathName) : List Char :=
  (pathText names).map fun c => if c = '\\' then '/' else c

theorem posixText_append (a b : List PathName) : posixText (a ++ b) = posixText a ++ posixText b := by
  simp [posixText, pathText]

theorem posixText_cons (name : PathName) (rest : List PathName) :
    posixText (name :: rest) =
      '/' :: (name.chars.map fun c => if c = '\\' then '/' else c) ++ posixText rest := by
  simp [posixText, pathText]

/-- The normal form of a path: the root is a slash, others lose what they end in. -/
theorem normalizeClaimPath_eq {path : String} {names : List PathName} (h : Denotes path names) :
    normalizeClaimPath path =
      if trimEndSlashes (posixText names) = [] then ['/'] else trimEndSlashes (posixText names) := by
  obtain ⟨slashes, htext, hroot⟩ := h
  have hposix : path.toList.map (fun c => if c = '\\' then '/' else c) =
      posixText names ++ List.replicate slashes '/' := by
    rw [htext, List.map_append, List.map_replicate]
    rfl
  simp only [normalizeClaimPath, hposix]
  by_cases hlength : 1 < (posixText names ++ List.replicate slashes '/').length
  · rw [if_pos hlength, trimEndSlashes_append_replicate]
  · rw [if_neg hlength]
    cases names with
    | nil =>
        have hone : slashes = 1 := by
          have hpos := hroot rfl
          simp [posixText, pathText] at hlength
          omega
        subst hone
        rfl
    | cons name rest =>
        have hpos := List.length_pos_of_ne_nil name.nonempty
        rw [posixText_cons] at hlength
        simp only [List.length_append, List.length_cons, List.length_map] at hlength
        omega

theorem posixText_head (name : PathName) (rest : List PathName) :
    ∃ c tail, posixText (name :: rest) = '/' :: c :: tail ∧
      (c = '/' ↔ name.chars.head? = some '\\') := by
  obtain ⟨c, tail, hname⟩ := List.exists_cons_of_ne_nil name.nonempty
  have hc : c ≠ '/' := fun h => name.noSlash (by rw [hname, h]; exact List.mem_cons_self)
  rw [posixText_cons, hname]
  refine ⟨_, _, rfl, ?_⟩
  by_cases hback : c = '\\' <;> simp [hback, hc]

section Overlap

variable {a b : FileResourceClaim} {own other : List PathName}

/-- A path that is all slashes once its backslashes are read as slashes, and what lies below it. -/
theorem posixText_doubleSlash {name : PathName} {rest : List PathName}
    (hempty : trimEndSlashes (posixText own) = [])
    (hroot : own = [] → name.chars.head? = some '\\') :
    ∃ tail, posixText (own ++ name :: rest) = '/' :: '/' :: tail := by
  cases own with
  | nil =>
      obtain ⟨c, tail, htext, hc⟩ := posixText_head name rest
      rw [hc.mpr (hroot rfl)] at htext
      exact ⟨tail, htext⟩
  | cons first others =>
      obtain ⟨c, tail, htext, -⟩ := posixText_head first others
      have hall := (List.rdropWhile_eq_nil_iff).mp hempty c (by rw [htext]; simp)
      rw [decide_eq_true_eq] at hall
      subst hall
      rw [posixText_append, htext]
      exact ⟨_, rfl⟩

theorem trimEndSlashes_slash (own : List PathName) (name : PathName) (rest : List PathName) :
    trimEndSlashes (posixText own) ++ ['/'] <+: posixText (own ++ name :: rest) := by
  obtain ⟨n, htrim⟩ := trimEndSlashes_append (posixText own)
  rw [posixText_append, posixText_cons]
  generalize trimEndSlashes (posixText own) = trimmed at *
  rw [htrim, List.append_assoc, List.prefix_append_right_inj]
  cases n with
  | zero => exact ⟨_, rfl⟩
  | succ n => exact ⟨_, rfl⟩

/-- Under a recursive claim the text of a path begins with the text of the claim. -/
theorem normalizeClaimPath_below {path path' : String} (h : Denotes path own)
    (h' : Denotes path' other) (hbelow : own <+: other)
    (hroot : own = [] → ∀ name rest, other = name :: rest → name.chars.head? = some '\\') :
    normalizeClaimPath path = normalizeClaimPath path' ∨
      (normalizeClaimPath path ++ ['/']).isPrefixOf (normalizeClaimPath path') = true := by
  rw [normalizeClaimPath_eq h, normalizeClaimPath_eq h', List.isPrefixOf_iff_prefix]
  obtain ⟨more, rfl⟩ := hbelow
  cases more with
  | nil =>
      rw [List.append_nil]
      exact .inl rfl
  | cons name rest =>
      by_cases hempty : trimEndSlashes (posixText own) = []
      · -- the text starts with two slashes
        rw [if_pos hempty]
        obtain ⟨tail, htail⟩ := posixText_doubleSlash hempty
          (fun hnil => hroot hnil name rest (by rw [hnil]; rfl))
        by_cases hall : trimEndSlashes (posixText (own ++ name :: rest)) = []
        · rw [if_pos hall]
          exact .inl rfl
        · rw [if_neg hall]
          have hfront : ['/', '/'] <+: posixText (own ++ name :: rest) := ⟨tail, htail.symm⟩
          refine .inr ((List.prefix_or_prefix_of_prefix hfront
            (trimEndSlashes_prefixOf _)).resolve_right fun hshort => trimEndSlashes_last hall ?_)
          have hmem := hshort.subset (List.getLast_mem hall)
          simpa using hmem
      · rw [if_neg hempty]
        have hfront := trimEndSlashes_slash own name rest
        have hown : trimEndSlashes (posixText own) <+:
            trimEndSlashes (posixText (own ++ name :: rest)) := by
          refine prefix_rdropWhile ((List.prefix_append _ _).trans hfront) fun hne => ?_
          simpa using trimEndSlashes_last hne
        have hne : trimEndSlashes (posixText (own ++ name :: rest)) ≠ [] := fun hnil =>
          hempty (List.prefix_nil.mp (hnil ▸ hown))
        rw [if_neg hne]
        rcases List.prefix_or_prefix_of_prefix hfront (trimEndSlashes_prefixOf _) with hlong | hshort
        · exact .inr hlong
        · rcases List.prefix_concat_iff.mp hshort with heq | hsame
          · exact absurd (by simp [heq]) (trimEndSlashes_last hne)
          · exact .inl (hown.eq_of_length_le hsame.length_le)

/-- A recursive claim on the root meets no path below it but by a leading backslash. -/
theorem pathsOverlap_overRoot (h : Denotes a.path own) (h' : Denotes b.path other)
    (hover : OverRoot a own other) : pathsOverlap a b = false := by
  obtain ⟨-, rfl, name, rest, rfl, hhead⟩ := hover
  obtain ⟨c, tail, htext, hc⟩ := posixText_head name rest
  have hslash : c ≠ '/' := fun h => hhead (hc.mp h)
  have hroot : normalizeClaimPath a.path = ['/'] := normalizeClaimPath_eq h
  have hfront : ['/', c] <+: trimEndSlashes (posixText (name :: rest)) := by
    refine prefix_rdropWhile ⟨tail, htext.symm⟩ fun _ => ?_
    simpa using hslash
  obtain ⟨more, hmore⟩ := hfront
  have hother : normalizeClaimPath b.path = '/' :: c :: more := by
    rw [normalizeClaimPath_eq h', ← hmore]
    rfl
  have hbelow : ['/'].isPrefixOf (c :: more) = false := by
    simp [List.isPrefixOf, Ne.symm hslash]
  simp [pathsOverlap, hroot, hother, hbelow]

/-- A claim on the path of another, or on one below it, overlaps it, but for the root. -/
theorem pathsOverlap_of_below (h : Denotes a.path own) (h' : Denotes b.path other)
    (hrecursive : a.recursive = true) (hbelow : own <+: other) (hover : ¬ OverRoot a own other) :
    pathsOverlap a b = true := by
  have hroot : own = [] → ∀ name rest, other = name :: rest → name.chars.head? = some '\\' := by
    intro hnil name rest hother
    by_contra hhead
    exact hover ⟨hrecursive, hnil, name, rest, hother, hhead⟩
  rcases normalizeClaimPath_below h h' hbelow hroot with heq | hfront
  · simp [pathsOverlap, heq]
  · simp [pathsOverlap, hrecursive, hfront]

theorem pathsOverlap_self (h : Denotes a.path own) (h' : Denotes b.path own) :
    pathsOverlap a b = true := by
  simp [pathsOverlap, normalizeClaimPath_eq h, normalizeClaimPath_eq h']

/-- What two claims both cover lies in the subtree of one of them. -/
theorem overlap_of_covers {p : List PathName} (ha : a.Covers own p) (hb : b.Covers other p) :
    own = other ∨ a.recursive = true ∧ own <+: other ∨ b.recursive = true ∧ other <+: own := by
  rcases ha with rfl | ⟨hreca, hbelowa⟩
  · rcases hb with rfl | ⟨hrecb, hbelowb⟩
    · exact .inl rfl
    · exact .inr (.inr ⟨hrecb, hbelowb⟩)
  · rcases hb with rfl | ⟨hrecb, hbelowb⟩
    · exact .inr (.inl ⟨hreca, hbelowa⟩)
    · rcases List.prefix_or_prefix_of_prefix hbelowa hbelowb with hab | hba
      · exact .inr (.inl ⟨hreca, hab⟩)
      · exact .inr (.inr ⟨hrecb, hba⟩)

/-- Claims that cover a common path conflict, and conflict is symmetric, exactly when neither is
recursive on the root over the other. -/
theorem resourceClaimsConflict_sound_iff (ha : Denotes a.path own) (hb : Denotes b.path other)
    (hwrite : a.operation = .write ∨ b.operation = .write) :
    (((∃ p, a.Covers own p ∧ b.Covers other p) →
        resourceClaimsConflict (.file a) (.file b) = true) ∧
      resourceClaimsConflict (.file a) (.file b) = resourceClaimsConflict (.file b) (.file a)) ↔
      ¬ OverRoot a own other ∧ ¬ OverRoot b other own := by
  have hreads : ¬ (a.operation = .read ∧ b.operation = .read) := by
    rintro ⟨hreada, hreadb⟩
    rcases hwrite with h | h <;> simp_all
  simp only [resourceClaimsConflict_comm (.file b), and_true]
  simp only [resourceClaimsConflict, if_neg hreads]
  constructor
  · intro hsound
    constructor
    · intro hover
      have hcovered := hsound ⟨other, .inr ⟨hover.1, by rw [hover.2.1]; exact List.nil_prefix⟩,
        .inl rfl⟩
      rw [pathsOverlap_overRoot ha hb hover] at hcovered
      cases hcovered
    · intro hover
      have hcovered := hsound ⟨own, .inl rfl,
        .inr ⟨hover.1, by rw [hover.2.1]; exact List.nil_prefix⟩⟩
      rw [pathsOverlap_comm, pathsOverlap_overRoot hb ha hover] at hcovered
      cases hcovered
  · rintro ⟨hovera, hoverb⟩ ⟨p, hpa, hpb⟩
    rcases overlap_of_covers hpa hpb with rfl | ⟨hrec, hbelow⟩ | ⟨hrec, hbelow⟩
    · exact pathsOverlap_self ha hb
    · exact pathsOverlap_of_below ha hb hrec hbelow hovera
    · rw [pathsOverlap_comm]
      exact pathsOverlap_of_below hb ha hrec hbelow hoverb

def srvName : PathName :=
  ⟨['s', 'r', 'v'], by decide, by decide, by decide⟩

def etcName : PathName :=
  ⟨['e', 't', 'c'], by decide, by decide, by decide⟩

/-- A write below a recursive claim, written with a trailing slash. -/
theorem conflict_below_srv :
    resourceClaimsConflict (.file ⟨.write, "/srv/", true⟩) (.file ⟨.read, "/srv/etc", false⟩) =
      true := by
  have hsrv : Denotes "/srv/" [srvName] := ⟨1, by decide, nofun⟩
  have hbelow : Denotes "/srv/etc" [srvName, etcName] := ⟨0, by decide, nofun⟩
  have hsound := resourceClaimsConflict_sound_iff (a := ⟨.write, "/srv/", true⟩)
    (b := ⟨.read, "/srv/etc", false⟩) hsrv hbelow (.inl rfl)
  refine (hsound.mpr ⟨?_, ?_⟩).1 ⟨[srvName, etcName], ?_, .inl rfl⟩
  · rintro ⟨-, hroot, -⟩
    cases hroot
  · rintro ⟨hrecursive, -⟩
    cases hrecursive
  · exact .inr ⟨rfl, [etcName], rfl⟩

/-- A recursive write claim on the root does not conflict with a read of a file. -/
theorem root_claim_misses :
    ¬ ∀ a b own other, Denotes a.path own → Denotes b.path other →
      (a.operation = .write ∨ b.operation = .write) →
      (∃ p, a.Covers own p ∧ b.Covers other p) →
      resourceClaimsConflict (.file a) (.file b) = true := by
  intro h
  have hmissed := h ⟨.write, "/", true⟩ ⟨.read, "/etc", false⟩ [] [etcName]
    ⟨1, by decide, fun _ => by decide⟩ ⟨0, by decide, nofun⟩ (.inl rfl)
    ⟨[etcName], .inr ⟨rfl, List.nil_prefix⟩, .inl rfl⟩
  revert hmissed
  decide

end Overlap

end Kyberion.Tool
