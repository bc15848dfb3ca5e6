import Kyberion.Delegation.Chain
import Kyberion.Js.JsonRead

/-!
The chain comes back when its own block is the first one of the text and its own closing marker the
first one behind. A block that the context brings along is read in its place.
-/

namespace Kyberion.Delegation

open Js FirstMatch

variable {readNumber : List Char → Number}

/-- The link is as `parseLink` leaves it. -/
structure DelegationLink.WellFormed (link : DelegationLink) : Prop where
  trimmed : trim link.actor = link.actor
  actor : link.actor ≠ ""
  grantedAt : isBlank link.grantedAt = false
  teamRole : link.teamRole ≠ some ""

section Serialized

theorem plain_textList (texts : List String) : (textList texts).plain = true := by
  have hitems : Json.plainItems (texts.map .str) = true := by
    induction texts with
    | nil => rfl
    | cons text texts ih => exact ih
  exact hitems

theorem safe_textList (texts : List String) : (textList texts).isSafeJsonValue = true := by
  have hitems : Json.safeItems (texts.map .str) = true := by
    induction texts with
    | nil => rfl
    | cons text texts ih => exact ih
  exact hitems

theorem plain_scope (scope : DelegationGrantedScope) : scope.toJson.plain = true := by
  obtain ⟨tier, capabilities, writeScopes⟩ := scope
  cases tier <;> cases capabilities <;> cases writeScopes <;>
    simp [DelegationGrantedScope.toJson, field, Json.plain, Json.plainFields, plain_textList]

theorem safe_scope (scope : DelegationGrantedScope) : scope.toJson.isSafeJsonValue = true := by
  obtain ⟨tier, capabilities, writeScopes⟩ := scope
  cases tier <;> cases capabilities <;> cases writeScopes <;>
    simp [DelegationGrantedScope.toJson, field, Json.isSafeJsonValue, Json.safeFields,
      safe_textList]

theorem plain_link (link : DelegationLink) : link.toJson.plain = true := by
  obtain ⟨actor, teamRole, scope, grantedAt⟩ := link
  cases teamRole <;>
    simp [DelegationLink.toJson, field, Json.plain, Json.plainFields, plain_scope]

theorem safe_link (link : DelegationLink) : link.toJson.isSafeJsonValue = true := by
  obtain ⟨actor, teamRole, scope, grantedAt⟩ := link
  cases teamRole <;>
    simp [DelegationLink.toJson, field, Json.isSafeJsonValue, Json.safeFields, safe_scope]

theorem plain_chain (chain : DelegationChain) :
    (Json.arr (chain.map DelegationLink.toJson)).plain = true := by
  have hitems : Json.plainItems (chain.map DelegationLink.toJson) = true := by
    induction chain with
    | nil => rfl
    | cons link chain ih =>
        rw [List.map_cons, Json.plainItems, plain_link, ih]
        rfl
  exact hitems

theorem safe_chain (chain : DelegationChain) :
    (Json.arr (chain.map DelegationLink.toJson)).isSafeJsonValue = true := by
  have hitems : Json.safeItems (chain.map DelegationLink.toJson) = true := by
    induction chain with
    | nil => rfl
    | cons link chain ih =>
        rw [List.map_cons, Json.safeItems, safe_link, ih]
        rfl
  exact hitems

theorem itemsText_ends (items : List Json) : (Json.itemsText items).getLast? = some ']' := by
  induction items with
  | nil => rfl
  | cons v items ih =>
      rw [Json.itemsText, List.getLast?_cons, List.getLast?_append, ih]
      rfl

theorem serialize_ends (chain : DelegationChain) :
    (serializeDelegationChain chain).getLast? = some ']' := by
  cases chain with
  | nil => rfl
  | cons link chain =>
      rw [serializeDelegationChain, List.map_cons, Json.text, List.getLast?_cons,
        List.getLast?_append, itemsText_ends]
      rfl

end Serialized

section Parsed

theorem knownTier_name (tier : DelegationCapabilityTier) : knownTier tier.name = some tier := by
  cases tier <;> decide

theorem mapM_asText (texts : List String) : (texts.map Json.str).mapM asText = some texts := by
  induction texts with
  | nil => rfl
  | cons text texts ih =>
      rw [List.map_cons, List.mapM_cons, ih]
      rfl

theorem readTexts_textList (texts : List String) : readTexts (textList texts) = some texts :=
  mapM_asText texts

theorem parseScope_toJson (scope : DelegationGrantedScope) :
    parseScope scope.toJson = some scope := by
  obtain ⟨tier, capabilities, writeScopes⟩ := scope
  cases tier <;> cases capabilities <;> cases writeScopes <;>
    simp [parseScope, DelegationGrantedScope.toJson, field, Json.isRecord, optionalField, Json.get,
      List.lookup_cons, asText, knownTier_name, readTexts_textList]

section Fields

variable (link : DelegationLink)

theorem get_actor : link.toJson.get "actor" = some (.str link.actor) :=
  rfl

theorem get_grantedAt : link.toJson.get "granted_at" = some (.str link.grantedAt) := by
  obtain ⟨actor, teamRole, scope, grantedAt⟩ := link
  cases teamRole <;> rfl

theorem get_grantedScope : link.toJson.get "granted_scope" = some link.grantedScope.toJson := by
  obtain ⟨actor, teamRole, scope, grantedAt⟩ := link
  cases teamRole <;> rfl

theorem read_teamRole : optionalField asText link.toJson "team_role" = some link.teamRole := by
  obtain ⟨actor, teamRole, scope, grantedAt⟩ := link
  cases teamRole <;> rfl

end Fields

theorem parseLink_toJson (link : DelegationLink) :
    parseLink link.toJson =
      if trim link.actor ≠ "" ∧ isBlank link.grantedAt = false then
        some { link with actor := trim link.actor, teamRole := link.teamRole.filter (· ≠ "") }
      else none := by
  have hrecord : link.toJson.isRecord = true := rfl
  rw [parseLink, if_pos hrecord, get_actor, get_grantedAt, get_grantedScope, read_teamRole]
  simp only [Option.bind_some, asText, Option.map_some, parseScope_toJson]
  by_cases hactor : trim link.actor = ""
  · simp [hactor]
  · by_cases hgranted : isBlank link.grantedAt = false
    · simp [hactor, hgranted, Option.filter]
    · simp [hactor, hgranted]

theorem parseLink_iff (link : DelegationLink) :
    parseLink link.toJson = some link ↔ link.WellFormed := by
  rw [parseLink_toJson]
  constructor
  · intro h
    obtain ⟨⟨hactor, hgranted⟩, heq⟩ := Option.ite_none_right_eq_some.mp h
    obtain ⟨htrim, hrole, -⟩ := DelegationLink.mk.inj (Option.some.inj heq)
    refine ⟨htrim, htrim ▸ hactor, hgranted, fun hempty => ?_⟩
    rw [hempty] at hrole
    cases hrole
  · rintro ⟨htrim, hactor, hgranted, hrole⟩
    have hkept : link.teamRole.filter (· ≠ "") = link.teamRole := by
      cases hteam : link.teamRole with
      | none => rfl
      | some role => exact Option.filter_some_pos (by simpa [hteam] using hrole)
    rw [htrim, if_pos ⟨hactor, hgranted⟩, hkept]

theorem mapM_parseLink (chain : DelegationChain) :
    (chain.map DelegationLink.toJson).mapM parseLink = some chain ↔
      ∀ link ∈ chain, link.WellFormed := by
  induction chain with
  | nil => simp
  | cons link chain ih =>
      rw [List.map_cons, List.mapM_cons, List.forall_mem_cons, ← ih, ← parseLink_iff]
      constructor
      · intro h
        obtain ⟨first, hfirst, h⟩ := Option.bind_eq_some_iff.mp h
        obtain ⟨rest, hrest, h⟩ := Option.bind_eq_some_iff.mp h
        obtain ⟨rfl, rfl⟩ := List.cons.inj (Option.some.inj h)
        exact ⟨hfirst, hrest⟩
      · rintro ⟨hfirst, hrest⟩
        rw [hfirst, hrest]
        rfl

/-- The serialized chain parses to itself when all its links are well formed. -/
theorem parseDelegationChain_serialize (chain : DelegationChain) :
    parseDelegationChain readNumber (serializeDelegationChain chain) = some chain ↔
      ∀ link ∈ chain, link.WellFormed := by
  rw [parseDelegationChain, serializeDelegationChain, parse_text (plain_chain chain),
    Option.filter_some_pos (safe_chain chain)]
  exact mapM_parseLink chain

theorem parseDelegationChain_of_parse {text : List Char} (h : parse readNumber text = none) :
    parseDelegationChain readNumber text = none := by
  rw [parseDelegationChain, h]
  rfl

/-- A serialized chain that is cut short does not parse. -/
theorem parseDelegationChain_cut {chain : DelegationChain} {front back : List Char}
    (h : serializeDelegationChain chain = front ++ back) (hback : back ≠ []) :
    parseDelegationChain readNumber front = none := by
  apply parseDelegationChain_of_parse
  by_contra hparse
  obtain ⟨v, hv⟩ := Option.ne_none_iff_exists'.mp hparse
  have hwhole : parse readNumber (front ++ back) =
      some (.arr (chain.map DelegationLink.toJson)) := by
    rw [← h]
    exact parse_text (plain_chain chain)
  have hends := serialize_ends chain
  rw [h, List.getLast?_append_of_ne_nil _ hback] at hends
  have hlast := parse_append hv hwhole ']' (List.mem_of_getLast? hends)
  revert hlast
  decide

end Parsed

section Markers

theorem contextOpen_eq : contextOpen = '<' :: "delegation-chain>".toList := by
  decide

theorem contextClose_eq : contextClose = '<' :: "/delegation-chain>".toList := by
  decide

theorem chainBlock_eq (chain : DelegationChain) :
    chainBlock chain = contextOpen ++ (serializeDelegationChain chain ++ contextClose) := by
  rw [chainBlock, List.append_assoc]

theorem splitFirst_contextOpen {front : List Char} (h : splitFirst contextOpen front = none)
    (rest : List Char) :
    splitFirst contextOpen (front ++ (contextOpen ++ rest)) = some (front, rest) := by
  rw [contextOpen_eq] at h ⊢
  exact splitFirst_self (by decide) h rest

theorem splitFirst_contextClose {front : List Char} (h : splitFirst contextClose front = none)
    (rest : List Char) :
    splitFirst contextClose (front ++ (contextClose ++ rest)) = some (front, rest) := by
  rw [contextClose_eq] at h ⊢
  exact splitFirst_self (by decide) h rest

theorem splitFirst_chainBlock (chain : DelegationChain) :
    splitFirst contextOpen (chainBlock chain) =
      some ([], serializeDelegationChain chain ++ contextClose) := by
  have hfirst : splitFirst contextOpen [] = none := rfl
  rw [chainBlock_eq]
  exact splitFirst_contextOpen hfirst (serializeDelegationChain chain ++ contextClose)

/-- The opening marker of an embedded chain, when the context has none. -/
theorem splitFirst_embed {context : List Char} (h : splitFirst contextOpen context = none)
    (chain : DelegationChain) : ∃ front,
      splitFirst contextOpen (embedDelegationChainInContext context chain) =
          some (front, serializeDelegationChain chain ++ contextClose) ∧
        dropLineBreak front = context := by
  unfold embedDelegationChainInContext
  split
  · rename_i hempty
    exact ⟨[], splitFirst_chainBlock chain, hempty.symm⟩
  · refine ⟨context ++ ['\n'], ?_, by simp [dropLineBreak]⟩
    rw [splitFirst_barrier (by decide) (by decide) h, splitFirst_chainBlock]
    rfl

/-- The block of the text when the context has no opening marker. -/
theorem contextBlock_own {context : List Char} (h : splitFirst contextOpen context = none)
    (chain : DelegationChain) :
    contextBlock (embedDelegationChainInContext context chain) =
      (splitFirst contextClose (serializeDelegationChain chain ++ contextClose)).map fun closed =>
        ⟨context, closed.1, closed.2⟩ := by
  obtain ⟨front, hfront, hcontext⟩ := splitFirst_embed h chain
  rw [contextBlock, hfront, Option.bind_some, hcontext]

/-- The first block of a context that closes it stays the first one. -/
theorem contextBlock_foreign {context : List Char} {block : ContextBlock}
    (h : contextBlock context = some block) (chain : DelegationChain) :
    contextBlock (embedDelegationChainInContext context chain) =
      some { block with back := block.back ++ '\n' :: chainBlock chain } := by
  obtain ⟨⟨front, rest⟩, hopen, h⟩ := Option.bind_eq_some_iff.mp h
  obtain ⟨⟨body, back⟩, hclose, rfl⟩ := Option.map_eq_some_iff.mp h
  have hne : context ≠ [] := by
    rintro rfl
    cases hopen
  rw [embedDelegationChainInContext, if_neg hne, contextBlock, splitFirst_append hopen,
    Option.bind_some, splitFirst_append hclose]
  rfl

/-- A block that the context opens and does not close reaches into the chain. -/
theorem contextBlock_open {context front rest : List Char}
    (hopen : splitFirst contextOpen context = some (front, rest))
    (hclose : splitFirst contextClose rest = none) (chain : DelegationChain) {block : ContextBlock}
    (h : contextBlock (embedDelegationChainInContext context chain) = some block) :
    ∃ tail, block.body = rest ++ '\n' :: '<' :: tail := by
  have hne : context ≠ [] := by
    rintro rfl
    cases hopen
  rw [embedDelegationChainInContext, if_neg hne, contextBlock, splitFirst_append hopen,
    Option.bind_some, splitFirst_barrier (by decide) (by decide) hclose, Option.map_map] at h
  obtain ⟨⟨body, back⟩, hblock, rfl⟩ := Option.map_eq_some_iff.mp h
  have hbegin : chainBlock chain = '<' :: 'd' :: (chainBlock chain).drop 2 := rfl
  rw [hbegin, splitFirst, if_neg (by simp [contextClose_eq])] at hblock
  obtain ⟨parts, -, heq⟩ := Option.map_eq_some_iff.mp hblock
  obtain ⟨rfl, -⟩ := Prod.mk.inj heq
  exact ⟨parts.1, rfl⟩

end Markers

section Context

variable (readNumber) (context : List Char) (chain : DelegationChain)

/-- What is extracted from the embedded text is the chain, and the context but for white space
around it. -/
structure KeepsChain : Prop where
  same : (extractDelegationChainFromContext readNumber
    (embedDelegationChainInContext context chain)).chain = some chain
  accepted : (extractDelegationChainFromContext readNumber
    (embedDelegationChainInContext context chain)).malformed = false
  restored : trimChars (((extractDelegationChainFromContext readNumber
    (embedDelegationChainInContext context chain)).contextWithoutChain).getD []) =
      trimChars context

/-- No marker stands in the way, and each link is as `parseLink` leaves it. -/
structure OwnBlock : Prop where
  opening : ¬ contextOpen <:+: context
  closing : ¬ contextClose <:+: serializeDelegationChain chain
  links : ∀ link ∈ chain, link.WellFormed

/-- The first block of the context is one of the same chain, and moving it to the end of the text
changes white space around the text only. -/
def RepeatedBlock : Prop :=
  ∃ block, contextBlock context = some block ∧
    parseDelegationChain readNumber block.body = some chain ∧
      trimChars (block.front ++ (block.back ++ '\n' :: chainBlock chain)) = trimChars context

variable {readNumber} {context} {chain}

theorem embed_ne_nil : embedDelegationChainInContext context chain ≠ [] := by
  unfold embedDelegationChainInContext
  split
  · rw [chainBlock_eq, contextOpen_eq]
    exact List.cons_ne_nil _ _
  · exact List.append_ne_nil_of_right_ne_nil _ (List.cons_ne_nil _ _)

theorem trimChars_trimChars (text : List Char) : trimChars (trimChars text) = trimChars text := by
  have h := congrArg String.toList (trim_trim (String.ofList text))
  simpa [trim, trimChars] using h

/-- What the extraction finds, by the block of the text. -/
theorem keepsChain_iff {block : ContextBlock}
    (h : contextBlock (embedDelegationChainInContext context chain) = some block) :
    KeepsChain readNumber context chain ↔
      parseDelegationChain readNumber block.body = some chain ∧
        trimChars (block.front ++ block.back) = trimChars context := by
  have hextract : extractDelegationChainFromContext readNumber
      (embedDelegationChainInContext context chain) =
        ⟨parseDelegationChain readNumber block.body,
          (parseDelegationChain readNumber block.body).isNone,
          if trimChars (block.front ++ block.back) = [] then none
          else some (trimChars (block.front ++ block.back))⟩ := by
    rw [extractDelegationChainFromContext, if_neg embed_ne_nil, h]
  have hstripped : trimChars ((if trimChars (block.front ++ block.back) = [] then none
      else some (trimChars (block.front ++ block.back))).getD []) =
        trimChars (block.front ++ block.back) := by
    split
    · rename_i hempty
      rw [hempty]
      rfl
    · exact trimChars_trimChars _
  constructor
  · rintro ⟨hchain, -, hcontext⟩
    rw [hextract] at hchain hcontext
    exact ⟨hchain, hstripped.symm.trans hcontext⟩
  · rintro ⟨hchain, hcontext⟩
    refine ⟨?_, ?_, ?_⟩ <;> rw [hextract]
    · exact hchain
    · rw [hchain]
      rfl
    · exact hstripped.trans hcontext

theorem not_keepsChain {block : ContextBlock}
    (h : contextBlock (embedDelegationChainInContext context chain) = some block)
    (hbody : parseDelegationChain readNumber block.body = none) :
    ¬ KeepsChain readNumber context chain := by
  rw [keepsChain_iff h, hbody]
  rintro ⟨hchain, -⟩
  cases hchain

/-- The context has no opening marker: the first block is the chain's own. -/
theorem keepsChain_own (hopen : splitFirst contextOpen context = none) :
    KeepsChain readNumber context chain ↔ OwnBlock context chain := by
  have hblock := contextBlock_own hopen chain
  cases hclose : splitFirst contextClose (serializeDelegationChain chain) with
  | none =>
      have hend := splitFirst_contextClose hclose []
      rw [List.append_nil] at hend
      rw [hend] at hblock
      rw [keepsChain_iff hblock, parseDelegationChain_serialize, List.append_nil]
      constructor
      · rintro ⟨hlinks, -⟩
        exact ⟨splitFirst_eq_none.mp hopen, splitFirst_eq_none.mp hclose, hlinks⟩
      · exact fun h => ⟨h.links, rfl⟩
  | some parts =>
      -- The block ends inside the serialized chain.
      have hcut := splitFirst_sound hclose
      rw [List.append_assoc] at hcut
      rw [splitFirst_append hclose] at hblock
      refine iff_of_false (not_keepsChain hblock (parseDelegationChain_cut hcut ?_)) fun h => ?_
      · rw [contextClose_eq]
        exact List.cons_ne_nil _ _
      · rw [splitFirst_eq_none.mpr h.closing] at hclose
        cases hclose

/-- The context opens a block that it does not close. -/
theorem not_keepsChain_open {front rest : List Char}
    (hopen : splitFirst contextOpen context = some (front, rest))
    (hclose : splitFirst contextClose rest = none) : ¬ KeepsChain readNumber context chain := by
  intro h
  cases hblock : contextBlock (embedDelegationChainInContext context chain) with
  | none =>
      have hsame := h.same
      rw [extractDelegationChainFromContext, if_neg embed_ne_nil, hblock] at hsame
      cases hsame
  | some block =>
      obtain ⟨tail, hbody⟩ := contextBlock_open hopen hclose chain hblock
      refine not_keepsChain hblock (parseDelegationChain_of_parse ?_) h
      rw [hbody]
      exact parse_lineBreak rest tail

/-- The chain comes back as it was embedded exactly when its own block is read, or one like it. -/
theorem chain_survives_iff :
    KeepsChain readNumber context chain ↔
      OwnBlock context chain ∨ RepeatedBlock readNumber context chain := by
  cases hopen : splitFirst contextOpen context with
  | none =>
      have hrepeated : ¬ RepeatedBlock readNumber context chain := by
        rintro ⟨block, hblock, -⟩
        rw [contextBlock, hopen] at hblock
        cases hblock
      rw [keepsChain_own hopen, or_iff_left hrepeated]
  | some parts =>
      have hown : ¬ OwnBlock context chain := by
        intro h
        rw [splitFirst_eq_none.mpr h.opening] at hopen
        cases hopen
      rw [or_iff_right hown]
      cases hclose : splitFirst contextClose parts.2 with
      | none =>
          refine iff_of_false (not_keepsChain_open hopen hclose) ?_
          rintro ⟨block, hblock, -⟩
          rw [contextBlock, hopen, Option.bind_some, hclose] at hblock
          cases hblock
      | some closed =>
          have hblock : contextBlock context =
              some ⟨dropLineBreak parts.1, closed.1, closed.2⟩ := by
            rw [contextBlock, hopen, Option.bind_some, hclose]
            rfl
          rw [keepsChain_iff (contextBlock_foreign hblock chain), RepeatedBlock, hblock]
          constructor
          · exact fun h => ⟨_, rfl, h⟩
          · rintro ⟨block, heq, h⟩
            obtain rfl := Option.some.inj heq
            exact h

/-- A context that brings along an empty chain of its own. -/
theorem chain_spoofed : ¬ ∀ (context : List Char) (chain : DelegationChain),
    KeepsChain (fun _ => .negZero) context chain := by
  intro h
  have hsame := (h "<delegation-chain>[]</delegation-chain>".toList
    [⟨"user:ann", none, {}, "2026-01-01"⟩]).same
  have hread : (extractDelegationChainFromContext (fun _ => .negZero)
      (embedDelegationChainInContext "<delegation-chain>[]</delegation-chain>".toList
        [⟨"user:ann", none, {}, "2026-01-01"⟩])).chain = some [] := by
    decide +kernel
  rw [hread] at hsame
  cases hsame

end Context

end Kyberion.Delegation
