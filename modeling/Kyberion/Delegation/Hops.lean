import Kyberion.Delegation.Attenuation
import Kyberion.Trace

/-!
Dispatch hops on one context: each takes the chain out of the text, appends its own link, checks
the chain and puts it back. Whoever passes the text on with its block leaves the chain to the hops.
-/

namespace Kyberion.Delegation

open Js FirstMatch Transition Trace

/-- What a dispatch knows: the sub-worker it asks for, the actor it would begin a chain with, and
the time. -/
structure Hop where
  dispatcherName : String
  tier : DelegationCapabilityTier
  role : Option String := none
  actor : String
  now : String
  deriving DecidableEq

def buildDelegationLink (actor : String) (teamRole : Option String)
    (grantedScope : DelegationGrantedScope) (grantedAt : String) : Except String DelegationLink :=
  let actor := trim actor
  if actor = "" then .error "[delegation-chain] a delegation link requires a non-empty actor"
  else .ok { actor, teamRole := teamRole.filter (· ≠ ""), grantedScope, grantedAt }

def appendDelegationLink (chain : DelegationChain) (link : DelegationLink) : DelegationChain :=
  chain ++ [link]

variable (readNumber : List Char → Number)

def propagateDelegationChainThroughContext (context : List Char) (hop : Hop) :
    Except String (List Char) :=
  let extracted := extractDelegationChainFromContext readNumber context
  if extracted.malformed then
    .error (attenuationMessage ["embedded delegation-chain block is malformed — " ++
      "refusing to dispatch on a corrupted chain"])
  else match extracted.chain with
    | some chain => do
        let link ← buildDelegationLink ("subagent:" ++ hop.dispatcherName ++ ":" ++ hop.tier.name)
          hop.role { capabilityTier := some hop.tier } hop.now
        let extended := appendDelegationLink chain link
        let violations := validateChainAttenuation extended
        if violations = [] then
          .ok (embedDelegationChainInContext (extracted.contextWithoutChain.getD []) extended)
        else .error (attenuationMessage violations)
    | none => do
        let link ← buildDelegationLink hop.actor none {} hop.now
        .ok (embedDelegationChainInContext context [link])

/-- The link that begins a chain. -/
def Hop.origin (hop : Hop) : DelegationLink :=
  ⟨trim hop.actor, none, {}, hop.now⟩

/-- The link of the sub-worker. -/
def Hop.link (hop : Hop) : DelegationLink :=
  ⟨trim ("subagent:" ++ hop.dispatcherName ++ ":" ++ hop.tier.name), hop.role.filter (· ≠ ""),
    { capabilityTier := some hop.tier }, hop.now⟩

inductive HopEvent
  | passed (hop : Hop)
  | refused (hop : Hop)
  deriving DecidableEq

/-- `log` is kept by the model only. -/
structure Dispatching where
  context : List Char
  log : List HopEvent := []

inductive HopAction
  | hop (hop : Hop)
  | rewrite (context : List Char)
  deriving DecidableEq

/-- Hops, and what is done with the text between them. -/
def hops : Transition.System Dispatching HopAction where
  init w := w.log = [] ∧ ¬ contextOpen <:+: w.context
  step w
    | .hop hop =>
        match propagateDelegationChainThroughContext readNumber w.context hop with
        | .ok context => some { context, log := w.log ++ [.passed hop] }
        | .error _ => some { w with log := w.log ++ [.refused hop] }
    | .rewrite context => some { w with context }

def HopEvent.passed? : HopEvent → Option Hop
  | .passed hop => some hop
  | .refused _ => none

def passedHops (log : List HopEvent) : List Hop :=
  log.filterMap HopEvent.passed?

/-- The chain of the hops that have passed. -/
def recordedChain : List Hop → DelegationChain
  | [] => []
  | first :: rest => first.origin :: rest.map Hop.link

def hasMarker (marker text : List Char) : Bool :=
  (splitFirst marker text).isSome

/-- The texts of a hop do not close the block, and name an actor and a time. -/
def sealedHop (hop : Hop) : Bool :=
  !isBlank hop.actor && !isBlank hop.now && !hasMarker contextClose hop.origin.toJson.text &&
    !hasMarker contextClose hop.link.toJson.text

/-- A rewritten text passes the block on, and opens no other. -/
def passesOn (w : Dispatching) : HopAction → Bool
  | .hop hop => sealedHop hop
  | .rewrite context =>
      let extracted := extractDelegationChainFromContext readNumber context
      !extracted.malformed &&
        decide (extracted.chain = (extractDelegationChainFromContext readNumber w.context).chain) &&
        !hasMarker contextOpen (extracted.contextWithoutChain.getD [])

/-- A hop after the first passes exactly when its tier is not above that of any hop after the first
that has passed. -/
def HopEvent.Decided (front : List HopEvent) : HopEvent → Prop
  | .passed hop => ∀ earlier ∈ (passedHops front).tail, hop.tier.privilege ≤ earlier.tier.privilege
  | .refused hop => ∃ earlier ∈ (passedHops front).tail, earlier.tier.privilege < hop.tier.privilege

/-- The text carries the links of all hops that have passed and no others, none of which may do
more than one before it. -/
structure HopsAttenuate (w : Dispatching) : Prop where
  carried : (extractDelegationChainFromContext readNumber w.context).chain =
    if passedHops w.log = [] then none else some (recordedChain (passedHops w.log))
  attenuated : Attenuated (recordedChain (passedHops w.log))
  decided : EachAfter HopEvent.Decided w.log

section Marker

variable {α : Type} [DecidableEq α] {pattern list more : List α} {a : α}

theorem not_infix_barrier (ha : a ∉ pattern) (hne : pattern ≠ []) :
    ¬ pattern <:+: list ++ a :: more ↔ ¬ pattern <:+: list ∧ ¬ pattern <:+: more := by
  constructor
  · exact fun h => ⟨fun hlist => h (hlist.trans (List.prefix_append _ _).isInfix),
      fun hmore => h (hmore.trans ((List.suffix_cons a more).trans
        (List.suffix_append list (a :: more))).isInfix)⟩
  · rintro ⟨hlist, hmore⟩
    rw [← splitFirst_eq_none] at hlist hmore ⊢
    rw [splitFirst_barrier ha hne hlist, hmore]
    rfl

theorem not_infix_cons (ha : a ∉ pattern) (hne : pattern ≠ []) :
    ¬ pattern <:+: a :: more ↔ ¬ pattern <:+: [] ∧ ¬ pattern <:+: more := by
  rw [← not_infix_barrier ha hne, List.nil_append]

@[simp] theorem hasMarker_eq_false {marker text : List Char} :
    hasMarker marker text = false ↔ ¬ marker <:+: text := by
  rw [hasMarker, Option.isSome_eq_false_iff, Option.isNone_iff_eq_none, splitFirst_eq_none]

theorem contextClose_ne_nil : contextClose ≠ [] := by
  decide

/-- The items of a list end before the next comma, or the bracket. -/
theorem closing_items (items : List Json) :
    ¬ contextClose <:+: Json.itemsText items ↔ ∀ v ∈ items, ¬ contextClose <:+: v.text := by
  induction items with
  | nil => exact iff_of_true (by decide) (by simp)
  | cons v items ih =>
      have hcomma : ¬ contextClose <:+: Json.itemsText (v :: items) ↔
          ¬ contextClose <:+: v.text ++ Json.itemsText items := by
        rw [Json.itemsText]
        exact (not_infix_cons (by decide) contextClose_ne_nil).trans
          (and_iff_right (by decide))
      have hrest : ¬ contextClose <:+: v.text ++ Json.itemsText items ↔
          ¬ contextClose <:+: v.text ∧ ¬ contextClose <:+: Json.itemsText items := by
        cases items with
        | nil =>
            rw [Json.itemsText]
            exact (not_infix_barrier (by decide) contextClose_ne_nil).trans
              (and_congr_right fun _ => iff_of_true (by decide) (by decide))
        | cons next items =>
            rw [Json.itemsText]
            refine (not_infix_barrier (by decide) contextClose_ne_nil).trans
              (and_congr_right fun _ => ?_)
            exact ((not_infix_cons (by decide) contextClose_ne_nil).trans
              (and_iff_right (by decide))).symm
      rw [hcomma, hrest, ih, List.forall_mem_cons]

theorem closing_serialize (chain : DelegationChain) :
    ¬ contextClose <:+: serializeDelegationChain chain ↔
      ∀ link ∈ chain, ¬ contextClose <:+: link.toJson.text := by
  rw [serializeDelegationChain]
  cases chain with
  | nil => exact iff_of_true (by decide) (by simp)
  | cons link rest =>
      have hitems := closing_items ((link :: rest).map DelegationLink.toJson)
      rw [List.map_cons, Json.itemsText] at hitems
      rw [List.map_cons, Json.text]
      refine Iff.trans ?_ (hitems.trans (by simp))
      exact (not_infix_cons (by decide) contextClose_ne_nil).trans
        (not_infix_cons (by decide) contextClose_ne_nil).symm

end Marker

section Links

variable {hop first : Hop} {rest : List Hop}

theorem build_origin (h : isBlank hop.actor = false) :
    buildDelegationLink hop.actor none {} hop.now = .ok hop.origin :=
  if_neg (of_decide_eq_false h)

/-- A text with a visible head is not blank. -/
theorem trim_ne_empty {s : String} {c : Char} (h : s.toList.head? = some c)
    (hc : isWhiteSpace c = false) : trim s ≠ "" := by
  obtain ⟨cs, hs⟩ := List.head?_eq_some_iff.mp h
  have hdrop : (c :: cs).dropWhile isWhiteSpace = c :: cs := by simp [hc]
  rw [trim, hs, hdrop]
  intro hempty
  have hnil := (List.rdropWhile_eq_nil_iff).mp (String.ofList_eq_empty_iff.mp hempty) c
    List.mem_cons_self
  rw [hc] at hnil
  cases hnil

theorem link_actor_ne_empty (hop : Hop) : hop.link.actor ≠ "" := by
  refine trim_ne_empty (c := 's') ?_ (by decide)
  simp only [String.toList_append]
  rfl

theorem build_link (hop : Hop) :
    buildDelegationLink ("subagent:" ++ hop.dispatcherName ++ ":" ++ hop.tier.name) hop.role
      { capabilityTier := some hop.tier } hop.now = .ok hop.link :=
  if_neg (link_actor_ne_empty hop)

theorem origin_wellFormed (h : sealedHop hop = true) : hop.origin.WellFormed := by
  simp only [sealedHop, Bool.and_eq_true, Bool.not_eq_true'] at h
  exact ⟨trim_trim _, of_decide_eq_false h.1.1.1, h.1.1.2, by rintro ⟨⟩⟩

theorem link_wellFormed (h : sealedHop hop = true) : hop.link.WellFormed := by
  simp only [sealedHop, Bool.and_eq_true, Bool.not_eq_true'] at h
  refine ⟨trim_trim _, link_actor_ne_empty hop, h.1.1.2, fun hrole => ?_⟩
  simpa using (Option.filter_eq_some_iff.mp hrole).2

/-- What begins a chain is not restricted. -/
theorem origin_covers (first : Hop) (link : DelegationLink) : first.origin.Covers link :=
  ⟨le_top, Set.subset_univ _, Set.subset_univ _⟩

theorem link_covers : first.link.Covers hop.link ↔ hop.tier.privilege ≤ first.tier.privilege := by
  refine ⟨fun h => WithTop.coe_le_coe.mp h.1, fun h => ⟨WithTop.coe_le_coe.mpr h, ?_, ?_⟩⟩
  · exact Set.Subset.refl _
  · exact Set.Subset.refl _

theorem recordedChain_append (first : Hop) (rest : List Hop) (hop : Hop) :
    recordedChain (first :: rest ++ [hop]) = recordedChain (first :: rest) ++ [hop.link] := by
  simp [recordedChain]

theorem attenuated_append :
    Attenuated (recordedChain (first :: rest) ++ [hop.link]) ↔
      Attenuated (recordedChain (first :: rest)) ∧
        ∀ earlier ∈ rest, hop.tier.privilege ≤ earlier.tier.privilege := by
  rw [Attenuated, List.pairwise_append]
  simp only [List.pairwise_singleton, List.mem_singleton, forall_eq, true_and]
  refine and_congr_right fun _ => ?_
  simp [recordedChain, origin_covers, link_covers]

end Links

section Extract

variable {readNumber} {context : List Char} {chain : DelegationChain}

theorem infix_of_trimChars (text : List Char) : trimChars text <:+: text :=
  ((List.rdropWhile_prefix _ _).isInfix).trans (List.dropWhile_suffix _).isInfix

theorem extract_of_no_block (h : ¬ contextOpen <:+: context) :
    extractDelegationChainFromContext readNumber context = ⟨none, false, some context⟩ := by
  have hnone : contextBlock context = none := by
    rw [contextBlock, splitFirst_eq_none.mpr h]
    rfl
  rw [extractDelegationChainFromContext, hnone]
  split <;> rfl

/-- A text without a block is left as it is. -/
theorem rest_of_no_chain {contextWithoutChain : Option (List Char)}
    (h : extractDelegationChainFromContext readNumber context =
      ⟨none, false, contextWithoutChain⟩) : contextWithoutChain = some context := by
  unfold extractDelegationChainFromContext at h
  split at h
  · exact (congrArg ExtractedDelegationChainContext.contextWithoutChain h).symm
  · split at h
    · exact (congrArg ExtractedDelegationChainContext.contextWithoutChain h).symm
    · have hchain := congrArg ExtractedDelegationChainContext.chain h
      have hmalformed := congrArg ExtractedDelegationChainContext.malformed h
      dsimp only at hchain hmalformed
      rw [hchain] at hmalformed
      cases hmalformed

/-- What the next hop finds. -/
theorem extract_embed (h : OwnBlock context chain) :
    extractDelegationChainFromContext readNumber (embedDelegationChainInContext context chain) =
      ⟨some chain, false, if trimChars context = [] then none else some (trimChars context)⟩ := by
  have hend := splitFirst_contextClose (splitFirst_eq_none.mpr h.closing) []
  rw [List.append_nil] at hend
  have hblock := contextBlock_own (splitFirst_eq_none.mpr h.opening) chain
  rw [hend] at hblock
  have hparse : parseDelegationChain readNumber (serializeDelegationChain chain) = some chain :=
    (parseDelegationChain_serialize chain).mpr h.links
  rw [extractDelegationChainFromContext, if_neg embed_ne_nil, hblock]
  simp only [Option.map_some, hparse, List.append_nil, Option.isNone_some]

theorem extract_embed_rest (h : OwnBlock context chain) :
    ¬ contextOpen <:+: (extractDelegationChainFromContext readNumber
      (embedDelegationChainInContext context chain)).contextWithoutChain.getD [] := by
  rw [extract_embed h]
  dsimp only
  split
  · rw [Option.getD_none]
    decide
  · exact fun hopen => h.opening (hopen.trans (infix_of_trimChars context))

end Extract

section Propagate

variable {readNumber} {context out : List Char} {chain : DelegationChain} {hop : Hop}
variable {contextWithoutChain : Option (List Char)}

theorem propagate_origin (hactor : isBlank hop.actor = false)
    (h : extractDelegationChainFromContext readNumber context =
      ⟨none, false, contextWithoutChain⟩) :
    propagateDelegationChainThroughContext readNumber context hop =
      .ok (embedDelegationChainInContext context [hop.origin]) := by
  simp only [propagateDelegationChainThroughContext, h, build_origin hactor]
  rfl

theorem propagate_link (h : extractDelegationChainFromContext readNumber context =
      ⟨some chain, false, contextWithoutChain⟩) (hok : Attenuated (chain ++ [hop.link])) :
    propagateDelegationChainThroughContext readNumber context hop =
      .ok (embedDelegationChainInContext (contextWithoutChain.getD []) (chain ++ [hop.link])) := by
  simp only [propagateDelegationChainThroughContext, h, build_link, appendDelegationLink]
  exact if_pos (validateChainAttenuation_eq_nil.mpr hok)

theorem propagate_refused (h : extractDelegationChainFromContext readNumber context =
      ⟨some chain, false, contextWithoutChain⟩) (hok : ¬ Attenuated (chain ++ [hop.link])) :
    propagateDelegationChainThroughContext readNumber context hop =
      .error (attenuationMessage (validateChainAttenuation (chain ++ [hop.link]))) := by
  simp only [propagateDelegationChainThroughContext, h, build_link, appendDelegationLink]
  exact if_neg (mt validateChainAttenuation_eq_nil.mp hok)

end Propagate

section Run

variable {readNumber} {w t : Dispatching} {hop : Hop}

@[simp] theorem passedHops_passed (log : List HopEvent) (hop : Hop) :
    passedHops (log ++ [.passed hop]) = passedHops log ++ [hop] := by
  simp [passedHops, HopEvent.passed?]

@[simp] theorem passedHops_refused (log : List HopEvent) (hop : Hop) :
    passedHops (log ++ [.refused hop]) = passedHops log := by
  simp [passedHops, HopEvent.passed?]

structure HopsInv (readNumber : List Char → Number) (w : Dispatching) : Prop
    extends HopsAttenuate readNumber w where
  wellMarked : (extractDelegationChainFromContext readNumber w.context).malformed = false
  rest : ¬ contextOpen <:+:
    (extractDelegationChainFromContext readNumber w.context).contextWithoutChain.getD []
  links : ∀ link ∈ recordedChain (passedHops w.log),
    link.WellFormed ∧ ¬ contextClose <:+: link.toJson.text

namespace HopsInv

theorem extracted (h : HopsInv readNumber w) : ∃ contextWithoutChain,
    extractDelegationChainFromContext readNumber w.context =
      ⟨if passedHops w.log = [] then none else some (recordedChain (passedHops w.log)), false,
        contextWithoutChain⟩ ∧ ¬ contextOpen <:+: contextWithoutChain.getD [] :=
  ⟨_, by rw [← h.carried, ← h.wellMarked], h.rest⟩

theorem ownBlock (h : HopsInv readNumber w) {context : List Char} {link : DelegationLink}
    (hopening : ¬ contextOpen <:+: context)
    (hlink : link.WellFormed ∧ ¬ contextClose <:+: link.toJson.text) :
    OwnBlock context (recordedChain (passedHops w.log) ++ [link]) := by
  have hall : ∀ l ∈ recordedChain (passedHops w.log) ++ [link],
      l.WellFormed ∧ ¬ contextClose <:+: l.toJson.text := by
    intro l hl
    rcases List.mem_append.mp hl with hl | hl
    · exact h.links l hl
    · rwa [List.mem_singleton.mp hl]
  exact ⟨hopening, (closing_serialize _).mpr fun l hl => (hall l hl).2, fun l hl => (hall l hl).1⟩

/-- A hop that passes. -/
theorem pass (h : HopsInv readNumber w) {context : List Char} (hop : Hop) (link : DelegationLink)
    (hopening : ¬ contextOpen <:+: context)
    (hlink : link.WellFormed ∧ ¬ contextClose <:+: link.toJson.text)
    (hchain : recordedChain (passedHops w.log ++ [hop]) =
      recordedChain (passedHops w.log) ++ [link])
    (hattenuated : Attenuated (recordedChain (passedHops w.log) ++ [link]))
    (hdecided : HopEvent.Decided w.log (.passed hop)) :
    HopsInv readNumber
      { context := embedDelegationChainInContext context (recordedChain (passedHops w.log) ++ [link])
        log := w.log ++ [.passed hop] } := by
  have hown := h.ownBlock hopening hlink
  refine ⟨⟨?_, ?_, h.decided.append_one hdecided⟩, ?_, extract_embed_rest hown, ?_⟩
  · rw [extract_embed hown, passedHops_passed, hchain]
    simp
  · rw [passedHops_passed, hchain]
    exact hattenuated
  · rw [extract_embed hown]
  · intro l hl
    rw [passedHops_passed, hchain] at hl
    rcases List.mem_append.mp hl with hl | hl
    · exact h.links l hl
    · rwa [List.mem_singleton.mp hl]

theorem refuse (h : HopsInv readNumber w) (hdecided : HopEvent.Decided w.log (.refused hop)) :
    HopsInv readNumber { w with log := w.log ++ [.refused hop] } := by
  refine ⟨⟨?_, ?_, h.decided.append_one hdecided⟩, h.wellMarked, h.rest, ?_⟩
  · rw [passedHops_refused]
    exact h.carried
  · rw [passedHops_refused]
    exact h.attenuated
  · rw [passedHops_refused]
    exact h.links

theorem hop_step (h : HopsInv readNumber w) (hsealed : sealedHop hop = true)
    (ht : (hops readNumber).step w (.hop hop) = some t) : HopsInv readNumber t := by
  obtain ⟨contextWithoutChain, hextract, hrest⟩ := h.extracted
  have htexts := hsealed
  simp only [sealedHop, Bool.and_eq_true, Bool.not_eq_true', hasMarker_eq_false] at htexts
  simp only [hops] at ht
  cases hpassed : passedHops w.log with
  | nil =>
      -- the first hop begins the chain
      rw [hpassed, if_pos rfl] at hextract
      have hopening : ¬ contextOpen <:+: w.context := by
        rwa [rest_of_no_chain hextract, Option.getD_some] at hrest
      rw [propagate_origin htexts.1.1.1 hextract] at ht
      obtain rfl := Option.some.inj ht
      have hpass := h.pass hop hop.origin hopening
        ⟨origin_wellFormed hsealed, htexts.1.2⟩ (by rw [hpassed]; rfl)
        (by rw [hpassed]; exact List.pairwise_singleton _ _)
        (by simp [HopEvent.Decided, hpassed])
      rw [hpassed] at hpass
      exact hpass
  | cons first rest =>
      rw [hpassed, if_neg (List.cons_ne_nil _ _)] at hextract
      have hattenuated := h.attenuated
      rw [hpassed] at hattenuated
      by_cases hok : ∀ earlier ∈ rest, hop.tier.privilege ≤ earlier.tier.privilege
      · have hgrown := attenuated_append.mpr ⟨hattenuated, hok⟩
        rw [propagate_link hextract hgrown] at ht
        obtain rfl := Option.some.inj ht
        have hpass := h.pass hop hop.link hrest
          ⟨link_wellFormed hsealed, htexts.2⟩ (by rw [hpassed, recordedChain_append])
          (by rwa [hpassed]) (by simpa [HopEvent.Decided, hpassed] using hok)
        rw [hpassed] at hpass
        exact hpass
      · rw [propagate_refused hextract fun hgrown => hok (attenuated_append.mp hgrown).2] at ht
        obtain rfl := Option.some.inj ht
        refine h.refuse ?_
        obtain ⟨earlier, hearlier, hlt⟩ : ∃ earlier ∈ rest,
            earlier.tier.privilege < hop.tier.privilege := by
          simpa only [not_forall, Nat.not_le, exists_prop] using hok
        exact ⟨earlier, by rwa [hpassed], hlt⟩

theorem rewrite_step (h : HopsInv readNumber w) {context : List Char}
    (hok : passesOn readNumber w (.rewrite context) = true) :
    HopsInv readNumber { w with context } := by
  simp only [passesOn, Bool.and_eq_true, Bool.not_eq_true', decide_eq_true_eq,
    hasMarker_eq_false] at hok
  exact ⟨⟨hok.1.2.trans h.carried, h.attenuated, h.decided⟩, hok.1.1, hok.2, h.links⟩

theorem step {a : HopAction} (h : HopsInv readNumber w) (hok : passesOn readNumber w a = true)
    (ht : (hops readNumber).step w a = some t) : HopsInv readNumber t := by
  cases a with
  | hop hop => exact h.hop_step hok ht
  | rewrite context =>
      obtain rfl := Option.some.inj ht
      exact h.rewrite_step hok

theorem initial (hlog : w.log = []) (hopening : ¬ contextOpen <:+: w.context) :
    HopsInv readNumber w := by
  refine ⟨⟨?_, ?_, ?_⟩, ?_, ?_, ?_⟩
  · rw [extract_of_no_block hopening, hlog]
    rfl
  · rw [hlog]
    exact List.Pairwise.nil
  · rw [hlog]
    exact EachAfter.nil
  · rw [extract_of_no_block hopening]
  · rw [extract_of_no_block hopening]
    exact hopening
  · rw [hlog]
    simp [passedHops, recordedChain]

end HopsInv

end Run

section Example

def exampleHop (tier : DelegationCapabilityTier) : Hop :=
  { dispatcherName := "cli", tier, actor := "ann", now := "5" }

/-- The second hop explores; a third one that wants to implement is refused. -/
def exampleHops : List HopAction :=
  [.hop (exampleHop .implementer), .hop (exampleHop .explorer), .hop (exampleHop .implementer)]

end Example

end Kyberion.Delegation
