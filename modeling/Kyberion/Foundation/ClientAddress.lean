import Kyberion.FirstMatch
import Kyberion.Js.Text

/-!
The address that per-client limits are keyed on. Behind a declared proxy the forwarded chain is walked
from the right, and what lies left of the first hop outside the declared set is never read.
-/

namespace Kyberion.Foundation

open Js (isWhiteSpace utf16Length)

abbrev Text := List Char

inductive IpFamily
  | v4
  | v6
  deriving DecidableEq

/-- `isIP` and the case mapping of the runtime. -/
structure Net where
  isIP : Text → Option IpFamily
  toLowerCase : Text → Text

def trimText (text : Text) : Text :=
  (text.dropWhile isWhiteSpace).rdropWhile isWhiteSpace

section Literals

/-- Between one and `most` decimal digits. -/
def digits (most : ℕ) (text : Text) : Bool :=
  text ≠ [] && text.length ≤ most && text.all isDigit

/-- `/^\d{1,3}(?:\.\d{1,3}){3}:\d{1,5}$/u` -/
def ipv4WithPort (text : Text) : Bool :=
  match text.splitOn ':' with
  | [address, port] =>
      (address.splitOn '.').length = 4 && (address.splitOn '.').all (digits 3) && digits 5 port
  | _ => false

def decimal (text : Text) : ℕ :=
  text.foldl (fun n c => 10 * n + (c.toNat - '0'.toNat)) 0

def hexDigit (c : Char) : Option ℕ :=
  if '0' ≤ c ∧ c ≤ '9' then some (c.toNat - '0'.toNat)
  else if 'a' ≤ c ∧ c ≤ 'f' then some (c.toNat - 'a'.toNat + 10)
  else if 'A' ≤ c ∧ c ≤ 'F' then some (c.toNat - 'A'.toNat + 10)
  else none

/-- `Number.parseInt(text, 16)`; `none` is `NaN`. -/
def parseHex (text : Text) : Option ℕ :=
  match (text.takeWhile fun c => (hexDigit c).isSome).filterMap hexDigit with
  | [] => none
  | digits => some (digits.foldl (fun n d => 16 * n + d) 0)

def parseGroups (part : Text) : List (Option ℕ) :=
  if part = [] then [] else (part.splitOn ':').map parseHex

/-- The text after the last colon, and the text up to it. -/
def afterLastColon (value : Text) : Text × Text :=
  (value.rtakeWhile (· ≠ ':'), value.rdropWhile (· ≠ ':'))

/-- The eight groups of a valid IPv6 literal, whose tail may be written as an IPv4 address. -/
def ipv6Groups (net : Net) (value : Text) : List (Option ℕ) :=
  let (last, front) := afterLastColon value
  let (text, tail) :=
    if net.isIP last = some .v4 then
      match (last.splitOn '.').map decimal with
      | [a, b, c, d] => (front ++ "0:0".toList, [some (256 * a + b), some (256 * c + d)])
      | _ => (front ++ "0:0".toList, [some 0, some 0])
    else (value, [])
  let groups := match FirstMatch.splitFirst [':', ':'] text with
    | none => parseGroups text
    | some (head, rest) =>
        let left := parseGroups head
        let right := parseGroups rest
        left ++ List.replicate (8 - left.length - right.length) (some 0) ++ right
  if tail.length = 2 then groups.take 6 ++ tail ++ groups.drop 8 else groups

/-- The IPv4 address that an IPv4-mapped IPv6 literal carries. -/
def unwrapIpv4Mapped (net : Net) (value : Text) : Option Text :=
  let groups := ipv6Groups net value
  if groups.length ≠ 8 ∨ (groups.take 5).any (· ≠ some 0) ∨ groups[5]? ≠ some (some 0xffff) then none
  else
    let hi := ((groups[6]?).getD none).getD 0
    let lo := ((groups[7]?).getD none).getD 0
    some (['.'].intercalate
      ([hi / 256, hi % 256, lo / 256, lo % 256].map fun n => (toString n).toList))

/-- The literal of `[v6]` or `[v6]:port`. -/
def bracketed (net : Net) (value : Text) : Option Text :=
  let inner := (value.drop 1).takeWhile (· ≠ ']')
  let rest := (value.drop 1).dropWhile (· ≠ ']')
  match rest with
  | [] => none
  | _ :: port =>
      if port ≠ [] ∧ ¬ (port.head? = some ':' ∧ digits 5 (port.drop 1)) then none
      else if net.isIP (inner.takeWhile (· ≠ '%')) ≠ some .v6 then none
      else some inner

/-- An IP literal in the forms that proxies write. -/
def normalizeIpAddress (net : Net) (raw : Option Text) : Option Text :=
  let value := trimText (raw.getD [])
  if value = [] ∨ 64 < utf16Length (String.ofList value) then none
  else
    let literal :=
      if value.head? = some '[' then bracketed net value
      else if ipv4WithPort value then some (value.takeWhile (· ≠ ':'))
      else some value
    literal.bind fun literal =>
      let address := literal.takeWhile (· ≠ '%')
      match net.isIP address with
      | some .v4 => some address
      | some .v6 => some ((unwrapIpv4Mapped net address).getD (net.toLowerCase address))
      | none => none

end Literals

/-- The declared proxies: `size` entries, and which addresses belong to them. -/
structure TrustedProxies where
  has : Text → Bool
  size : ℕ

inductive HeaderValue
  | absent
  | one (text : Text)
  | many (texts : List Text)

def HeaderValue.text : HeaderValue → Text
  | .absent => []
  | .one text => text
  | .many texts => [','].intercalate texts

def maxForwardedHops : ℕ := 32

section Resolve

variable (net : Net) (proxies : TrustedProxies)

def peerAddress (peer : Option Text) : Text :=
  (normalizeIpAddress net peer).getD <|
    if trimText (peer.getD []) = [] then "unknown".toList else trimText (peer.getD [])

def forwardedHops (header : Text) : List Text :=
  ((header.splitOn ',').map trimText).filter (· ≠ [])

/-- The walk over the hops from the right, after `read` of them. -/
def walkHops (read : ℕ) (client : Text) : List Text → Text
  | [] => client
  | hop :: rest =>
      if maxForwardedHops < read + 1 then client
      else match normalizeIpAddress net (some hop) with
        | none => client
        | some address => if proxies.has address then walkHops (read + 1) address rest else address

def trustedPeer (peer : Option Text) : Bool :=
  proxies.size ≠ 0 && proxies.has (peerAddress net peer)

def resolveClientAddress (peer : Option Text) (forwardedFor : HeaderValue) : Text :=
  if trustedPeer net proxies peer then
    walkHops net proxies 0 (peerAddress net peer) (forwardedHops forwardedFor.text).reverse
  else peerAddress net peer

end Resolve

section Spoofing

variable {net : Net} {proxies : TrustedProxies} {peer : Option Text} {hop address : Text}

theorem trimText_trimText (text : Text) : trimText (trimText text) = trimText text := by
  have h := congrArg String.toList (Js.trim_trim (String.ofList text))
  simpa [Js.trim, trimText] using h

/-- A hop is read in its trimmed form. -/
theorem normalizeIpAddress_trimText (text : Text) :
    normalizeIpAddress net (some (trimText text)) = normalizeIpAddress net (some text) := by
  simp only [normalizeIpAddress, Option.getD_some, trimText_trimText]

theorem trimText_ne_nil (h : normalizeIpAddress net (some hop) = some address) :
    trimText hop ≠ [] := by
  intro hempty
  simp [normalizeIpAddress, hempty] at h

theorem forwardedHops_append (front rest : Text) :
    forwardedHops (front ++ ',' :: rest) = forwardedHops front ++ forwardedHops rest := by
  simp [forwardedHops, List.splitOn_append_cons_self]

theorem forwardedHops_intercalate {hops : List Text} (hcomma : ∀ hop ∈ hops, ',' ∉ hop)
    (hvalid : ∀ hop ∈ hops, trimText hop ≠ []) (hne : hops ≠ []) :
    forwardedHops ([','].intercalate hops) = hops.map trimText := by
  rw [forwardedHops, List.splitOn_intercalate ',' hcomma hne, List.filter_eq_self]
  intro hop hmem
  obtain ⟨hop', hmem', rfl⟩ := List.mem_map.mp hmem
  simpa using hvalid hop' hmem'

/-- The walk passes the hops inside the set and stops at the first one outside, within the bound. -/
theorem walkHops_client {rest inside : List Text} {read : ℕ} {client outside : Text}
    (hbound : read + inside.length < maxForwardedHops)
    (hinside : ∀ hop ∈ inside, ∃ a, normalizeIpAddress net (some hop) = some a ∧
      proxies.has a = true)
    (hclient : normalizeIpAddress net (some outside) = some address)
    (houtside : proxies.has address = false) :
    walkHops net proxies read client (inside ++ outside :: rest) = address := by
  induction inside generalizing read client with
  | nil =>
      rw [List.length_nil] at hbound
      rw [List.nil_append, walkHops, if_neg (by omega), hclient]
      simp [houtside]
  | cons hop inside ih =>
      obtain ⟨a, ha, htrusted⟩ := hinside hop List.mem_cons_self
      rw [List.length_cons] at hbound
      rw [List.cons_append, walkHops, if_neg (by omega), ha]
      simp only [htrusted, if_true]
      exact ih (by omega) fun hop' hmem => hinside hop' (List.mem_cons_of_mem hop hmem)

/-- Behind a declared proxy the client is the first hop outside the declared set, whatever stands in
front of it; from any other peer the header is not read. -/
theorem resolveClientAddress_spoofless (net : Net) (proxies : TrustedProxies) (peer : Option Text) :
    (trustedPeer net proxies peer = true → ∀ (forwardedFor : HeaderValue) (front client : Text)
        (inside : List Text) (address : Text),
      (forwardedFor.text = [','].intercalate (client :: inside) ∨
        forwardedFor.text = front ++ ',' :: [','].intercalate (client :: inside)) →
      (∀ hop ∈ client :: inside, ',' ∉ hop) →
      (client :: inside).length ≤ maxForwardedHops →
      normalizeIpAddress net (some client) = some address →
      proxies.has address = false →
      (∀ hop ∈ inside, ∃ a, normalizeIpAddress net (some hop) = some a ∧ proxies.has a = true) →
      resolveClientAddress net proxies peer forwardedFor = address) ∧
    (trustedPeer net proxies peer = false → ∀ header header' : HeaderValue,
      resolveClientAddress net proxies peer header =
        resolveClientAddress net proxies peer header') := by
  refine ⟨fun htrusted forwardedFor front client inside address hheader hcomma hlength hclient
    houtside hinside => ?_, fun huntrusted header header' => ?_⟩
  · have hvalid : ∀ hop ∈ client :: inside, trimText hop ≠ [] := by
      intro hop hmem
      rcases List.mem_cons.mp hmem with rfl | hmem
      · exact trimText_ne_nil hclient
      · obtain ⟨a, ha, -⟩ := hinside hop hmem
        exact trimText_ne_nil ha
    have hsuffix := forwardedHops_intercalate hcomma hvalid (List.cons_ne_nil client inside)
    have hhops : ∃ before, forwardedHops forwardedFor.text =
        before ++ trimText client :: inside.map trimText := by
      rcases hheader with hheader | hheader
      · exact ⟨[], by rw [hheader]; exact hsuffix⟩
      · exact ⟨forwardedHops front, by rw [hheader, forwardedHops_append, hsuffix]; rfl⟩
    obtain ⟨before, hhops⟩ := hhops
    rw [resolveClientAddress, if_pos htrusted, hhops, List.reverse_append, List.reverse_cons,
      List.append_assoc, List.singleton_append]
    refine walkHops_client ?_ ?_ ((normalizeIpAddress_trimText client).trans hclient) houtside
    · rw [List.length_cons] at hlength
      rw [Nat.zero_add, List.length_reverse, List.length_map]
      omega
    · intro hop hmem
      obtain ⟨hop', hmem', rfl⟩ := List.mem_map.mp (List.mem_reverse.mp hmem)
      rw [normalizeIpAddress_trimText]
      exact hinside hop' hmem'
  · rw [resolveClientAddress, resolveClientAddress, if_neg (by simp [huntrusted]),
      if_neg (by simp [huntrusted])]

def sampleNet : Net where
  isIP text :=
    if text = "203.0.113.7".toList ∨ text = "10.0.0.1".toList ∨ text = "10.0.0.2".toList then some .v4
    else none
  toLowerCase := id

def sampleProxies : TrustedProxies where
  has address := address = "10.0.0.1".toList ∨ address = "10.0.0.2".toList
  size := 2

theorem resolveClientAddress_forged :
    resolveClientAddress sampleNet sampleProxies (some "10.0.0.1".toList)
      (.many ["198.51.100.9, evil".toList, " 203.0.113.7, 10.0.0.2".toList]) =
        "203.0.113.7".toList :=
  (resolveClientAddress_spoofless sampleNet sampleProxies (some "10.0.0.1".toList)).1 (by decide)
    _ "198.51.100.9, evil".toList " 203.0.113.7".toList [" 10.0.0.2".toList] _
    (.inr (by decide)) (by decide) (by decide) (by decide) (by decide)
    (by
      intro hop hmem
      rw [List.mem_singleton.mp hmem]
      exact ⟨"10.0.0.2".toList, by decide, by decide⟩)

end Spoofing

end Kyberion.Foundation
