import Kyberion.Js.RegExp

/-!
`encodeURIComponent` and the bytes of a text. A text of code units is read as code points; one with
a surrogate that stands alone is refused by `encodeURIComponent`, and no two of the others have
the same encoding.
-/

namespace Kyberion.Js

section CodePoints

def isHighSurrogate (c : UInt16) : Bool := 0xD800 ≤ c && c ≤ 0xDBFF

def isLowSurrogate (c : UInt16) : Bool := 0xDC00 ≤ c && c ≤ 0xDFFF

/-- The code point of a surrogate pair. -/
def joinSurrogates (high low : UInt16) : Char :=
  Char.ofNat (0x10000 + (high.toNat - 0xD800) * 0x400 + (low.toNat - 0xDC00))

/-- The code point of a code unit that has no partner. -/
def single (c : UInt16) : Option Char :=
  if isHighSurrogate c || isLowSurrogate c then none else some (Char.ofNat c.toNat)

def codePoints : Units → List (Option Char)
  | [] => []
  | [c] => [single c]
  | c :: d :: rest =>
      if isHighSurrogate c && isLowSurrogate d then some (joinSurrogates c d) :: codePoints rest
      else single c :: codePoints (d :: rest)

def isWellFormed (s : Units) : Bool :=
  (codePoints s).all Option.isSome

/-- The bytes of a text; a surrogate that stands alone is replaced. -/
def toUtf8 (s : Units) : List UInt8 :=
  (codePoints s).flatMap fun point => String.utf8EncodeChar (point.getD '\uFFFD')

/-- The code units of a code point. -/
def unitsOf (c : Char) : Units :=
  if c.toNat < 0x10000 then [UInt16.ofNat c.toNat]
  else [UInt16.ofNat (0xD800 + (c.toNat - 0x10000) / 0x400),
    UInt16.ofNat (0xDC00 + (c.toNat - 0x10000) % 0x400)]

theorem toNat_ofNat_valid {n : ℕ} (h : n.isValidChar) : (Char.ofNat n).toNat = n := by
  rw [Char.ofNat, dif_pos h]
  rfl

theorem isHighSurrogate_iff {c : UInt16} :
    isHighSurrogate c = true ↔ 0xD800 ≤ c.toNat ∧ c.toNat ≤ 0xDBFF := by
  rw [isHighSurrogate, Bool.and_eq_true, decide_eq_true_eq, decide_eq_true_eq,
    UInt16.le_iff_toNat_le, UInt16.le_iff_toNat_le]
  rfl

theorem isLowSurrogate_iff {c : UInt16} :
    isLowSurrogate c = true ↔ 0xDC00 ≤ c.toNat ∧ c.toNat ≤ 0xDFFF := by
  rw [isLowSurrogate, Bool.and_eq_true, decide_eq_true_eq, decide_eq_true_eq,
    UInt16.le_iff_toNat_le, UInt16.le_iff_toNat_le]
  rfl

theorem ofNat_of_toNat {c : UInt16} {n : ℕ} (h : n = c.toNat) : UInt16.ofNat n = c := by
  rw [h, UInt16.ofNat_toNat]

theorem unitsOf_single {c : UInt16} {point : Char} (h : single c = some point) :
    unitsOf point = [c] := by
  unfold single at h
  split at h
  · cases h
  · rename_i hplain
    obtain rfl := Option.some.inj h
    rw [Bool.or_eq_true, isHighSurrogate_iff, isLowSurrogate_iff] at hplain
    have hlt : c.toNat < 0x10000 := c.toNat_lt
    have hvalid : c.toNat.isValidChar := by
      rw [Nat.isValidChar]
      omega
    rw [unitsOf, toNat_ofNat_valid hvalid, if_pos hlt, ofNat_of_toNat rfl]

theorem unitsOf_joinSurrogates {c d : UInt16} (hc : isHighSurrogate c = true)
    (hd : isLowSurrogate d = true) : unitsOf (joinSurrogates c d) = [c, d] := by
  rw [isHighSurrogate_iff] at hc
  rw [isLowSurrogate_iff] at hd
  have hvalid : (0x10000 + (c.toNat - 0xD800) * 0x400 + (d.toNat - 0xDC00)).isValidChar := by
    rw [Nat.isValidChar]
    omega
  rw [unitsOf, joinSurrogates, toNat_ofNat_valid hvalid, if_neg (by omega),
    ofNat_of_toNat (c := c) (by omega), ofNat_of_toNat (c := d) (by omega)]

/-- A well-formed text is told by its code points. -/
theorem units_codePoints {s : Units} (h : isWellFormed s = true) :
    (codePoints s).flatMap (fun point => (point.map unitsOf).getD []) = s := by
  rw [isWellFormed, List.all_eq_true] at h
  have hsingle (c : UInt16) (hc : (single c).isSome = true) :
      ((single c).map unitsOf).getD [] = [c] := by
    obtain ⟨point, hpoint⟩ := Option.isSome_iff_exists.mp hc
    rw [hpoint, Option.map_some, Option.getD_some, unitsOf_single hpoint]
  fun_induction codePoints s with
  | case1 => rfl
  | case2 c =>
      rw [List.flatMap_singleton]
      exact hsingle c (h _ List.mem_cons_self)
  | case3 c d rest hpair ih =>
      rw [Bool.and_eq_true] at hpair
      rw [List.flatMap_cons, ih fun point hpoint => h point (List.mem_cons_of_mem _ hpoint),
        Option.map_some, Option.getD_some, unitsOf_joinSurrogates hpair.1 hpair.2]
      rfl
  | case4 c d rest hpair ih =>
      rw [List.flatMap_cons, ih fun point hpoint => h point (List.mem_cons_of_mem _ hpoint),
        hsingle c (h _ List.mem_cons_self)]
      rfl

def IsAscii (s : Units) : Prop :=
  ∀ c ∈ s, c.toNat < 0x80

theorem IsAscii.of_all {s : Units} (h : (s.all fun c => c.toNat < 0x80) = true) : IsAscii s :=
  fun c hc => of_decide_eq_true (List.all_eq_true.mp h c hc)

theorem IsAscii.append {s t : Units} (hs : IsAscii s) (ht : IsAscii t) : IsAscii (s ++ t) := by
  intro c hc
  rcases List.mem_append.mp hc with hc | hc
  · exact hs c hc
  · exact ht c hc

theorem IsAscii.isWellFormed {s : Units} (h : IsAscii s) : isWellFormed s = true := by
  have hsingle (c : UInt16) (hc : c.toNat < 0x80) : (single c).isSome = true := by
    have hhigh : isHighSurrogate c = false := by
      rw [← Bool.not_eq_true, isHighSurrogate_iff]
      omega
    have hlow : isLowSurrogate c = false := by
      rw [← Bool.not_eq_true, isLowSurrogate_iff]
      omega
    rw [single, hhigh, hlow]
    rfl
  rw [Js.isWellFormed, List.all_eq_true]
  fun_induction codePoints s with
  | case1 => exact List.forall_mem_nil _
  | case2 c => exact List.forall_mem_singleton.mpr (hsingle c (h c List.mem_cons_self))
  | case3 c d rest hpair ih =>
      refine List.forall_mem_cons.mpr ⟨rfl, ih fun e he => h e ?_⟩
      exact List.mem_cons_of_mem c (List.mem_cons_of_mem d he)
  | case4 c d rest hpair ih =>
      exact List.forall_mem_cons.mpr ⟨hsingle c (h c List.mem_cons_self),
        ih fun e he => h e (List.mem_cons_of_mem c he)⟩

/-- No two sequences of code points have the same bytes. -/
theorem flatMap_utf8EncodeChar_injective {l l' : List Char}
    (h : l.flatMap String.utf8EncodeChar = l'.flatMap String.utf8EncodeChar) : l = l' := by
  have hbytes : (String.ofList l).toByteArray = (String.ofList l').toByteArray := by
    rw [String.toByteArray_ofList, String.toByteArray_ofList, List.utf8Encode, List.utf8Encode, h]
  have htexts := congrArg String.toList (String.toByteArray_inj.mp hbytes)
  rwa [String.toList_ofList, String.toList_ofList] at htexts

theorem toUtf8_injective {s t : Units} (hs : isWellFormed s = true) (ht : isWellFormed t = true)
    (h : toUtf8 s = toUtf8 t) : s = t := by
  have hpoints (u : Units) (hu : isWellFormed u = true) :
      codePoints u = ((codePoints u).map fun point => point.getD '\uFFFD').map some := by
    rw [isWellFormed, List.all_eq_true] at hu
    rw [List.map_map]
    refine ((List.map_congr_left fun point hpoint => ?_).trans (List.map_id _)).symm
    obtain ⟨c, rfl⟩ := Option.isSome_iff_exists.mp (hu point hpoint)
    rfl
  have hsame : (codePoints s).map (fun point => point.getD '\uFFFD') =
      (codePoints t).map fun point => point.getD '\uFFFD' := by
    refine flatMap_utf8EncodeChar_injective ?_
    rw [List.flatMap_map, List.flatMap_map]
    exact h
  rw [← units_codePoints hs, ← units_codePoints ht, hpoints s hs, hpoints t ht, hsame]

end CodePoints

section Encode

def hexUpper (n : ℕ) : UInt16 :=
  UInt16.ofNat (if n < 10 then 0x30 + n else 0x41 + (n - 10))

/-- A percent sign and the two digits of a byte. -/
def percent (b : UInt8) : Units :=
  [0x25, hexUpper (b.toNat / 16), hexUpper (b.toNat % 16)]

/-- Letters, digits and `-_.!~*'()`. -/
def isUnreserved (b : UInt8) : Bool :=
  (0x30 ≤ b && b ≤ 0x39) || (0x41 ≤ b && b ≤ 0x5A) || (0x61 ≤ b && b ≤ 0x7A) ||
    [0x2D, 0x5F, 0x2E, 0x21, 0x7E, 0x2A, 0x27, 0x28, 0x29].contains b

def encodeByte (b : UInt8) : Units :=
  if isUnreserved b then [b.toUInt16] else percent b

/-- `encodeURIComponent`, which throws at a surrogate that stands alone. -/
def encodeURIComponent (s : Units) : Option Units :=
  if isWellFormed s then some ((toUtf8 s).flatMap encodeByte) else none

theorem percent_inj {b b' : UInt8} {rest rest' : Units}
    (h : percent b ++ rest = percent b' ++ rest') : b = b' ∧ rest = rest' := by
  have hdigit : ∀ m < 16, ∀ n < 16, hexUpper m = hexUpper n → m = n := by decide
  simp only [percent, List.cons_append, List.nil_append, List.cons.injEq, true_and] at h
  have hb : b.toNat < 256 := b.toNat_lt
  have hb' : b'.toNat < 256 := b'.toNat_lt
  have hhigh := hdigit _ (by omega) _ (by omega) h.1
  have hlow := hdigit _ (by omega) _ (by omega) h.2.1
  refine ⟨UInt8.toNat_inj.mp ?_, h.2.2⟩
  omega

theorem encodeByte_inj {b b' : UInt8} {rest rest' : Units}
    (h : encodeByte b ++ rest = encodeByte b' ++ rest') : b = b' ∧ rest = rest' := by
  have hsign (a : UInt8) (ha : isUnreserved a = true) : a.toUInt16 ≠ 0x25 := by
    intro hpercent
    have hbyte : a = 0x25 := by
      have hnat := congrArg UInt16.toNat hpercent
      rw [UInt8.toNat_toUInt16] at hnat
      exact UInt8.toNat_inj.mp hnat
    rw [hbyte] at ha
    cases ha
  unfold encodeByte at h
  split at h <;> split at h
  · rw [List.singleton_append, List.singleton_append, List.cons.injEq] at h
    refine ⟨UInt8.toNat_inj.mp ?_, h.2⟩
    rw [← UInt8.toNat_toUInt16, h.1, UInt8.toNat_toUInt16]
  · exact absurd (List.cons.inj h).1 (hsign b ‹_›)
  · exact absurd (List.cons.inj h).1.symm (hsign b' ‹_›)
  · exact percent_inj h

theorem encodeByte_ne_nil (b : UInt8) (bytes : List UInt8) :
    (b :: bytes).flatMap encodeByte ≠ [] := by
  rw [List.flatMap_cons, encodeByte]
  split <;> exact List.cons_ne_nil _ _

theorem flatMap_encodeByte_injective {bytes bytes' : List UInt8}
    (h : bytes.flatMap encodeByte = bytes'.flatMap encodeByte) : bytes = bytes' := by
  induction bytes generalizing bytes' with
  | nil =>
      cases bytes' with
      | nil => rfl
      | cons b' bytes' => exact absurd h.symm (encodeByte_ne_nil b' _)
  | cons b bytes ih =>
      cases bytes' with
      | nil => exact absurd h (encodeByte_ne_nil b _)
      | cons b' bytes' =>
          rw [List.flatMap_cons, List.flatMap_cons] at h
          obtain ⟨rfl, hrest⟩ := encodeByte_inj h
          rw [ih hrest]

theorem encodeURIComponent_injective {s t encoded : Units}
    (hs : encodeURIComponent s = some encoded) (ht : encodeURIComponent t = some encoded) :
    s = t := by
  unfold encodeURIComponent at hs ht
  split at hs
  · rename_i hwell
    split at ht
    · rename_i hwell'
      refine toUtf8_injective hwell hwell' (flatMap_encodeByte_injective ?_)
      exact (Option.some.inj hs).trans (Option.some.inj ht).symm
    · cases ht
  · cases hs

theorem percent_ascii (b : UInt8) : IsAscii (percent b) := by
  have hdigit : ∀ n < 16, (hexUpper n).toNat < 0x80 := by decide
  have hb : b.toNat < 256 := b.toNat_lt
  intro c hc
  rcases List.mem_cons.mp hc with rfl | hc
  · decide
  · rcases List.mem_cons.mp hc with rfl | hc
    · exact hdigit _ (by omega)
    · rw [List.mem_singleton.mp hc]
      exact hdigit _ (by omega)

theorem isUnreserved_ascii {b : UInt8} (h : isUnreserved b = true) : b.toNat < 0x80 := by
  have hall : ∀ n < 256, isUnreserved (UInt8.ofNat n) = true → n < 0x80 := by decide +kernel
  refine hall b.toNat b.toNat_lt ?_
  rwa [UInt8.ofNat_toNat]

theorem encodeURIComponent_ascii {s encoded : Units} (h : encodeURIComponent s = some encoded) :
    IsAscii encoded := by
  unfold encodeURIComponent at h
  split at h
  · obtain rfl := Option.some.inj h
    intro c hc
    obtain ⟨b, -, hb⟩ := List.mem_flatMap.mp hc
    rw [encodeByte] at hb
    split at hb
    · rw [List.mem_singleton.mp hb, UInt8.toNat_toUInt16]
      exact isUnreserved_ascii ‹_›
    · exact percent_ascii b c hb
  · cases h

end Encode

end Kyberion.Js
