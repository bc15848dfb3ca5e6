import Kyberion.Js.Uri
import Kyberion.Lock.Reclaim
import Mathlib.Algebra.Order.Field.Rat

/-!
The names of lock files. A resource id is no path: it is encoded into one name, and a name that
would be too long is a digest. The sweep of litter goes by the names it finds in the directory.
-/

namespace Kyberion.Lock

open Js

section Model

/-- A path as its directory and its last component. -/
structure LockFile where
  dir : Units
  name : Units
  deriving DecidableEq

def ascii (s : String) : Units :=
  s.toList.map fun c => UInt16.ofNat c.toNat

/-- The names that Windows reserves, with any extension. -/
def DEVICE_NAMES : List Units :=
  ["con", "prn", "aux", "nul", "com1", "com2", "com3", "com4", "com5", "com6", "com7", "com8",
    "com9", "lpt1", "lpt2", "lpt3", "lpt4", "lpt5", "lpt6", "lpt7", "lpt8", "lpt9"].map ascii

def lowerUnit (c : UInt16) : UInt16 :=
  if 0x41 ≤ c && c ≤ 0x5A then c + 0x20 else c

/-- One of the reserved names stands in front of the first dot or of the end. -/
def isDeviceName (filename : Units) : Bool :=
  DEVICE_NAMES.contains ((filename.takeWhile (· != 0x2E)).map lowerUnit)

/-- `toString(16).toUpperCase()` -/
def hexText (c : UInt16) : Units :=
  (Nat.toDigits 16 c.toNat).map fun digit => UInt16.ofNat digit.toUpper.toNat

def escapeFirst : Units → Units
  | [] => []
  | c :: rest => 0x25 :: (hexText c ++ rest)

def hexLower (n : ℕ) : UInt16 :=
  UInt16.ofNat (if n < 10 then 0x30 + n else 0x61 + (n - 10))

variable (sha256 : List UInt8 → List UInt8)

/-- `createHash('sha256').update(text).digest('hex')` -/
def sha256Hex (text : Units) : Units :=
  (sha256 (toUtf8 text)).flatMap fun b => [hexLower (b.toNat / 16), hexLower (b.toNat % 16)]

/-- The name of a lock without its suffix; `encodeURIComponent` may throw. -/
def lockStem (resourceId : Units) : Option Units :=
  (encodeURIComponent resourceId).map fun encoded =>
    let filename := if isDeviceName encoded then escapeFirst encoded else encoded
    if 255 < filename.length + (ascii ".lock").length then
      ascii "@sha256-" ++ sha256Hex sha256 resourceId
    else filename

def lockPath (LOCK_ROOT resourceId : Units) : Option LockFile :=
  (lockStem sha256 resourceId).map fun filename => ⟨LOCK_ROOT, filename ++ ascii ".lock"⟩

inductive AuxiliaryPurpose
  | reclaim | tomb

def AuxiliaryPurpose.text : AuxiliaryPurpose → Units
  | .reclaim => ascii "reclaim"
  | .tomb => ascii "tomb"

def hashedAuxiliaryStem (file : LockFile) (purpose : AuxiliaryPurpose) : Units :=
  ascii "@" ++ (purpose.text ++ (ascii "-" ++ sha256Hex sha256 file.name))

def cleanupGuardPath (file : LockFile) : LockFile :=
  let legacy := file.name ++ ascii ".reclaim"
  if (toUtf8 legacy).length ≤ 255 then ⟨file.dir, legacy⟩
  else ⟨file.dir, hashedAuxiliaryStem sha256 file .reclaim ++ ascii ".lock.reclaim"⟩

section Sweep

def isDigitUnit (c : UInt16) : Bool := 0x30 ≤ c && c ≤ 0x39

/-- `[0-9a-f]` -/
def isHexUnit (c : UInt16) : Bool := isDigitUnit c || (0x61 ≤ c && c ≤ 0x66)

/-- One digit or more, and what follows them. -/
def digits (r : RegExp) : RegExp :=
  .seq (.seq (.set isDigitUnit) (.many isDigitUnit)) r

def capturedDigits (r : RegExp) : RegExp :=
  .seq (.capture (.seq (.set isDigitUnit) (.many isDigitUnit))) r

/-- `\.stale-(\d+)-(\d+)-\d+$` -/
def TOMB_PATTERN : RegExp :=
  .word (ascii ".stale-") (capturedDigits (.word (ascii "-") (capturedDigits
    (.word (ascii "-") (digits .atEnd)))))

/-- `\.\d+\.[0-9a-f]{12}\.tmp$` -/
def tempSuffix : RegExp :=
  .word (ascii ".") (digits (.word (ascii ".") (.times 12 isHexUnit
    (.word (ascii ".tmp") .atEnd))))

/-- `PUBLISH_TEMP_PATTERN.test(name)`: `.lock` or `.lock.reclaim` anywhere, or the whole name from
`@publish-` on, and the suffix. -/
def matchesPublishTemp (name : Units) : Bool :=
  ((RegExp.word (ascii ".lock") tempSuffix).exec name).isSome ||
    ((RegExp.word (ascii ".lock.reclaim") tempSuffix).exec name).isSome ||
    ((RegExp.word (ascii "@publish-") (.times 64 isHexUnit tempSuffix)).matchAt name).isSome

def LOCK_RECOVERY_AGE_MS : ℚ := 30000

/-- What the sweep asks of its host. -/
structure SweepHost where
  /-- The instant that these digits name lies `LOCK_RECOVERY_AGE_MS` back. -/
  tombAged : Units → Bool
  pidAlive : Units → Bool
  /-- Not there where the age cannot be read. -/
  ageMs : LockFile → Option ℚ

def isLitter (host : SweepHost) (dir name : Units) : Bool :=
  match TOMB_PATTERN.exec name with
  | some captures => host.tombAged (captures.getD 1 []) && !host.pidAlive (captures.getD 0 [])
  | none => matchesPublishTemp name &&
      (host.ageMs ⟨dir, name⟩).any fun age => LOCK_RECOVERY_AGE_MS ≤ age

/-- The files that are unlinked from a listing, with so many removals left. -/
def sweepNames (host : SweepHost) (dir : Units) : ℕ → List Units → List LockFile
  | 0, _ => []
  | _, [] => []
  | left + 1, name :: names =>
      if isLitter host dir name then ⟨dir, name⟩ :: sweepNames host dir left names
      else sweepNames host dir (left + 1) names

/-- The files that the sweep unlinks; a directory may be unreadable. -/
def sweepLockLitter (host : SweepHost) (dir : Units) (readdir : Option (List Units)) :
    List LockFile :=
  sweepNames host dir lockSweepLimit (readdir.getD [])

end Sweep

end Model

section Endings

variable {β : Type} {r : RegExp} {taken rest : Units}

theorem word_takes (cs : Units) (h : (RegExp.word cs r).Takes taken rest) :
    ∃ back, taken = cs ++ back ∧ r.Takes back rest := by
  induction cs generalizing taken with
  | nil => exact ⟨taken, rfl, h⟩
  | cons c cs ih =>
      obtain ⟨front, back, rfl, ⟨d, rfl, hd⟩, hback⟩ := h
      obtain ⟨last, rfl, hlast⟩ := ih hback
      exact ⟨last, by rw [of_decide_eq_true hd]; rfl, hlast⟩

theorem times_takes (n : ℕ) {p : UInt16 → Bool} (h : (RegExp.times n p r).Takes taken rest) :
    ∃ front back, taken = front ++ back ∧ r.Takes back rest := by
  induction n generalizing taken with
  | zero => exact ⟨[], taken, rfl, h⟩
  | succ n ih =>
      obtain ⟨front, back, rfl, -, hback⟩ := h
      obtain ⟨front', back', rfl, hlast⟩ := ih hback
      exact ⟨front ++ front', back', (List.append_assoc _ _ _).symm, hlast⟩

theorem digits_atEnd_takes (h : (digits .atEnd).Takes taken rest) :
    rest = [] ∧ ∃ c, taken.getLast? = some c ∧ isDigitUnit c = true := by
  obtain ⟨front, -, rfl, ⟨first, more, rfl, ⟨c, rfl, hc⟩, hmore⟩, rfl, rfl⟩ := h
  refine ⟨rfl, ?_⟩
  rw [List.append_nil, List.getLast?_append]
  cases hlast : more.getLast? with
  | none => exact ⟨c, rfl, hc⟩
  | some d => exact ⟨d, rfl, hmore d (List.mem_of_getLast? hlast)⟩

/-- A tomb ends in a digit. -/
theorem tomb_last {name : Units} {captures : List Units}
    (h : TOMB_PATTERN.exec name = some captures) :
    ∃ c, name.getLast? = some c ∧ isDigitUnit c = true := by
  obtain ⟨front, taken, rest, rfl, htaken⟩ := RegExp.exec_takes h
  obtain ⟨_, rfl, hpid⟩ := word_takes _ htaken
  obtain ⟨pid, _, rfl, -, hdash⟩ := hpid
  obtain ⟨_, rfl, hstamp⟩ := word_takes _ hdash
  obtain ⟨stamp, _, rfl, -, hdash'⟩ := hstamp
  obtain ⟨counter, rfl, hcounter⟩ := word_takes _ hdash'
  obtain ⟨rfl, c, hlast, hc⟩ := digits_atEnd_takes hcounter
  refine ⟨c, ?_, hc⟩
  simp only [List.append_nil, List.getLast?_append, hlast, Option.some_or]

theorem tempSuffix_takes (h : tempSuffix.Takes taken rest) :
    rest = [] ∧ taken.getLast? = some 0x70 := by
  obtain ⟨_, rfl, hnumber⟩ := word_takes _ h
  obtain ⟨number, _, rfl, -, hdot⟩ := hnumber
  obtain ⟨_, rfl, htoken⟩ := word_takes _ hdot
  obtain ⟨token, _, rfl, htmp⟩ := times_takes _ htoken
  obtain ⟨_, rfl, rfl, rfl⟩ := word_takes _ htmp
  refine ⟨rfl, ?_⟩
  simp only [List.append_nil, List.getLast?_append]
  rfl

/-- A publication temporary ends in a `p`. -/
theorem publishTemp_last {name : Units} (h : matchesPublishTemp name = true) :
    name.getLast? = some 0x70 := by
  have hexec (cs : Units) (hsome : ((RegExp.word cs tempSuffix).exec name).isSome = true) :
      name.getLast? = some 0x70 := by
    obtain ⟨captures, hcaptures⟩ := Option.isSome_iff_exists.mp hsome
    obtain ⟨front, taken, rest, rfl, htaken⟩ := RegExp.exec_takes hcaptures
    obtain ⟨back, rfl, hback⟩ := word_takes _ htaken
    obtain ⟨rfl, hlast⟩ := tempSuffix_takes hback
    simp only [List.append_nil, List.getLast?_append, hlast, Option.some_or]
  simp only [matchesPublishTemp, Bool.or_eq_true] at h
  obtain (hlock | hreclaim) | hpublish := h
  · exact hexec _ hlock
  · exact hexec _ hreclaim
  · obtain ⟨found, hfound⟩ := Option.isSome_iff_exists.mp hpublish
    obtain ⟨taken, rest, rfl, htaken⟩ := RegExp.matchAt_takes hfound
    obtain ⟨_, rfl, hdigest⟩ := word_takes _ htaken
    obtain ⟨digest, _, rfl, hsuffix⟩ := times_takes _ hdigest
    obtain ⟨rfl, hlast⟩ := tempSuffix_takes hsuffix
    simp only [List.append_nil, List.getLast?_append, hlast, Option.some_or]

/-- What the sweep unlinks ends in a digit or in a `p`. -/
theorem litter_last {host : SweepHost} {dir name : Units} (h : isLitter host dir name = true) :
    (∃ c, name.getLast? = some c ∧ isDigitUnit c = true) ∨ name.getLast? = some 0x70 := by
  unfold isLitter at h
  split at h
  · exact .inl (tomb_last ‹_›)
  · exact .inr (publishTemp_last (Bool.and_eq_true _ _ ▸ h).1)

theorem sweepNames_litter {host : SweepHost} {dir : Units} {left : ℕ} {names : List Units}
    {file : LockFile} (h : file ∈ sweepNames host dir left names) :
    isLitter host dir file.name = true := by
  fun_induction sweepNames host dir left names with
  | case1 => cases h
  | case2 => cases h
  | case3 left name names hlitter ih =>
      rcases List.mem_cons.mp h with rfl | hrest
      · exact hlitter
      · exact ih hrest
  | case4 left name names _ ih => exact ih h

end Endings

section Names

variable {sha256 : List UInt8 → List UInt8} {root id id' : Units} {file file' : LockFile}

theorem lockPath_name (h : lockPath sha256 root id = some file) :
    ∃ stem, lockStem sha256 id = some stem ∧ file = ⟨root, stem ++ ascii ".lock"⟩ := by
  obtain ⟨stem, hstem, rfl⟩ := Option.map_eq_some_iff.mp h
  exact ⟨stem, hstem, rfl⟩

theorem lockPath_last (h : lockPath sha256 root id = some file) :
    file.name.getLast? = some 0x6B := by
  obtain ⟨stem, -, rfl⟩ := lockPath_name h
  rw [List.getLast?_append]
  rfl

theorem guard_last (file : LockFile) :
    (cleanupGuardPath sha256 file).name.getLast? = some 0x6D := by
  unfold cleanupGuardPath
  dsimp only
  split
  · rw [List.getLast?_append]
    rfl
  · rw [List.getLast?_append]
    rfl

/-- The first unit of an encoding stands for itself, or it begins an escape. -/
theorem encoded_head {s encoded : Units} (h : encodeURIComponent s = some encoded) :
    encoded = [] ∨ ∃ b rest, (isUnreserved b = true ∧ encoded = b.toUInt16 :: rest) ∨
      (isUnreserved b = false ∧ encoded = percent b ++ rest) := by
  unfold encodeURIComponent at h
  split at h
  · obtain rfl := Option.some.inj h
    cases toUtf8 s with
    | nil => exact .inl rfl
    | cons b bytes =>
        refine .inr ⟨b, bytes.flatMap encodeByte, ?_⟩
        rw [List.flatMap_cons, encodeByte]
        split
        · exact .inl ⟨‹_›, rfl⟩
        · exact .inr ⟨Bool.eq_false_of_not_eq_true ‹_›, rfl⟩
  · cases h

theorem hexText_letter {n : ℕ} (h : 0x41 ≤ n) (h' : n ≤ 0x7A) :
    hexText (UInt16.ofNat n) = [hexUpper (n / 16), hexUpper (n % 16)] := by
  have hletters : ∀ m < 0x7B, 0x41 ≤ m →
      hexText (UInt16.ofNat m) = [hexUpper (m / 16), hexUpper (m % 16)] := by
    decide +kernel
  exact hletters n (Nat.lt_succ_of_le h') h

theorem letter_of_lowerUnit {c : UInt16}
    (h : (0x61 ≤ lowerUnit c && lowerUnit c ≤ 0x7A) = true) :
    (0x41 ≤ c.toNat ∧ c.toNat ≤ 0x5A) ∨ (0x61 ≤ c.toNat ∧ c.toNat ≤ 0x7A) := by
  unfold lowerUnit at h
  split at h
  · rename_i hupper
    rw [Bool.and_eq_true, decide_eq_true_eq, decide_eq_true_eq, UInt16.le_iff_toNat_le,
      UInt16.le_iff_toNat_le] at hupper
    exact .inl hupper
  · rw [Bool.and_eq_true, decide_eq_true_eq, decide_eq_true_eq, UInt16.le_iff_toNat_le,
      UInt16.le_iff_toNat_le] at h
    exact .inr h

/-- A letter as a byte. -/
theorem letter_byte {c : UInt16}
    (h : (0x41 ≤ c.toNat ∧ c.toNat ≤ 0x5A) ∨ (0x61 ≤ c.toNat ∧ c.toNat ≤ 0x7A)) :
    ∃ b : UInt8, b.toNat = c.toNat ∧ isUnreserved b = true := by
  have hlt : c.toNat < UInt8.size := by
    have hsize : UInt8.size = 256 := rfl
    omega
  have hnat : (UInt8.ofNat c.toNat).toNat = c.toNat := UInt8.toNat_ofNat_of_lt' hlt
  refine ⟨UInt8.ofNat c.toNat, hnat, ?_⟩
  have hle (m : UInt8) (n : ℕ) (hm : m.toNat = n) :
      (m ≤ UInt8.ofNat c.toNat ↔ n ≤ c.toNat) ∧ (UInt8.ofNat c.toNat ≤ m ↔ c.toNat ≤ n) := by
    rw [UInt8.le_iff_toNat_le, UInt8.le_iff_toNat_le, hnat, hm]
    exact ⟨Iff.rfl, Iff.rfl⟩
  simp only [isUnreserved, Bool.or_eq_true, Bool.and_eq_true, decide_eq_true_eq,
    (hle 0x41 _ rfl).1, (hle 0x5A _ rfl).2, (hle 0x61 _ rfl).1, (hle 0x7A _ rfl).2]
  rcases h with h | h
  · exact .inl (.inl (.inr h))
  · exact .inl (.inr h)

/-- A reserved name begins with a letter, whose escape takes its place. -/
theorem escapeFirst_device {encoded : Units} (h : isDeviceName encoded = true) :
    ∃ b rest, isUnreserved b = true ∧ encoded = b.toUInt16 :: rest ∧
      escapeFirst encoded = percent b ++ rest := by
  have hletters : DEVICE_NAMES.all (fun name => name.head?.any fun c =>
      0x61 ≤ c && c ≤ 0x7A) = true := by
    decide +kernel
  have hmem := List.contains_iff_mem.mp h
  cases encoded with
  | nil =>
      have hnone := List.all_eq_true.mp hletters _ hmem
      cases hnone
  | cons c rest =>
      by_cases hdot : c = 0x2E
      · have hnone : (c :: rest).takeWhile (· != 0x2E) = [] := by
          rw [List.takeWhile_cons, if_neg (by simp [hdot])]
        rw [hnone] at hmem
        have hfalse := List.all_eq_true.mp hletters _ hmem
        cases hfalse
      · have hfirst : (c :: rest).takeWhile (· != 0x2E) = c :: rest.takeWhile (· != 0x2E) := by
          rw [List.takeWhile_cons, if_pos (by simp [hdot])]
        rw [hfirst] at hmem
        have hletter := letter_of_lowerUnit (List.all_eq_true.mp hletters _ hmem)
        obtain ⟨b, hb, hunreserved⟩ := letter_byte hletter
        have hunit : b.toUInt16 = c := by
          rw [← UInt16.toNat_inj, UInt8.toNat_toUInt16, hb]
        refine ⟨b, rest, hunreserved, by rw [hunit], ?_⟩
        have hhex := hexText_letter (n := c.toNat) (by omega) (by omega)
        rw [UInt16.ofNat_toNat] at hhex
        rw [escapeFirst, hhex, percent, hb]
        rfl

theorem hexLower_pair {b b' : UInt8} (hhigh : hexLower (b.toNat / 16) = hexLower (b'.toNat / 16))
    (hlow : hexLower (b.toNat % 16) = hexLower (b'.toNat % 16)) : b = b' := by
  have hdigit : ∀ m < 16, ∀ n < 16, hexLower m = hexLower n → m = n := by decide
  have hb : b.toNat < 256 := b.toNat_lt
  have hb' : b'.toNat < 256 := b'.toNat_lt
  have hhigh := hdigit _ (by omega) _ (by omega) hhigh
  have hlow := hdigit _ (by omega) _ (by omega) hlow
  refine UInt8.toNat_inj.mp ?_
  omega

theorem hex_injective {bytes bytes' : List UInt8}
    (h : (bytes.flatMap fun b => [hexLower (b.toNat / 16), hexLower (b.toNat % 16)]) =
      bytes'.flatMap fun b => [hexLower (b.toNat / 16), hexLower (b.toNat % 16)]) :
    bytes = bytes' := by
  induction bytes generalizing bytes' with
  | nil =>
      cases bytes' with
      | nil => rfl
      | cons => cases h
  | cons b bytes ih =>
      cases bytes' with
      | nil => cases h
      | cons b' bytes' =>
          obtain ⟨hhigh, hrest⟩ := List.cons.inj h
          obtain ⟨hlow, hrest⟩ := List.cons.inj hrest
          rw [hexLower_pair hhigh hlow, ih hrest]

theorem sha256Hex_injective (hsha256 : Function.Injective sha256) {s t : Units}
    (hs : isWellFormed s = true) (ht : isWellFormed t = true)
    (h : sha256Hex sha256 s = sha256Hex sha256 t) : s = t :=
  toUtf8_injective hs ht (hsha256 (hex_injective h))

theorem encodeURIComponent_wellFormed {s encoded : Units}
    (h : encodeURIComponent s = some encoded) : isWellFormed s = true := by
  unfold encodeURIComponent at h
  split at h
  · assumption
  · cases h

/-- The three forms of a name. -/
inductive StemForm (sha256 : List UInt8 → List UInt8) (id encoded : Units) : Units → Prop
  | hashed : StemForm sha256 id encoded (ascii "@sha256-" ++ sha256Hex sha256 id)
  | escaped {b : UInt8} {rest : Units} : isUnreserved b = true → encoded = b.toUInt16 :: rest →
      StemForm sha256 id encoded (percent b ++ rest)
  | plain : StemForm sha256 id encoded encoded

theorem lockStem_form {stem : Units} (h : lockStem sha256 id = some stem) :
    ∃ encoded, encodeURIComponent id = some encoded ∧ StemForm sha256 id encoded stem := by
  obtain ⟨encoded, hencoded, rfl⟩ := Option.map_eq_some_iff.mp h
  have hshort : StemForm sha256 id encoded
      (if isDeviceName encoded then escapeFirst encoded else encoded) := by
    split
    · rename_i hdevice
      obtain ⟨b, rest, hb, hfirst, hescaped⟩ := escapeFirst_device hdevice
      rw [hescaped]
      exact .escaped hb hfirst
    · exact .plain
  refine ⟨encoded, hencoded, ?_⟩
  dsimp only
  generalize (if isDeviceName encoded then escapeFirst encoded else encoded) = filename at hshort ⊢
  split
  · exact .hashed
  · exact hshort

theorem at_not_encoded {s encoded rest : Units} (h : encodeURIComponent s = some encoded) :
    encoded ≠ 0x40 :: rest := by
  rintro rfl
  obtain hnil | ⟨b, tail, ⟨hb, heq⟩ | ⟨-, heq⟩⟩ := encoded_head h
  · cases hnil
  · have hbyte : b = 0x40 := by
      have hnat := congrArg UInt16.toNat (List.cons.inj heq).1
      rw [UInt8.toNat_toUInt16] at hnat
      exact UInt8.toNat_inj.mp hnat.symm
    rw [hbyte] at hb
    cases hb
  · cases (List.cons.inj heq).1

/-- An escaped letter is in no encoding. -/
theorem escaped_not_encoded {s : Units} {b : UInt8} {rest : Units} (hb : isUnreserved b = true) :
    encodeURIComponent s ≠ some (percent b ++ rest) := by
  intro h
  obtain hnil | ⟨b', tail, ⟨hb', heq⟩ | ⟨hb', heq⟩⟩ := encoded_head h
  · cases hnil
  · have hbyte : b' = 0x25 := by
      have hnat := congrArg UInt16.toNat (List.cons.inj heq).1
      rw [UInt8.toNat_toUInt16] at hnat
      exact UInt8.toNat_inj.mp hnat.symm
    rw [hbyte] at hb'
    cases hb'
  · rw [(percent_inj heq).1, hb'] at hb
    cases hb

/-- No two resources have one name. -/
theorem lockStem_injective (hsha256 : Function.Injective sha256) {stem : Units}
    (h : lockStem sha256 id = some stem) (h' : lockStem sha256 id' = some stem) : id = id' := by
  obtain ⟨encoded, hencoded, hform⟩ := lockStem_form h
  obtain ⟨encoded', hencoded', hform'⟩ := lockStem_form h'
  generalize hsame : stem = stem' at hform'
  cases hform with
  | hashed =>
      cases hform' with
      | hashed =>
          exact sha256Hex_injective hsha256 (encodeURIComponent_wellFormed hencoded)
            (encodeURIComponent_wellFormed hencoded') (List.append_cancel_left hsame)
      | escaped => cases (List.cons.inj hsame).1
      | plain => exact absurd hsame.symm (at_not_encoded hencoded')
  | @escaped b rest hb hfirst =>
      cases hform' with
      | hashed => cases (List.cons.inj hsame).1
      | @escaped b' rest' hb' hfirst' =>
          obtain ⟨rfl, rfl⟩ := percent_inj hsame
          rw [hfirst] at hencoded
          rw [hfirst'] at hencoded'
          exact encodeURIComponent_injective hencoded hencoded'
      | plain => exact absurd (hsame ▸ hencoded') (escaped_not_encoded hb)
  | plain =>
      cases hform' with
      | hashed => exact absurd hsame (at_not_encoded hencoded)
      | escaped hb' => exact absurd (hsame ▸ hencoded) (escaped_not_encoded hb')
      | plain =>
          rw [← hsame] at hencoded'
          exact encodeURIComponent_injective hencoded hencoded'

theorem sha256Hex_ascii (text : Units) : IsAscii (sha256Hex sha256 text) := by
  have hdigit : ∀ n < 16, (hexLower n).toNat < 0x80 := by decide
  intro c hc
  obtain ⟨b, -, hb⟩ := List.mem_flatMap.mp hc
  have hlt : b.toNat < 256 := b.toNat_lt
  rcases List.mem_cons.mp hb with rfl | hb
  · exact hdigit _ (by omega)
  · rw [List.mem_singleton.mp hb]
    exact hdigit _ (by omega)

theorem lockPath_ascii (h : lockPath sha256 root id = some file) : IsAscii file.name := by
  obtain ⟨stem, hstem, rfl⟩ := lockPath_name h
  obtain ⟨encoded, hencoded, hform⟩ := lockStem_form hstem
  have hall := encodeURIComponent_ascii hencoded
  refine IsAscii.append ?_ (IsAscii.of_all (by decide +kernel))
  cases hform with
  | hashed =>
      exact IsAscii.append (IsAscii.of_all (by decide +kernel)) (sha256Hex_ascii id)
  | @escaped b rest hb hfirst =>
      rw [hfirst] at hall
      exact (percent_ascii b).append fun c hc => hall c (List.mem_cons_of_mem _ hc)
  | plain => exact hall

/-- A name that begins with an at sign is a digest. -/
theorem lockStem_at {stem rest : Units} (h : lockStem sha256 id = some stem)
    (hat : stem = 0x40 :: rest) : ∃ tail, stem = ascii "@sha256-" ++ tail := by
  obtain ⟨encoded, hencoded, hform⟩ := lockStem_form h
  cases hform with
  | hashed => exact ⟨_, rfl⟩
  | escaped => cases (List.cons.inj hat).1
  | plain => exact absurd hat (at_not_encoded hencoded)

variable (sha256) in
/-- The name of a guard is the one of its lock with a suffix, or a digest of it. -/
theorem cleanupGuardPath_name (file : LockFile) :
    (cleanupGuardPath sha256 file).name = file.name ++ ascii ".reclaim" ∨
      (cleanupGuardPath sha256 file).name =
        ascii "@reclaim-" ++ (sha256Hex sha256 file.name ++ ascii ".lock.reclaim") := by
  unfold cleanupGuardPath
  dsimp only
  split
  · exact .inl rfl
  · refine .inr ?_
    simp only [hashedAuxiliaryStem, List.append_assoc]
    rfl

/-- The name of a lock with a suffix is no digest of a name. -/
theorem legacy_not_hashed (h : lockPath sha256 root id = some file) (digest : Units) :
    file.name ++ ascii ".reclaim" ≠ ascii "@reclaim-" ++ (digest ++ ascii ".lock.reclaim") := by
  intro hsame
  obtain ⟨stem, hstem, rfl⟩ := lockPath_name h
  have hsuffix : ascii ".lock.reclaim" = ascii ".lock" ++ ascii ".reclaim" := rfl
  rw [hsuffix, ← List.append_assoc digest, ← List.append_assoc (ascii "@reclaim-")] at hsame
  have hname := List.append_cancel_right hsame
  rw [← List.append_assoc] at hname
  have hreclaim : stem = ascii "@reclaim-" ++ digest := List.append_cancel_right hname
  obtain ⟨tail, htail⟩ := lockStem_at hstem (hreclaim.trans rfl)
  have hsecond := (List.cons.inj (List.cons.inj (htail.symm.trans hreclaim)).2).1
  exact absurd hsecond (by decide)

theorem cleanupGuardPath_injective (hsha256 : Function.Injective sha256)
    (h : lockPath sha256 root id = some file) (h' : lockPath sha256 root id' = some file')
    (hsame : (cleanupGuardPath sha256 file).name = (cleanupGuardPath sha256 file').name) :
    file.name = file'.name := by
  obtain hname | hname := cleanupGuardPath_name sha256 file <;>
    obtain hname' | hname' := cleanupGuardPath_name sha256 file' <;>
    rw [hname, hname'] at hsame
  · exact List.append_cancel_right hsame
  · exact absurd hsame (legacy_not_hashed h _)
  · exact absurd hsame.symm (legacy_not_hashed h' _)
  · refine sha256Hex_injective hsha256 (lockPath_ascii h).isWellFormed
      (lockPath_ascii h').isWellFormed ?_
    exact List.append_cancel_right (List.append_cancel_left hsame)

/-- Two resources have different locks. -/
theorem lockPath_injective (hsha256 : Function.Injective sha256)
    (h : lockPath sha256 root id = some file) (h' : lockPath sha256 root id' = some file')
    (hsame : file.name = file'.name) : id = id' := by
  obtain ⟨stem, hstem, rfl⟩ := lockPath_name h
  obtain ⟨stem', hstem', rfl⟩ := lockPath_name h'
  obtain rfl : stem = stem' := List.append_cancel_right hsame
  exact lockStem_injective hsha256 hstem hstem'

/-- Neither a digit nor a `p` ends the name of a lock or of a guard. -/
theorem record_not_litter {name : Units}
    (h : name.getLast? = some 0x6B ∨ name.getLast? = some 0x6D) :
    (¬ ∃ c, name.getLast? = some c ∧ isDigitUnit c = true) ∧ name.getLast? ≠ some 0x70 := by
  rcases h with h | h <;> rw [h]
  all_goals
    refine ⟨?_, by decide⟩
    rintro ⟨c, hc, hdigit⟩
    obtain rfl := Option.some.inj hc
    revert hdigit
    decide

/-- Locks and guards of different resources have different paths, none of them is a tomb or a
publication temporary, and the sweep unlinks none of them. -/
theorem lock_names_disjoint (sha256 : List UInt8 → List UInt8)
    (hsha256 : Function.Injective sha256) (LOCK_ROOT : Units) (id id' : Units)
    (file file' : LockFile) (h : lockPath sha256 LOCK_ROOT id = some file)
    (h' : lockPath sha256 LOCK_ROOT id' = some file') :
    (id ≠ id' → file ≠ file' ∧ cleanupGuardPath sha256 file ≠ cleanupGuardPath sha256 file') ∧
    file ≠ cleanupGuardPath sha256 file' ∧
    ∀ record ∈ [file, cleanupGuardPath sha256 file],
      TOMB_PATTERN.exec record.name = none ∧ matchesPublishTemp record.name = false ∧
        ∀ host dir readdir, record ∉ sweepLockLitter host dir readdir := by
  refine ⟨fun hne => ⟨?_, ?_⟩, ?_, ?_⟩
  · rintro rfl
    exact hne (lockPath_injective hsha256 h h' rfl)
  · intro hsame
    have hname := cleanupGuardPath_injective hsha256 h h' (congrArg LockFile.name hsame)
    exact hne (lockPath_injective hsha256 h h' hname)
  · intro hsame
    have hlast := lockPath_last h
    rw [hsame, guard_last] at hlast
    revert hlast
    decide
  · intro record hrecord
    have hlast : record.name.getLast? = some 0x6B ∨ record.name.getLast? = some 0x6D := by
      rcases List.mem_cons.mp hrecord with rfl | hguard
      · exact .inl (lockPath_last h)
      · rw [List.mem_singleton.mp hguard]
        exact .inr (guard_last file)
    obtain ⟨htomb, htemp⟩ := record_not_litter hlast
    refine ⟨?_, ?_, fun host dir readdir hswept => ?_⟩
    · cases hexec : TOMB_PATTERN.exec record.name with
      | none => rfl
      | some captures => exact absurd (tomb_last hexec) htomb
    · exact Bool.eq_false_of_not_eq_true fun hpublish => htemp (publishTemp_last hpublish)
    · rcases litter_last (sweepNames_litter hswept) with hdigit | hp
      · exact htomb hdigit
      · exact htemp hp

theorem lock_names_disjoint_device :
    let file : LockFile := ⟨ascii "locks", ascii "%63on.lock"⟩
    let file' : LockFile := ⟨ascii "locks", ascii "%2563on.lock"⟩
    lockPath (fun bytes => bytes) (ascii "locks") (ascii "con") = some file ∧
      lockPath (fun bytes => bytes) (ascii "locks") (ascii "%63on") = some file' ∧
      file ≠ file' ∧
      cleanupGuardPath (fun bytes => bytes) file = ⟨ascii "locks", ascii "%63on.lock.reclaim"⟩ ∧
      cleanupGuardPath (fun bytes => bytes) file ≠ cleanupGuardPath (fun bytes => bytes) file' ∧
      ∀ host dir readdir, file ∉ sweepLockLitter host dir readdir := by
  intro file file'
  have h : lockPath (fun bytes => bytes) (ascii "locks") (ascii "con") = some file := by
    decide +kernel
  have h' : lockPath (fun bytes => bytes) (ascii "locks") (ascii "%63on") = some file' := by
    decide +kernel
  obtain ⟨hdistinct, -, hrecords⟩ := lock_names_disjoint (fun bytes => bytes)
    Function.injective_id (ascii "locks") (ascii "con") (ascii "%63on") file file' h h'
  obtain ⟨hlock, hguard⟩ := hdistinct (by decide +kernel)
  exact ⟨h, h', hlock, by decide +kernel, hguard, (hrecords file List.mem_cons_self).2.2⟩

/-- A tomb is seen as one. -/
example : TOMB_PATTERN.exec (ascii "a.lock.stale-12-345-6") = some [ascii "12", ascii "345"] := by
  decide +kernel

end Names

end Kyberion.Lock
