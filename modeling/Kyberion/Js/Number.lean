import Mathlib.Data.Nat.Log
import Mathlib.Tactic.NormNum

/-!
Whole numbers as doubles hold them, `none` for `Infinity`, and the text the language prints for
them. Up to `2 ^ 53` nothing is lost.
-/

namespace Kyberion.Js

/-- The double nearest to `n`, ties to the even significand. -/
def toDouble (n : ℕ) : Option ℕ :=
  if n ≤ 2 ^ 53 then some n
  else
    let unit := 2 ^ (n.log2 - 52)
    let below := n / unit
    let rest := n % unit
    let near := if unit < 2 * rest ∨ 2 * rest = unit ∧ below % 2 = 1 then below + 1 else below
    if near * unit < 2 ^ 1024 then some (near * unit) else none

theorem toDouble_of_le {n : ℕ} (h : n ≤ 2 ^ 53) : toDouble n = some n :=
  if_pos h

/-- `a + 1` -/
def addOne (v : Option ℕ) : Option ℕ :=
  v.bind fun v => toDouble (v + 1)

/-- `Math.max(a, b)` -/
def maxDouble : Option ℕ → Option ℕ → Option ℕ
  | some a, some b => some (max a b)
  | _, _ => none

/-- The fewest digits that are read back as `v`, the nearest ones of that length, and how many
zeros follow them. -/
def shortestDigits (v : ℕ) : ℕ × ℕ :=
  let places := (Nat.toDigits 10 v).length
  ((List.range (places + 1)).reverse.findSome? fun zeros =>
    let unit := 10 ^ zeros
    let below := v / unit
    let rest := v % unit
    let up := unit < 2 * rest ∨ 2 * rest = unit ∧ below % 2 = 1
    let candidates := if up then [below + 1, below] else [below, below + 1]
    (candidates.find? fun s => toDouble (s * unit) = some v).map fun s => (s, zeros)).getD (v, 0)

/-- `String(v)` -/
def numberText : Option ℕ → String
  | none => "Infinity"
  | some v =>
      if v ≤ 2 ^ 53 then toString v
      else
        let (s, zeros) := shortestDigits v
        let digits := Nat.toDigits 10 s
        let exponent := digits.length + zeros - 1
        if exponent < 21 then String.ofList (digits ++ List.replicate zeros '0')
        else
          let mantissa := digits.take 1 ++ if digits.length = 1 then [] else '.' :: digits.drop 1
          String.ofList mantissa ++ "e+" ++ toString exponent

theorem numberText_of_le {v : ℕ} (h : v ≤ 2 ^ 53) : numberText (some v) = toString v :=
  if_pos h

-- the double behind 10^23 is below it, and 2^60 has digits that are not printed
example : numberText (toDouble (10 ^ 23)) = "1e+23" ∧
    numberText (toDouble (2 ^ 60)) = "1152921504606847000" := by
  decide +kernel

/-- `s.padStart(width, '0')` -/
def padStart (width : ℕ) (s : String) : String :=
  String.ofList (s.toList.leftpad width '0')

/-- `Number(digits)` before it is rounded. -/
def digitsValue (digits : List Char) : ℕ :=
  Nat.ofDigitChars 10 digits 0

theorem ofDigitChars_replicate_zero (k : ℕ) (ds : List Char) :
    Nat.ofDigitChars 10 (List.replicate k '0' ++ ds) 0 = Nat.ofDigitChars 10 ds 0 := by
  induction k with
  | zero => rfl
  | succ k ih =>
      rw [List.replicate_succ, List.cons_append, Nat.ofDigitChars_cons]
      exact ih

/-- Leading zeros do not change the number. -/
theorem digitsValue_padStart (width n : ℕ) :
    digitsValue (padStart width (toString n)).toList = n := by
  rw [padStart, String.toList_ofList, digitsValue, List.leftpad, ofDigitChars_replicate_zero,
    Nat.toString_eq_ofList_toDigits, String.toList_ofList, Nat.ofDigitChars_ten_toDigits]

theorem isDigit_of_mem_padStart {width n : ℕ} {c : Char}
    (h : c ∈ (padStart width (toString n)).toList) : c.isDigit = true := by
  rw [padStart, String.toList_ofList, List.leftpad, List.mem_append] at h
  rcases h with h | h
  · rw [List.eq_of_mem_replicate h]
    rfl
  · rw [Nat.toString_eq_ofList_toDigits, String.toList_ofList] at h
    exact Nat.isDigit_of_mem_toDigits (by decide) (by decide) h

theorem le_length_padStart (width : ℕ) (s : String) :
    width ≤ (padStart width s).toList.length := by
  rw [padStart, String.toList_ofList, List.length_leftpad]
  exact Nat.le_max_left _ _

end Kyberion.Js
