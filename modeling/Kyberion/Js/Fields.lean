import Kyberion.Js.Json

/-!
Object literals as lists of fields: optional properties and spreads. Reading a
key finds its last write.
-/

namespace Kyberion.Js

open Json

/-- `...(value ? { key: value } : {})` -/
def optionalField (key : String) (value : Option Json) : List (String × Json) :=
  value.toList.map fun v => (key, v)

/-- `{ ...base, ...extra }`, as far as reading by key goes. -/
def spread (base extra : List (String × Json)) : List (String × Json) :=
  base.filter (fun field => (extra.lookup field.1).isNone) ++ extra

@[simp] theorem printedFields_optionalField (key : String) (value : Option Json) :
    printedFields (optionalField key value) = optionalField key (value.map Json.printed) := by
  cases value <;> rfl

theorem lookup_field (key key' : String) (v : Json) (rest : List (String × Json)) :
    ((key, v) :: rest).lookup key' = if key' = key then some v else rest.lookup key' := by
  by_cases h : key' = key
  · simp [h]
  · simp [List.lookup_cons, h, beq_eq_false_iff_ne.mpr h]

@[simp] theorem lookup_optionalField (key key' : String) (value : Option Json) :
    (optionalField key value).lookup key' = if key' = key then value else none := by
  cases value with
  | none => simp [optionalField]
  | some v =>
      by_cases h : key' = key
      · simp [optionalField, h]
      · simp [optionalField, List.lookup_cons, h, beq_eq_false_iff_ne.mpr h]

theorem lookup_spread (base extra : List (String × Json)) (key : String) :
    (spread base extra).lookup key = (extra.lookup key).or (base.lookup key) := by
  rw [spread, List.lookup_append]
  induction base with
  | nil => cases extra.lookup key <;> rfl
  | cons field base ih =>
      obtain ⟨k, v⟩ := field
      by_cases hk : key = k
      · subst hk
        cases hover : extra.lookup key with
        | none => simp [hover]
        | some w => simpa [hover] using ih
      · cases hover : extra.lookup k <;> simpa [hover, lookup_field, hk] using ih

end Kyberion.Js
