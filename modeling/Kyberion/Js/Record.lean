import Mathlib.Data.List.Basic
import Mathlib.Algebra.Group.Nat.Defs

/-!
Plain objects as maps with text keys. Reading a key that was never written finds
nothing, unless it is the name of a property that every object inherits.
-/

namespace Kyberion.Js

universe u

variable {α : Type u}

/-- The names of the properties of `Object.prototype`. -/
def inheritedNames : List String :=
  ["constructor", "__defineGetter__", "__defineSetter__", "hasOwnProperty", "__lookupGetter__",
    "__lookupSetter__", "isPrototypeOf", "propertyIsEnumerable", "toString", "valueOf",
    "__proto__", "toLocaleString"]

/-- The own properties of an object in the order in which they were first written. -/
structure Record (α : Type u) where
  fields : List (String × α)
  deriving DecidableEq

inductive Property (α : Type u)
  | absent
  | inherited
  | own (value : α)

namespace Record

def empty : Record α := ⟨[]⟩

/-- `record[key]` -/
def get (record : Record α) (key : String) : Property α :=
  match record.fields.lookup key with
  | some value => .own value
  | none => if key ∈ inheritedNames then .inherited else .absent

/-- `{ ...record, [key]: value }`, which is `record[key] = value` for a key that is not
inherited. -/
def set (record : Record α) (key : String) (value : α) : Record α :=
  ⟨if (record.fields.lookup key).isSome then
    record.fields.map fun field => if field.1 = key then (key, value) else field
  else record.fields ++ [(key, value)]⟩

/-- `delete record[key]` -/
def erase (record : Record α) (key : String) : Record α :=
  ⟨record.fields.filter fun field => field.1 ≠ key⟩

/-- `key in record` -/
def has (record : Record α) (key : String) : Bool :=
  (record.fields.lookup key).isSome || inheritedNames.contains key

/-- The number that a key such as `"7"` stands for. -/
def arrayIndex (key : String) : Option ℕ :=
  key.toNat?.filter fun n => toString n = key && n < 2 ^ 32 - 1

/-- `Object.values(record)`: the keys that are array indices come first, in their order. -/
def values (record : Record α) : List α :=
  let indexed := record.fields.filter fun field => (arrayIndex field.1).isSome
  let named := record.fields.filter fun field => (arrayIndex field.1).isNone
  let sorted := indexed.mergeSort fun a b =>
    (arrayIndex a.1).getD 0 ≤ (arrayIndex b.1).getD 0
  (sorted ++ named).map Prod.snd

@[simp] theorem get_empty (key : String) :
    (empty : Record α).get key = if key ∈ inheritedNames then .inherited else .absent := rfl

theorem lookup_map_self {fields : List (String × α)} {key key' : String} {value : α} :
    (fields.map fun field => if field.1 = key then (key, value) else field).lookup key' =
      if key' = key then (fields.lookup key).map fun _ => value else fields.lookup key' := by
  induction fields with
  | nil => simp
  | cons field fields ih =>
      obtain ⟨k, v⟩ := field
      by_cases hk : k = key
      · subst hk
        by_cases hkey : key' = k
        · simp [hkey]
        · simp only [List.map_cons, if_true, List.lookup_cons, beq_eq_false_iff_ne.mpr hkey, ih,
            if_neg hkey]
      · by_cases hkey : key' = key
        · subst hkey
          have hne : (key' == k) = false := beq_eq_false_iff_ne.mpr (Ne.symm hk)
          simp only [List.map_cons, if_neg hk, List.lookup_cons, hne, ih, if_true]
        · simp only [List.map_cons, if_neg hk, List.lookup_cons, ih, if_neg hkey]

theorem lookup_set (record : Record α) (key key' : String) (value : α) :
    (record.set key value).fields.lookup key' =
      if key' = key then some value else record.fields.lookup key' := by
  unfold set
  split
  · rename_i hsome
    obtain ⟨old, hold⟩ := Option.isSome_iff_exists.mp hsome
    simp only [lookup_map_self, hold, Option.map_some]
  · rename_i hnone
    have hlookup := Option.not_isSome_iff_eq_none.mp hnone
    simp only [List.lookup_append]
    by_cases hkey : key' = key
    · subst hkey
      simp [hlookup]
    · simp [hkey, List.lookup_cons, beq_eq_false_iff_ne.mpr hkey]

theorem get_set (record : Record α) (key key' : String) (value : α) :
    (record.set key value).get key' = if key' = key then .own value else record.get key' := by
  unfold get
  rw [lookup_set]
  by_cases hkey : key' = key <;> simp [hkey]

end Record

end Kyberion.Js
