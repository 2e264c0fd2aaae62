import HttpRaftKv.Lib.OrderedMap
import Mathlib.Data.Rat.Defs

/-!
# JSON values

The values of a JSON library for C++ and the accesses that programs make to
them.  The fields of an object are ordered by their keys.  An access to a value
of another type throws; here it has no result.
-/

namespace HttpRaftKv

/-- A number with a fractional part is given by its value. -/
inductive Json
  | null
  | boolean (value : Bool)
  | integer (value : ℤ)
  | float (value : ℚ)
  | string (value : String)
  | array (items : List Json)
  | object (fields : List (String × Json))
deriving Repr

namespace Json

/-- `object[key] = value`, at the place of the key in the order. -/
def setField (key : String) (value : Json) : List (String × Json) → List (String × Json)
  | [] => [(key, value)]
  | (k, v) :: fields =>
      if key < k then (key, value) :: (k, v) :: fields
      else if k = key then (key, value) :: fields
      else (k, v) :: setField key value fields

/-- An object written down with its fields. -/
def ofFields (fields : List (String × Json)) : Json :=
  .object (fields.foldr (fun field ↦ setField field.1 field.2) [])

def isObject : Json → Bool
  | .object _ => true
  | _ => false

/-- `at` on an object. -/
def at? : Json → String → Option Json
  | .object fields, key => fields.lookup key
  | _, _ => none

/-- `get<int>`, which converts every number and also a Boolean. -/
def getInt? : Json → Option ℤ
  | .integer value => some value
  | .float value => some (value.num.tdiv value.den)
  | .boolean value => some (if value then 1 else 0)
  | _ => none

def getBool? : Json → Option Bool
  | .boolean value => some value
  | _ => none

def getString? : Json → Option String
  | .string value => some value
  | _ => none

def getArray? : Json → Option (List Json)
  | .array items => some items
  | _ => none

/-- `value(key, default)`: the field of an object, or the default if it has none. -/
def value? {α : Type} (get? : Json → Option α) (j : Json) (key : String) (default : α) : Option α :=
  match j with
  | .object fields =>
      match fields.lookup key with
      | none => some default
      | some field => get? field
  | _ => none

/-- `object[key] = value` on an object. -/
def set (j : Json) (key : String) (value : Json) : Json :=
  match j with
  | .object fields => .object (setField key value fields)
  | _ => j

/-- The comparison with a number. -/
def eqInt (j : Json) (k : ℤ) : Bool :=
  match j with
  | .integer value => value = k
  | .float value => value = k
  | _ => false

theorem setField_eq_assign (key : String) (value : Json) (fields : List (String × Json)) :
    setField key value fields = OrderedMap.assign key value fields := by
  induction fields with
  | nil => rfl
  | cons field fields ih =>
      obtain ⟨k, v⟩ := field
      rw [setField, OrderedMap.assign, ih]

@[simp] theorem lookup_setField (key key' : String) (value : Json) (fields : List (String × Json)) :
    (setField key value fields).lookup key' =
      if key' = key then some value else fields.lookup key' := by
  rw [setField_eq_assign, OrderedMap.lookup_assign]

@[simp] theorem isObject_set (j : Json) (key : String) (value : Json) :
    (j.set key value).isObject = j.isObject := by
  cases j with
  | object fields => rfl
  | _ => rfl

@[simp] theorem isObject_ofFields (fields : List (String × Json)) :
    (ofFields fields).isObject = true := rfl

@[simp] theorem at?_set (j : Json) (key key' : String) (value : Json) :
    (j.set key value).at? key' =
      if key' = key ∧ j.isObject = true then some value else j.at? key' := by
  cases j with
  | object fields => simp [set, at?, isObject]
  | _ => simp [set, at?, isObject]

/-- The first field with a key counts. -/
@[simp] theorem at?_ofFields (fields : List (String × Json)) (key : String) :
    (ofFields fields).at? key = fields.lookup key := by
  change (fields.foldr (fun field ↦ setField field.1 field.2) []).lookup key = _
  induction fields with
  | nil => rfl
  | cons field fields ih =>
      obtain ⟨k, v⟩ := field
      rw [List.foldr_cons, lookup_setField, ih, List.lookup_cons]
      by_cases h : key = k
      · simp [h]
      · simp [h, beq_false_of_ne h]

end Json

end HttpRaftKv
