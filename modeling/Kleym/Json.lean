import Kleym.GoString

/-!
# Untyped JSON

Kubernetes objects without a Go type travel as `map[string]any`. A JSON object is
a list of fields here, in the order a loop over the Go map visits them; which
order that is carries no meaning, so equality of objects is `deepEqual`, the
`reflect.DeepEqual` of the decoded values, and not equality of the lists.
-/

namespace Kleym

/-- A decoded JSON value. -/
inductive Json : Type where
  | null : Json
  | bool : Bool → Json
  | number : Int → Json
  | string : GoString → Json
  | array : List Json → Json
  /-- the fields of a map, in iteration order -/
  | object : List (GoString × Json) → Json

namespace Json

mutual

/-- `reflect.DeepEqual`: arrays item by item, objects as maps. -/
def deepEqual : Json → Json → Bool
  | null, null => true
  | bool a, bool b => a == b
  | number a, number b => a == b
  | string a, string b => a == b
  | array a, array b => deepEqualItems a b
  | object a, object b => a.length == b.length && deepEqualFields a b
  | _, _ => false
termination_by structural a => a

/-- Two lists of values agree position by position. -/
def deepEqualItems : List Json → List Json → Bool
  | [], [] => true
  | a :: as, b :: bs => deepEqual a b && deepEqualItems as bs
  | _, _ => false
termination_by structural a => a

/-- Every field of the first map is in the second, with an equal value. -/
def deepEqualFields : List (GoString × Json) → List (GoString × Json) → Bool
  | [], _ => true
  | field :: rest, other => deepEqualField field other && deepEqualFields rest other
termination_by structural a => a

/-- A field is in a map with an equal value. -/
def deepEqualField : GoString × Json → List (GoString × Json) → Bool
  | (k, v), other =>
    match other.lookup k with
    | some v' => deepEqual v v'
    | none => false
termination_by structural a => a

end

/-- `v.(string)`. -/
def asString : Json → Option GoString
  | string s => some s
  | _ => none

/-- `v.(map[string]any)`. -/
def asObject : Json → Option (List (GoString × Json))
  | object fields => some fields
  | _ => none

/-- `unstructured.NestedNullCoercingStringMap` at a field that may be absent:
`none` where the Go function returns no map, that is when the field is missing or
null, not an object, or has a value that is neither a string nor null. -/
def asStringMap : Option Json → Option (List (GoString × GoString))
  | some (object fields) =>
    fields.mapM fun (k, v) =>
      match v with
      | string s => some (k, s)
      | null => some (k, [])
      | _ => none
  | _ => none

end Json

end Kleym
