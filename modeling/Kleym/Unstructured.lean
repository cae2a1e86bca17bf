import Kleym.Objects

/-!
# Untyped objects

`unstructured.Unstructured`: an API object as nested maps, read and written by paths. A
value on a path that is not a map makes a read fail and a write do nothing; a map that is
missing on the way of a write is made.

What is needed of the two is what one expects of a store with hierarchical keys: a write is
seen by a read of the same path, and by no read of a path that parts from it.
-/

namespace Kleym

/-- `map[string]any`. -/
abbrev Fields : Type := List (GoString × Json)

/-! ## Maps -/

section Assign

variable {β : Type*}

/-- Assign to a key of a map. -/
def assign (key : GoString) (value : β) : List (GoString × β) → List (GoString × β)
  | [] => [(key, value)]
  | (k, v) :: rest => if k = key then (key, value) :: rest else (k, v) :: assign key value rest

theorem lookup_assign_self (key : GoString) (value : β) (entries : List (GoString × β)) :
    (assign key value entries).lookup key = some value := by
  induction entries with
  | nil => simp [assign]
  | cons entry entries ih =>
    obtain ⟨k, v⟩ := entry
    rw [assign]
    split_ifs with hk
    · simp
    · have hne : (key == k) = false := beq_eq_false_iff_ne.mpr (Ne.symm hk)
      rw [List.lookup_cons, hne]
      exact ih

theorem lookup_assign_of_ne {key k : GoString} (hne : k ≠ key) (value : β)
    (entries : List (GoString × β)) : (assign key value entries).lookup k = entries.lookup k := by
  have hbeq : (k == key) = false := beq_eq_false_iff_ne.mpr hne
  induction entries with
  | nil => rw [assign, List.lookup_cons, hbeq]
  | cons entry entries ih =>
    obtain ⟨k', v⟩ := entry
    rw [assign]
    split_ifs with hk
    · rw [hk, List.lookup_cons, List.lookup_cons, hbeq]
    · rw [List.lookup_cons, List.lookup_cons, ih]

/-- Assigning what is there changes nothing. -/
theorem assign_of_lookup {key : GoString} {value : β} {entries : List (GoString × β)}
    (h : entries.lookup key = some value) : assign key value entries = entries := by
  induction entries with
  | nil => cases h
  | cons entry entries ih =>
    obtain ⟨k, v⟩ := entry
    rw [assign]
    rw [List.lookup_cons] at h
    split_ifs with hk
    · rw [hk, beq_self_eq_true] at h
      rw [hk, Option.some.inj h]
    · have hne : (key == k) = false := beq_eq_false_iff_ne.mpr (Ne.symm hk)
      rw [hne] at h
      rw [ih h]

end Assign

/-! ## Paths -/

/-- `NestedFieldNoCopy`: `none` for an error, `some none` for a missing field. -/
def nestedField : Json → List GoString → Option (Option Json)
  | value, [] => some (some value)
  | .null, _ :: _ => some none
  | .object fields, field :: path =>
    match fields.lookup field with
    | none => some none
    | some value => nestedField value path
  | _, _ :: _ => none

/-- `NestedMap`. -/
def nestedMap (fields : Fields) (path : List GoString) : Option (Option Fields) :=
  match nestedField (.object fields) path with
  | none => none
  | some none => some none
  | some (some (.object m)) => some (some m)
  | some (some _) => none

/-- `NestedNullCoercingStringMap`, without its error. -/
def nestedStringMap (fields : Fields) (path : List GoString) : Option (List (GoString × GoString)) :=
  match nestedField (.object fields) path with
  | none => none
  | some value => Json.asStringMap value

/-- `setNestedFieldNoCopy`: `none` for an error. -/
def setNestedField (value : Json) : List GoString → Fields → Option Fields
  | [], _ => none
  | [field], fields => some (assign field value fields)
  | field :: path, fields =>
    match fields.lookup field with
    | none => (setNestedField value path []).map fun inner => assign field (.object inner) fields
    | some (.object inner) =>
      (setNestedField value path inner).map fun inner => assign field (.object inner) fields
    | some _ => none

/-- The setters of an object, which drop the error. -/
def setField (path : List GoString) (value : Json) (fields : Fields) : Fields :=
  (setNestedField value path fields).getD fields

/-- Neither path leads to the other. -/
def Diverges (path path' : List GoString) : Prop := ¬path <+: path' ∧ ¬path' <+: path

section Paths

variable {value : Json} {fields fields' : Fields} {field field' : GoString}
  {path path' : List GoString}

theorem nestedField_of_lookup {inner : Json} (h : fields.lookup field = some inner) :
    nestedField (.object fields) (field :: path) = nestedField inner path := by
  rw [nestedField, h]

theorem nestedField_of_missing (h : fields.lookup field = none) :
    nestedField (.object fields) (field :: path) = some none := by
  rw [nestedField, h]

theorem nestedField_single : nestedField (.object fields) [field] = some (fields.lookup field) := by
  rcases h : fields.lookup field with _ | inner
  · exact nestedField_of_missing h
  · exact nestedField_of_lookup h

/-- Below a key, a read only sees what the map has under the key. -/
theorem nestedField_congr (h : fields'.lookup field = fields.lookup field) :
    nestedField (.object fields') (field :: path) = nestedField (.object fields) (field :: path) := by
  rw [nestedField, nestedField, h]

/-- What a write of a path with several steps comes to. -/
theorem setNestedField_cons (hpath : path ≠ [])
    (h : setNestedField value (field :: path) fields = some fields') :
    ∃ inner inner', setNestedField value path inner = some inner' ∧
      fields' = assign field (.object inner') fields ∧
      (fields.lookup field = some (.object inner) ∨ fields.lookup field = none ∧ inner = []) := by
  obtain ⟨next, path, rfl⟩ := List.exists_cons_of_ne_nil hpath
  rw [setNestedField] at h
  · split at h
    · rename_i hmissing
      obtain ⟨inner', hset, rfl⟩ := Option.map_eq_some_iff.mp h
      exact ⟨[], inner', hset, rfl, Or.inr ⟨hmissing, rfl⟩⟩
    · rename_i inner hfound
      obtain ⟨inner', hset, rfl⟩ := Option.map_eq_some_iff.mp h
      exact ⟨inner, inner', hset, rfl, Or.inl hfound⟩
    · cases h
  · nofun

/-- A write is not seen by a read of a path that parts from its own. -/
theorem nestedField_setNestedField_of_diverges
    (h : setNestedField value path fields = some fields') (hdiverges : Diverges path path') :
    nestedField (.object fields') path' = nestedField (.object fields) path' := by
  -- By the steps of the write: it assigns under its first field, which the read passes by
  -- or goes through too, and there the rest of the paths part.
  induction path generalizing fields fields' path' with
  | nil => cases h
  | cons field path ih =>
    obtain _ | ⟨field', path'⟩ := path'
    · exact absurd List.nil_prefix hdiverges.2
    by_cases hfield : field' = field
    · subst hfield
      have hrest : Diverges path path' := by
        simpa only [Diverges, List.prefix_cons_inj] using hdiverges
      have hpath : path ≠ [] := fun hnil => hrest.1 (hnil ▸ List.nil_prefix)
      obtain ⟨inner, inner', hset, rfl, hfound | ⟨hmissing, rfl⟩⟩ := setNestedField_cons hpath h
      · rw [nestedField_of_lookup (lookup_assign_self _ _ _), nestedField_of_lookup hfound]
        exact ih hset hrest
      · rw [nestedField_of_lookup (lookup_assign_self _ _ _), nestedField_of_missing hmissing,
          ih hset hrest]
        cases path' with
        | nil => exact absurd List.nil_prefix hrest.2
        | cons next path' => rfl
    · have hassigned : ∃ inner, fields' = assign field inner fields := by
        by_cases hpath : path = []
        · subst hpath
          exact ⟨value, (Option.some.inj h).symm⟩
        · obtain ⟨-, inner', -, rfl, -⟩ := setNestedField_cons hpath h
          exact ⟨.object inner', rfl⟩
      obtain ⟨inner, rfl⟩ := hassigned
      exact nestedField_congr (lookup_assign_of_ne hfield inner fields)

/-- A write of a field of a map. -/
theorem setNestedField_pair {inner : Fields} (h : fields.lookup field = some (.object inner)) :
    setNestedField value [field, field'] fields =
      some (assign field (.object (assign field' value inner)) fields) := by
  rw [setNestedField, h]
  · rfl
  · nofun

end Paths

end Kleym
