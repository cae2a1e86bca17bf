import Kleym.Json
import Mathlib.Data.List.Perm.Subperm

/-!
# Maps and the order of their fields

A Go map has no key twice, and a loop over it visits its fields in an order of
the runtime's choosing. A JSON value is well formed when the first holds of all
the objects in it; two well-formed values are the same map, visited in different
orders, when they are deeply equal. What is needed of such a pair is that its
objects have the same keys, and that an object of strings is a permutation of the
other one.
-/

namespace Kleym

/-! ## Looking up -/

section Lookup

variable {β : Type*} {fields : List (GoString × β)} {key : GoString} {value : β}

theorem mem_of_lookup (h : fields.lookup key = some value) : (key, value) ∈ fields := by
  obtain ⟨before, after, rfl, -⟩ := List.lookup_eq_some_iff.mp h
  simp

theorem lookup_of_mem (hnodup : (fields.map Prod.fst).Nodup) (h : (key, value) ∈ fields) :
    fields.lookup key = some value := by
  obtain ⟨before, after, rfl⟩ := List.append_of_mem h
  refine List.lookup_eq_some_iff.mpr ⟨before, after, rfl, fun field hfield => ?_⟩
  rw [List.map_append, List.map_cons, List.nodup_append] at hnodup
  simpa using (hnodup.2.2 field.1 (List.mem_map_of_mem hfield) key List.mem_cons_self).symm

theorem lookup_eq_none : fields.lookup key = none ↔ key ∉ fields.map Prod.fst := by
  rw [List.lookup_eq_none_iff, List.mem_map]
  constructor
  · rintro h ⟨field, hfield, rfl⟩
    simpa using h field hfield
  · intro h field hfield
    rw [bne_iff_ne]
    exact fun hkey => h ⟨field, hfield, hkey.symm⟩

end Lookup

namespace Json

/-! ## Well-formed values -/

mutual

/-- No object in the value has a key twice. -/
def wellFormed : Json → Bool
  | array items => wellFormedItems items
  | object fields => decide (fields.map Prod.fst).Nodup && wellFormedFields fields
  | _ => true
termination_by structural j => j

/-- Every item is well formed. -/
def wellFormedItems : List Json → Bool
  | [] => true
  | item :: items => wellFormed item && wellFormedItems items
termination_by structural items => items

/-- Every field's value is well formed. -/
def wellFormedFields : List (GoString × Json) → Bool
  | [] => true
  | field :: fields => wellFormedField field && wellFormedFields fields
termination_by structural fields => fields

/-- A field's value is well formed. -/
def wellFormedField : GoString × Json → Bool
  | (_, value) => wellFormed value
termination_by structural field => field

end

theorem wellFormedFields_iff {fields : List (GoString × Json)} :
    wellFormedFields fields = true ↔ ∀ field ∈ fields, field.2.wellFormed = true := by
  induction fields with
  | nil => simp [wellFormedFields]
  | cons field fields ih =>
    obtain ⟨key, value⟩ := field
    rw [wellFormedFields, Bool.and_eq_true, ih, List.forall_mem_cons, wellFormedField]

theorem wellFormed_object {fields : List (GoString × Json)} :
    (object fields).wellFormed = true ↔
      (fields.map Prod.fst).Nodup ∧ ∀ field ∈ fields, field.2.wellFormed = true := by
  rw [wellFormed, Bool.and_eq_true, decide_eq_true_iff, wellFormedFields_iff]

/-! ## Deep equality -/

theorem deepEqual_string {s : GoString} {j : Json} :
    (string s).deepEqual j = true ↔ j = string s := by
  rw [eq_comm (a := j)]
  cases j <;> simp [deepEqual]

theorem deepEqualFields_iff {a b : List (GoString × Json)} :
    deepEqualFields a b = true ↔
      ∀ field ∈ a, ∃ value, b.lookup field.1 = some value ∧ field.2.deepEqual value = true := by
  induction a with
  | nil => simp [deepEqualFields]
  | cons field a ih =>
    obtain ⟨key, value⟩ := field
    rw [deepEqualFields, Bool.and_eq_true, ih, List.forall_mem_cons, deepEqualField]
    refine and_congr_left fun _ => ?_
    cases b.lookup key with
    | none => simp
    | some value' => simp

theorem deepEqual_object {a : List (GoString × Json)} {j : Json} :
    (object a).deepEqual j = true ↔ ∃ b, j = object b ∧ a.length = b.length ∧
      ∀ field ∈ a, ∃ value, b.lookup field.1 = some value ∧ field.2.deepEqual value = true := by
  cases j <;> simp [deepEqual, deepEqualFields_iff]

theorem deepEqual_object_self {a : List (GoString × Json)} (hnodup : (a.map Prod.fst).Nodup)
    (h : ∀ field ∈ a, field.2.deepEqual field.2 = true) :
    (object a).deepEqual (object a) = true :=
  deepEqual_object.mpr ⟨a, rfl, rfl, fun field hfield =>
    ⟨field.2, lookup_of_mem hnodup hfield, h field hfield⟩⟩

mutual

/-- A well-formed value is deeply equal to itself. -/
theorem deepEqual_self : (j : Json) → j.wellFormed = true → j.deepEqual j = true
  | null, _ => rfl
  | bool b, _ => by simp [deepEqual]
  | number n, _ => by simp [deepEqual]
  | string s, _ => by simp [deepEqual]
  | array items, h => deepEqualItems_self items h
  | object fields, h => by
    rw [wellFormed, Bool.and_eq_true, decide_eq_true_iff] at h
    exact deepEqual_object_self h.1 (deepEqual_fields_self fields h.2)
termination_by structural j => j

theorem deepEqualItems_self : (items : List Json) → wellFormedItems items = true →
    deepEqualItems items items = true
  | [], _ => rfl
  | item :: items, h => by
    rw [wellFormedItems, Bool.and_eq_true] at h
    rw [deepEqualItems, deepEqual_self item h.1, deepEqualItems_self items h.2]
    rfl
termination_by structural items => items

theorem deepEqual_fields_self : (fields : List (GoString × Json)) →
    wellFormedFields fields = true → ∀ field ∈ fields, field.2.deepEqual field.2 = true
  | [], _ => nofun
  | field :: fields, h => by
    rw [wellFormedFields, Bool.and_eq_true] at h
    refine List.forall_mem_cons.mpr ⟨deepEqual_field_self field h.1, ?_⟩
    exact deepEqual_fields_self fields h.2
termination_by structural fields => fields

theorem deepEqual_field_self : (field : GoString × Json) → wellFormedField field = true →
    field.2.deepEqual field.2 = true
  | (_, value), h => deepEqual_self value h
termination_by structural field => field

end

section Objects

variable {a b : List (GoString × Json)} (hnodup : (a.map Prod.fst).Nodup)
  (h : (object a).deepEqual (object b) = true)

include hnodup h in
/-- Deeply equal objects have the same keys. -/
theorem keys_perm : (a.map Prod.fst).Perm (b.map Prod.fst) := by
  obtain ⟨_, hb, hlength, hfields⟩ := deepEqual_object.mp h
  cases hb
  have hsubset : a.map Prod.fst ⊆ b.map Prod.fst := by
    intro key hkey
    obtain ⟨field, hfield, rfl⟩ := List.mem_map.mp hkey
    obtain ⟨value, hvalue, -⟩ := hfields field hfield
    exact List.mem_map.mpr ⟨(field.1, value), mem_of_lookup hvalue, rfl⟩
  refine (List.subperm_of_subset hnodup hsubset).perm_of_length_le ?_
  rw [List.length_map, List.length_map, hlength]

include hnodup h in
/-- Deeply equal objects of strings are permutations of each other. -/
theorem perm_of_strings (hstrings : ∀ field ∈ a, ∃ s, field.2 = string s) : a.Perm b := by
  obtain ⟨_, hb, hlength, hfields⟩ := deepEqual_object.mp h
  cases hb
  have hsubset : a ⊆ b := by
    rintro ⟨key, value⟩ hfield
    obtain ⟨s, hs⟩ := hstrings _ hfield
    obtain ⟨value', hlookup, hequal⟩ := hfields _ hfield
    rw [hs, deepEqual_string, ← hs] at hequal
    rw [hequal] at hlookup
    exact mem_of_lookup hlookup
  exact (List.subperm_of_subset hnodup.of_map hsubset).perm_of_length_le hlength.ge

end Objects

end Json

end Kleym
