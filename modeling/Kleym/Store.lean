import Mathlib.Data.List.Nodup

/-!
# Keyed stores

A store holds at most one value per key and lists its values in some order. The
key of a value is part of the value, as the name of an object is part of its
metadata, so the store carries the uniqueness of keys as a field and a lookup is
a search through the entries.
-/

namespace Kleym

/-- A collection with at most one entry for each key. -/
structure Store {κ ν : Type} (key : ν → κ) where
  /-- the values, in listing order -/
  entries : List ν
  /-- no key occurs twice -/
  nodup : (entries.map key).Nodup

namespace Store

variable {κ ν : Type} [DecidableEq κ] {key : ν → κ}

/-- The store with no entries. -/
def empty : Store key := ⟨[], List.nodup_nil⟩

/-- Look a key up. -/
def get (s : Store key) (k : κ) : Option ν := s.entries.find? fun v => decide (key v = k)

/-- Drop the entry of a key, if it has one. -/
def erase (s : Store key) (k : κ) : Store key where
  entries := s.entries.filter fun v => decide (key v ≠ k)
  nodup := s.nodup.sublist (List.Sublist.map key List.filter_sublist)

/-- Replace the entry with the key of `v` in place, or append `v`. -/
def put (s : Store key) (v : ν) : Store key where
  entries :=
    if key v ∈ s.entries.map key then
      s.entries.map fun u => if key u = key v then v else u
    else s.entries ++ [v]
  nodup := by
    split
    · have hkeys : (s.entries.map fun u => if key u = key v then v else u).map key =
          s.entries.map key := by
        rw [List.map_map]
        apply List.map_congr_left
        intro u _
        by_cases hu : key u = key v
        · simp [hu]
        · simp [hu]
      rw [hkeys]
      exact s.nodup
    · rename_i hv
      rw [List.map_append, List.map_singleton]
      exact List.nodup_append.mpr ⟨s.nodup, List.nodup_singleton _, by
        intro a ha b hb hab
        rw [List.mem_singleton] at hb
        exact hv (hb ▸ hab ▸ ha)⟩

omit [DecidableEq κ] in
/-- Two entries with the same key are the same entry. -/
theorem eq_of_key_eq (s : Store key) {u v : ν} (hu : u ∈ s.entries) (hv : v ∈ s.entries)
    (h : key u = key v) : u = v :=
  List.inj_on_of_nodup_map s.nodup hu hv h

theorem get_eq_some {s : Store key} {k : κ} {v : ν} :
    s.get k = some v ↔ v ∈ s.entries ∧ key v = k := by
  constructor
  · intro h
    exact ⟨List.mem_of_find?_eq_some h, by simpa using List.find?_some h⟩
  · rintro ⟨hv, rfl⟩
    rcases hg : s.get (key v) with _ | u
    · have := List.find?_eq_none.mp hg v hv
      simp at this
    · have hu : u ∈ s.entries := List.mem_of_find?_eq_some hg
      have hk : key u = key v := by simpa using List.find?_some hg
      rw [s.eq_of_key_eq hu hv hk]

theorem get_eq_none {s : Store key} {k : κ} :
    s.get k = none ↔ ∀ v ∈ s.entries, key v ≠ k := by
  simp [get]

@[simp] theorem mem_put {s : Store key} {u v : ν} :
    u ∈ (s.put v).entries ↔ u = v ∨ (u ∈ s.entries ∧ key u ≠ key v) := by
  unfold put
  split
  · rename_i hv
    constructor
    · intro hu
      obtain ⟨x, hx, rfl⟩ := List.mem_map.mp hu
      by_cases hk : key x = key v
      · simp [hk]
      · simp [hk, hx]
    · rintro (rfl | ⟨hu, hk⟩)
      · obtain ⟨x, hx, hkx⟩ := List.mem_map.mp hv
        exact List.mem_map.mpr ⟨x, hx, by simp [hkx]⟩
      · exact List.mem_map.mpr ⟨u, hu, by simp [hk]⟩
  · rename_i hv
    rw [List.mem_append, List.mem_singleton]
    constructor
    · rintro (hu | hu)
      · exact Or.inr ⟨hu, fun hk => hv (hk ▸ List.mem_map_of_mem hu)⟩
      · exact Or.inl hu
    · rintro (hu | ⟨hu, -⟩)
      · exact Or.inr hu
      · exact Or.inl hu

@[simp] theorem mem_erase {s : Store key} {u : ν} {k : κ} :
    u ∈ (s.erase k).entries ↔ u ∈ s.entries ∧ key u ≠ k := by
  simp [erase]

theorem get_put {s : Store key} {v : ν} {k : κ} :
    (s.put v).get k = if key v = k then some v else s.get k := by
  split
  · rename_i hk
    exact get_eq_some.mpr ⟨mem_put.mpr (Or.inl rfl), hk⟩
  · rename_i hk
    rcases hg : s.get k with _ | u
    · rw [get_eq_none] at hg ⊢
      intro u hu
      rcases mem_put.mp hu with rfl | ⟨hu, -⟩
      · exact hk
      · exact hg u hu
    · rw [get_eq_some] at hg ⊢
      exact ⟨mem_put.mpr (Or.inr ⟨hg.1, fun h => hk (h ▸ hg.2)⟩), hg.2⟩

theorem get_erase {s : Store key} {k k' : κ} :
    (s.erase k).get k' = if k' = k then none else s.get k' := by
  split
  · rename_i hk
    rw [get_eq_none]
    intro v hv
    rw [hk]
    exact (mem_erase.mp hv).2
  · rename_i hk
    rcases hg : s.get k' with _ | u
    · rw [get_eq_none] at hg ⊢
      exact fun v hv => hg v (mem_erase.mp hv).1
    · rw [get_eq_some] at hg ⊢
      exact ⟨mem_erase.mpr ⟨hg.1, fun h => hk (hg.2 ▸ h)⟩, hg.2⟩

omit [DecidableEq κ] in
/-- A store is determined by its entries. -/
theorem ext {s t : Store key} (h : s.entries = t.entries) : s = t := by
  cases s; cases t
  simp_all

theorem entries_put_of_mem {s : Store key} {v : ν} (h : key v ∈ s.entries.map key) :
    (s.put v).entries = s.entries.map fun u => if key u = key v then v else u := if_pos h

theorem entries_put_of_not_mem {s : Store key} {v : ν} (h : key v ∉ s.entries.map key) :
    (s.put v).entries = s.entries ++ [v] := if_neg h

/-- The entries whose key passes a test. -/
def restrict (s : Store key) (p : κ → Bool) : Store key where
  entries := s.entries.filter fun v => p (key v)
  nodup := s.nodup.sublist (List.Sublist.map key List.filter_sublist)

omit [DecidableEq κ] in
@[simp] theorem entries_restrict {s : Store key} {p : κ → Bool} :
    (s.restrict p).entries = s.entries.filter fun v => p (key v) := rfl

theorem get_restrict {s : Store key} {p : κ → Bool} {k : κ} (h : p k = true) :
    (s.restrict p).get k = s.get k := by
  rcases hg : s.get k with _ | v
  · rw [get_eq_none] at hg ⊢
    exact fun v hv => hg v (List.mem_filter.mp hv).1
  · rw [get_eq_some] at hg ⊢
    obtain ⟨hv, rfl⟩ := hg
    exact ⟨List.mem_filter.mpr ⟨hv, h⟩, rfl⟩

/-- Writing a key that passes and restricting commute. -/
theorem restrict_put {s : Store key} {p : κ → Bool} {v : ν} (h : p (key v) = true) :
    (s.put v).restrict p = (s.restrict p).put v := by
  apply ext
  have hmem : key v ∈ (s.restrict p).entries.map key ↔ key v ∈ s.entries.map key := by
    simp only [List.mem_map, entries_restrict, List.mem_filter]
    constructor
    · rintro ⟨u, ⟨hu, -⟩, huv⟩
      exact ⟨u, hu, huv⟩
    · rintro ⟨u, hu, huv⟩
      exact ⟨u, ⟨hu, huv ▸ h⟩, huv⟩
  by_cases hv : key v ∈ s.entries.map key
  · rw [entries_put_of_mem (hmem.mpr hv), entries_restrict, entries_restrict,
      entries_put_of_mem hv, List.filter_map]
    congr 1
    apply List.filter_congr
    intro u _
    by_cases hu : key u = key v
    · simp [hu]
    · simp [hu]
  · rw [entries_put_of_not_mem (mt hmem.mp hv), entries_restrict, entries_restrict,
      entries_put_of_not_mem hv, List.filter_append]
    simp [h]

/-- Writing a key that does not pass is not seen. -/
theorem restrict_put_of_not {s : Store key} {p : κ → Bool} {v : ν} (h : p (key v) = false) :
    (s.put v).restrict p = s.restrict p := by
  apply ext
  by_cases hv : key v ∈ s.entries.map key
  · rw [entries_restrict, entries_restrict, entries_put_of_mem hv, List.filter_map]
    have hsame : ∀ u ∈ s.entries.filter fun u => p (key u),
        (if key u = key v then v else u) = u := by
      intro u hu
      refine if_neg fun hk => ?_
      rw [← hk, (List.mem_filter.mp hu).2] at h
      cases h
    have hpass : (s.entries.filter ((fun u => p (key u)) ∘ fun u => if key u = key v then v else u)) =
        s.entries.filter fun u => p (key u) := by
      apply List.filter_congr
      intro u _
      by_cases hu : key u = key v
      · simp [hu]
      · simp [hu]
    rw [hpass, List.map_congr_left hsame, List.map_id']
  · rw [entries_restrict, entries_restrict, entries_put_of_not_mem hv, List.filter_append]
    simp [h]

theorem restrict_erase {s : Store key} {p : κ → Bool} {k : κ} :
    (s.erase k).restrict p = (s.restrict p).erase k :=
  ext (List.filter_comm _ _ _)

/-- Erasing a key that does not pass is not seen. -/
theorem restrict_erase_of_not {s : Store key} {p : κ → Bool} {k : κ} (h : p k = false) :
    (s.erase k).restrict p = s.restrict p := by
  apply ext
  rw [entries_restrict, entries_restrict, erase, List.filter_filter]
  apply List.filter_congr
  intro u _
  by_cases hu : key u = k
  · simp [hu, h]
  · simp [hu]

/-- Writing one key and erasing another commute. -/
theorem erase_put {s : Store key} {v : ν} {k : κ} (h : key v ≠ k) :
    (s.put v).erase k = (s.erase k).put v :=
  restrict_put (p := fun k' => decide (k' ≠ k)) (decide_eq_true h)

end Store

end Kleym
