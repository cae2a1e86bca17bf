import Kleym.Identity
import Kleym.Framing
import Kleym.Trimming
import Mathlib.Data.Set.Defs

/-!
# Canonical selector lists and their fingerprint

`uniqueAndSorted` keeps of a list its trimmed non-blank elements, each once and
in ascending order. Its result therefore depends on that *set* alone
(`uniqueAndSorted_eq_iff`), which is what makes it insensitive to the order,
repetition and padding of its input. `fingerprintStream` writes the canonical
list as length-framed records; a record's payload may contain any byte, so that
the stream determines the list rests on the length being read first
(`fingerprintStream_inj`).
-/

namespace Kleym

open GoString

/-- What a list of selectors says: its trimmed elements other than the empty one. -/
def canonicalSet (values : List GoString) : Set GoString :=
  {x | x ≠ [] ∧ ∃ v ∈ values, trimSpace v = x}

section Canonical

variable {l l' : List GoString} {x v : GoString}

@[simp] theorem mem_canonicalSet :
    x ∈ canonicalSet l ↔ x ≠ [] ∧ ∃ v ∈ l, trimSpace v = x := Iff.rfl

theorem mem_uniqueAndSorted : x ∈ uniqueAndSorted l ↔ x ∈ canonicalSet l := by
  rw [uniqueAndSorted, List.mem_insertionSort, List.mem_dedup, List.mem_filter, List.mem_map,
    decide_eq_true_iff, and_comm, mem_canonicalSet]

theorem nodup_uniqueAndSorted (l : List GoString) : (uniqueAndSorted l).Nodup :=
  (List.perm_insertionSort _ _).nodup_iff.mpr (List.nodup_dedup _)

/-- The result is strictly ascending: sorted, and without repetition. -/
theorem pairwise_uniqueAndSorted (l : List GoString) : (uniqueAndSorted l).Pairwise (· < ·) := by
  have hsorted : (uniqueAndSorted l).Pairwise (· ≤ ·) := List.pairwise_insertionSort _ _
  exact hsorted.imp₂ (fun _ _ hle hne => lt_of_le_of_ne hle hne) (nodup_uniqueAndSorted l)

/-- **What is canonical about it**: the result depends on the set of trimmed
non-blank elements, and on nothing else. -/
theorem uniqueAndSorted_eq_iff :
    uniqueAndSorted l = uniqueAndSorted l' ↔ canonicalSet l = canonicalSet l' := by
  constructor
  · intro h
    ext x
    rw [← mem_uniqueAndSorted, h, mem_uniqueAndSorted]
  · intro h
    refine (pairwise_uniqueAndSorted l).eq_of_mem_iff (pairwise_uniqueAndSorted l') ?_
    intro x
    rw [mem_uniqueAndSorted, h, mem_uniqueAndSorted]

/-- Every element of the result is trimmed already. -/
theorem trimSpace_of_mem_uniqueAndSorted (hx : x ∈ uniqueAndSorted l) : trimSpace x = x := by
  obtain ⟨-, v, -, rfl⟩ := mem_uniqueAndSorted.mp hx
  exact trimSpace_trimSpace v

theorem canonicalSet_uniqueAndSorted (l : List GoString) :
    canonicalSet (uniqueAndSorted l) = canonicalSet l := by
  ext x
  rw [← mem_uniqueAndSorted (l := l), mem_canonicalSet]
  constructor
  · rintro ⟨-, v, hv, rfl⟩
    rwa [trimSpace_of_mem_uniqueAndSorted hv]
  · intro hx
    exact ⟨(mem_uniqueAndSorted.mp hx).1, x, hx, trimSpace_of_mem_uniqueAndSorted hx⟩

theorem canonicalSet_perm (h : l.Perm l') : canonicalSet l = canonicalSet l' := by
  ext x
  simp only [mem_canonicalSet, h.mem_iff]

theorem canonicalSet_cons_of_mem (hv : v ∈ l) : canonicalSet (v :: l) = canonicalSet l := by
  ext x
  simp only [mem_canonicalSet, List.mem_cons, exists_eq_or_imp]
  refine and_congr_right fun _ => ⟨?_, Or.inr⟩
  rintro (rfl | hx)
  · exact ⟨v, hv, rfl⟩
  · exact hx

theorem mem_canonicalSet_append :
    x ∈ canonicalSet (l ++ l') ↔ x ∈ canonicalSet l ∨ x ∈ canonicalSet l' := by
  simp only [mem_canonicalSet, List.mem_append, or_and_right, exists_or, and_or_left]

/-- Of a list that is trimmed already, and has no empty element, nothing changes. -/
theorem mem_canonicalSet_of_trimmed (h : ∀ v ∈ l, trimSpace v = v ∧ v ≠ []) :
    x ∈ canonicalSet l ↔ x ∈ l := by
  rw [mem_canonicalSet]
  constructor
  · rintro ⟨-, v, hv, rfl⟩
    rwa [(h v hv).1]
  · intro hx
    exact ⟨(h x hx).2, x, hx, (h x hx).1⟩

/-- `w` is `v` with space runes around it. -/
def Padded (v w : GoString) : Prop := ∃ a b, Blank a ∧ Blank b ∧ w = a ++ v ++ b

theorem map_trimSpace_of_padded (h : List.Forall₂ Padded l l') :
    l'.map trimSpace = l.map trimSpace := by
  induction h with
  | nil => rfl
  | cons hvw _ ih =>
    obtain ⟨a, b, ha, hb, rfl⟩ := hvw
    rw [List.map_cons, List.map_cons, ih, trimSpace_padded ha hb]

end Canonical

/-! ## The fingerprint -/

theorem toNat_digit {n d : ℕ} (hd : d ∈ Nat.digits 10 n) :
    (UInt8.ofNat (48 + d)).toNat = 48 + d := by
  have hlt : d < 10 := Nat.digits_lt_base (by decide) hd
  exact UInt8.toNat_ofNat_of_lt' (show 48 + d < 256 by omega)

/-- The digits of a length can be read back. -/
theorem ofDigits_itoa (n : ℕ) :
    Nat.ofDigits 10 ((itoa n).reverse.map fun b => b.toNat - 48) = n := by
  rw [itoa]
  split
  · rename_i h
    rw [h]
    rfl
  · rw [← List.map_reverse, List.reverse_reverse, List.map_map]
    have hdigit : ∀ d ∈ Nat.digits 10 n,
        ((fun b : UInt8 => b.toNat - 48) ∘ fun d => UInt8.ofNat (48 + d)) d = d := by
      intro d hd
      rw [Function.comp_apply, toNat_digit hd, Nat.add_sub_cancel_left]
    rw [List.map_congr_left hdigit, List.map_id', Nat.ofDigits_digits]

theorem itoa_injective : Function.Injective itoa := by
  intro m n h
  rw [← ofDigits_itoa m, h, ofDigits_itoa]

/-- A length is written in decimal digits, none of which is NUL. -/
theorem zero_not_mem_itoa (n : ℕ) : (0 : UInt8) ∉ itoa n := by
  rw [itoa]
  split
  · decide
  · rw [List.mem_map]
    rintro ⟨d, hd, h⟩
    have h48 := congrArg UInt8.toNat h
    rw [toNat_digit (List.mem_reverse.mp hd), UInt8.toNat_zero] at h48
    omega

/-- The stream determines the canonical list. -/
theorem fingerprintStream_inj {l l' : List GoString}
    (h : fingerprintStream l = fingerprintStream l') : uniqueAndSorted l = uniqueAndSorted l' :=
  (selfDelimiting_length itoa_injective zero_not_mem_itoa).flatMap_injective h

theorem fingerprintStream_eq_iff {l l' : List GoString} :
    fingerprintStream l = fingerprintStream l' ↔ canonicalSet l = canonicalSet l' := by
  rw [← uniqueAndSorted_eq_iff]
  refine ⟨fingerprintStream_inj, fun h => ?_⟩
  rw [fingerprintStream, h, fingerprintStream]

/-- Fingerprints are equal exactly when the digests are: the rest of the text is
fixed and hex encoding loses nothing. -/
theorem selectorFingerprint_eq_iff {P : Platform} {l l' : List GoString} :
    selectorFingerprint P l = selectorFingerprint P l' ↔
      P.sha256 (fingerprintStream l) = P.sha256 (fingerprintStream l') := by
  rw [selectorFingerprint, selectorFingerprint, List.append_right_inj, hexEncode_injective.eq_iff]

/-- **The fingerprint identifies the selector set.** Two lists feed the hash the
same bytes exactly when they have the same trimmed non-blank elements, so they
get the same fingerprint exactly then, if the hash does not collide on the two
streams; and canonicalising is idempotent, strictly ascending, and blind to the
order, the repetition and the padding of its input. -/
theorem selectorFingerprint_identifies_set (P : Platform) (l l' : List GoString) :
    (fingerprintStream l = fingerprintStream l' ↔ canonicalSet l = canonicalSet l') ∧
    ((P.sha256 (fingerprintStream l) = P.sha256 (fingerprintStream l') →
        fingerprintStream l = fingerprintStream l') →
      (selectorFingerprint P l = selectorFingerprint P l' ↔ canonicalSet l = canonicalSet l')) ∧
    uniqueAndSorted (uniqueAndSorted l) = uniqueAndSorted l ∧
    (uniqueAndSorted l).Pairwise (· < ·) ∧
    (l.Perm l' → uniqueAndSorted l = uniqueAndSorted l') ∧
    (∀ v ∈ l, uniqueAndSorted (v :: l) = uniqueAndSorted l) ∧
    (List.Forall₂ Padded l l' → uniqueAndSorted l = uniqueAndSorted l') := by
  refine ⟨fingerprintStream_eq_iff, ?_, ?_, pairwise_uniqueAndSorted l, ?_, ?_, ?_⟩
  · intro hfree
    rw [selectorFingerprint_eq_iff, ← fingerprintStream_eq_iff]
    exact ⟨hfree, congrArg P.sha256⟩
  · exact uniqueAndSorted_eq_iff.mpr (canonicalSet_uniqueAndSorted l)
  · intro h
    exact uniqueAndSorted_eq_iff.mpr (canonicalSet_perm h)
  · intro v hv
    exact uniqueAndSorted_eq_iff.mpr (canonicalSet_cons_of_mem hv)
  · intro h
    rw [uniqueAndSorted, uniqueAndSorted, map_trimSpace_of_padded h]

end Kleym
