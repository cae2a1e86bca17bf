import Kleym.GoString

/-!
# Self-delimiting frames

A list of values is written to a byte stream by writing each value in turn. The
stream determines the list when each value's frame shows where it ends: whatever
follows two frames, equal streams start with frames of the same value. Hex
encoding is the simplest case, with two bytes to a frame; a frame that starts
with its payload's length is the other one used here, and its payload may hold
any byte at all.
-/

namespace Kleym

/-- How a value is written, such that the reader knows where the frame ends. -/
structure SelfDelimiting {α β : Type*} (frame : α → List β) : Prop where
  ne_nil : ∀ a, frame a ≠ []
  split : ∀ {a b u v}, frame a ++ u = frame b ++ v → a = b ∧ u = v

/-- The concatenated frames of a list can be read back. -/
theorem SelfDelimiting.flatMap_injective {α β : Type*} {frame : α → List β}
    (hframe : SelfDelimiting frame) : Function.Injective (List.flatMap frame) := by
  intro l
  induction l with
  | nil =>
    intro l' h
    cases l' with
    | nil => rfl
    | cons b l' =>
      obtain ⟨hb, -⟩ := List.append_eq_nil_iff.mp (h.symm.trans List.flatMap_nil)
      exact absurd hb (hframe.ne_nil b)
  | cons a l ih =>
    intro l' h
    cases l' with
    | nil =>
      obtain ⟨ha, -⟩ := List.append_eq_nil_iff.mp (h.trans List.flatMap_nil)
      exact absurd ha (hframe.ne_nil a)
    | cons b l' =>
      rw [List.flatMap_cons, List.flatMap_cons] at h
      obtain ⟨hab, hrest⟩ := hframe.split h
      rw [hab, ih hrest]

namespace GoString

theorem hexDigit_inj {m n : UInt8} (hm : m < 16) (hn : n < 16) (h : hexDigit m = hexDigit n) :
    m = n := by
  rw [hexDigit, hexDigit] at h
  rw [UInt8.lt_iff_toNat_lt] at hm hn
  rw [← UInt8.toNat_inj] at h ⊢
  -- digits end at 57 and letters start at 97
  split_ifs at h with h₁ h₂ h₂ <;> rw [UInt8.lt_iff_toNat_lt] at h₁ h₂ <;>
    simp only [UInt8.toNat_add, UInt8.reduceToNat] at hm hn h h₁ h₂ <;> omega

theorem nibbles_lt (b : UInt8) : b / 16 < 16 ∧ b % 16 < 16 := by
  have hb := b.toNat_lt
  simp only [UInt8.lt_iff_toNat_lt, UInt8.toNat_div, UInt8.toNat_mod, UInt8.reduceToNat]
  omega

theorem selfDelimiting_hex :
    SelfDelimiting fun b : UInt8 => [hexDigit (b / 16), hexDigit (b % 16)] where
  ne_nil _ := List.cons_ne_nil _ _
  split := by
    intro a b u v h
    simp only [List.cons_append, List.nil_append, List.cons.injEq] at h
    obtain ⟨hhigh, hlow, huv⟩ := h
    have hdiv := hexDigit_inj (nibbles_lt a).1 (nibbles_lt b).1 hhigh
    have hmod := hexDigit_inj (nibbles_lt a).2 (nibbles_lt b).2 hlow
    rw [← UInt8.toNat_inj, UInt8.toNat_div, UInt8.toNat_div] at hdiv
    rw [← UInt8.toNat_inj, UInt8.toNat_mod, UInt8.toNat_mod] at hmod
    simp only [UInt8.reduceToNat] at hdiv hmod
    exact ⟨UInt8.toNat_inj.mp (by omega), huv⟩

theorem length_hexEncode (bytes : List UInt8) : (hexEncode bytes).length = 2 * bytes.length := by
  rw [hexEncode, List.length_flatMap]
  simp [Nat.mul_comm]

theorem hexEncode_injective : Function.Injective hexEncode :=
  selfDelimiting_hex.flatMap_injective

/-- A payload behind its length: the length ends at the first separator, which
no length contains, and says how far the payload reaches. -/
theorem selfDelimiting_length {width : ℕ → GoString} {b : UInt8} (hinj : Function.Injective width)
    (hsep : ∀ n, b ∉ width n) :
    SelfDelimiting fun s : GoString => width s.length ++ [b] ++ s ++ [b] where
  ne_nil s := by simp
  split := by
    intro s t u v h
    simp only [List.append_assoc, List.singleton_append] at h
    obtain ⟨hwidth, hrest⟩ := append_sep_inj (hsep s.length) (hsep t.length) h
    obtain ⟨hst, huv⟩ := List.append_inj hrest (hinj hwidth)
    exact ⟨hst, (List.cons.inj huv).2⟩

end GoString

end Kleym
