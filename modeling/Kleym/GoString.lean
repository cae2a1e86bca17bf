import Mathlib.Data.List.Sort
import Mathlib.Data.List.Lex
import Mathlib.Data.List.Infix

/-!
# Go strings

A Go string is a sequence of bytes, usually but not always UTF-8. Comparison,
length, prefixes and concatenation are all bytewise, so a string is a list of
bytes here and the operators of the language are the list operations. The two
library functions that look at runes rather than bytes are `trimSpace` and
lower-casing; the first is spelled out below over the encodings of the space
runes, the second stays with whoever needs it.
-/

namespace Kleym

/-- A Go string: its bytes. -/
abbrev GoString : Type := List UInt8

/-- The bytes of a string literal. -/
def str (s : String) : GoString := s.toByteArray.data.toList

instance byteLinearOrder : LinearOrder UInt8 where
  le_refl := UInt8.le_refl
  le_trans _ _ _ := UInt8.le_trans
  le_antisymm _ _ := UInt8.le_antisymm
  le_total := UInt8.le_total
  lt_iff_le_not_ge a b := by
    rw [UInt8.not_le]
    exact ⟨fun h => ⟨UInt8.le_of_lt h, h⟩, fun h => h.2⟩
  toDecidableLE := inferInstance

namespace GoString

instance lawfulBEq : LawfulBEq GoString := inferInstance

/-! ## Prefixes and separators -/

/-- `strings.HasPrefix`. -/
def hasPrefix (s pre : GoString) : Bool := pre.isPrefixOf s

/-- `strings.TrimPrefix`: the string itself when the prefix is not there. -/
def trimPrefix (s pre : GoString) : GoString :=
  if s.hasPrefix pre then s.drop pre.length else s

/-- `strings.CutPrefix`: the string without the prefix, when it is there. -/
def cutPrefix (s pre : GoString) : Option GoString :=
  if s.hasPrefix pre then some (s.drop pre.length) else none

/-- `strings.Contains`. -/
def contains (s sub : GoString) : Bool := decide (sub <:+: s)

/-- `strings.Join`. -/
def join (sep : GoString) : List GoString → GoString
  | [] => []
  | [s] => s
  | s :: rest => s ++ sep ++ join sep rest

/-- A string has the prefix `pre` exactly when cutting `pre` off and putting it
back gives the string. -/
theorem eq_append_of_hasPrefix {s pre : GoString} (h : s.hasPrefix pre = true) :
    s = pre ++ s.trimPrefix pre := by
  obtain ⟨t, rfl⟩ := List.isPrefixOf_iff_prefix.mp h
  rw [trimPrefix, if_pos h, List.drop_left]

@[simp] theorem hasPrefix_append (pre s : GoString) : (pre ++ s).hasPrefix pre = true :=
  List.isPrefixOf_iff_prefix.mpr (List.prefix_append pre s)

@[simp] theorem trimPrefix_append (pre s : GoString) : (pre ++ s).trimPrefix pre = s := by
  rw [trimPrefix, if_pos (hasPrefix_append pre s), List.drop_left]

@[simp] theorem cutPrefix_append (pre s : GoString) : (pre ++ s).cutPrefix pre = some s := by
  rw [cutPrefix, if_pos (hasPrefix_append pre s), List.drop_left]

theorem cutPrefix_eq_some {s pre rest : GoString} :
    s.cutPrefix pre = some rest ↔ s = pre ++ rest := by
  constructor
  · intro h
    rw [cutPrefix] at h
    split_ifs at h with hpre
    obtain ⟨t, rfl⟩ := List.isPrefixOf_iff_prefix.mp hpre
    rw [List.drop_left, Option.some.injEq] at h
    rw [h]
  · rintro rfl
    exact cutPrefix_append pre rest

/-- Searching for a single byte is membership. -/
theorem contains_singleton {s : GoString} {b : UInt8} : s.contains [b] = true ↔ b ∈ s := by
  rw [contains, decide_eq_true_iff]
  constructor
  · intro h
    exact h.subset (List.mem_singleton_self b)
  · intro h
    obtain ⟨u, v, rfl⟩ := List.append_of_mem h
    exact ⟨u, v, by simp⟩

/-- Two strings that agree up to the first separator agree in the part before
it and in the part after it. -/
theorem append_sep_inj {b : UInt8} {x y u v : GoString} (hx : b ∉ x) (hy : b ∉ y)
    (h : x ++ b :: u = y ++ b :: v) : x = y ∧ u = v := by
  induction x generalizing y with
  | nil =>
    cases y with
    | nil => exact ⟨rfl, (List.cons.inj h).2⟩
    | cons c y => exact absurd (List.cons.inj h).1 fun hc => hy (hc ▸ List.mem_cons_self)
  | cons a x ih =>
    cases y with
    | nil => exact absurd (List.cons.inj h).1 fun hc => hx (hc ▸ List.mem_cons_self)
    | cons c y =>
      obtain ⟨hac, hrest⟩ := List.cons.inj h
      have hx' : b ∉ x := fun hb => hx (List.mem_cons_of_mem a hb)
      have hy' : b ∉ y := fun hb => hy (List.mem_cons_of_mem c hb)
      obtain ⟨hxy, huv⟩ := ih hx' hy' hrest
      exact ⟨by rw [hac, hxy], huv⟩

/-- `strings.Cut` at a single byte: what is before and after its first occurrence. -/
def cut (b : UInt8) : GoString → Option (GoString × GoString)
  | [] => none
  | c :: s => if c = b then some ([], s) else (cut b s).map fun parts => (c :: parts.1, parts.2)

theorem cut_append {b : UInt8} {x : GoString} (h : b ∉ x) (y : GoString) :
    cut b (x ++ b :: y) = some (x, y) := by
  induction x with
  | nil => rw [List.nil_append, cut, if_pos rfl]
  | cons c x ih =>
    rw [List.mem_cons, not_or] at h
    rw [List.cons_append, cut, if_neg (Ne.symm h.1), ih h.2, Option.map_some]

/-- A string cannot start with two strings neither of which starts with the other. -/
theorem hasPrefix_eq_false {s a b : GoString} (h : s.hasPrefix a = true)
    (hab : a.isPrefixOf b = false) (hba : b.isPrefixOf a = false) : s.hasPrefix b = false := by
  rw [Bool.eq_false_iff]
  intro hb
  rcases List.prefix_or_prefix_of_prefix (List.isPrefixOf_iff_prefix.mp h)
      (List.isPrefixOf_iff_prefix.mp hb) with hp | hp
  · rw [List.isPrefixOf_iff_prefix.mpr hp] at hab
    cases hab
  · rw [List.isPrefixOf_iff_prefix.mpr hp] at hba
    cases hba

/-! ## Trimming

`strings.TrimSpace` removes leading and trailing runes with the Unicode
property White_Space. A space rune at either end of the string shows there as
its complete UTF-8 encoding, also when the rest of the string is not valid
UTF-8, so trimming is stripping these encodings. -/

/-- The UTF-8 encodings of the White_Space runes: the six ASCII ones, U+0085,
U+00A0, U+1680, U+2000 to U+200A, U+2028, U+2029, U+202F, U+205F, U+3000. -/
def spaceRunes : List GoString :=
  [[0x09], [0x0A], [0x0B], [0x0C], [0x0D], [0x20], [0xC2, 0x85], [0xC2, 0xA0],
    [0xE1, 0x9A, 0x80], [0xE2, 0x80, 0x80], [0xE2, 0x80, 0x81], [0xE2, 0x80, 0x82],
    [0xE2, 0x80, 0x83], [0xE2, 0x80, 0x84], [0xE2, 0x80, 0x85], [0xE2, 0x80, 0x86],
    [0xE2, 0x80, 0x87], [0xE2, 0x80, 0x88], [0xE2, 0x80, 0x89], [0xE2, 0x80, 0x8A],
    [0xE2, 0x80, 0xA8], [0xE2, 0x80, 0xA9], [0xE2, 0x80, 0xAF], [0xE2, 0x81, 0x9F],
    [0xE3, 0x80, 0x80]]

/-- What is left of `s` after the first of the patterns that it starts with. -/
def stripOne (patterns : List GoString) (s : GoString) : Option GoString :=
  patterns.findSome? fun p => if s.hasPrefix p then some (s.drop p.length) else none

/-- Strip patterns from the front until none is left, at most `fuel` times. -/
def stripAll (patterns : List GoString) : ℕ → GoString → GoString
  | 0, s => s
  | fuel + 1, s =>
    match stripOne patterns s with
    | some rest => stripAll patterns fuel rest
    | none => s

/-- `strings.TrimLeftFunc(s, unicode.IsSpace)`; every pattern has at least one
byte, so the length of the string is fuel enough. -/
def trimLeft (s : GoString) : GoString := stripAll spaceRunes s.length s

/-- `strings.TrimRightFunc(s, unicode.IsSpace)`: the same from the other end. -/
def trimRight (s : GoString) : GoString :=
  (stripAll (spaceRunes.map List.reverse) s.length s.reverse).reverse

/-- `strings.TrimSpace`. -/
def trimSpace (s : GoString) : GoString := trimRight (trimLeft s)

@[simp] theorem trimSpace_nil : trimSpace [] = [] := rfl

/-- `strings.Trim(s, "c")` for a single-byte cutset. -/
def trimByte (s : GoString) (c : UInt8) : GoString :=
  ((s.dropWhile (· == c)).reverse.dropWhile (· == c)).reverse

/-! ## Hexadecimal -/

/-- The lower-case hexadecimal digit of a value below 16. -/
def hexDigit (n : UInt8) : UInt8 := if n < 10 then 48 + n else 87 + n

/-- `hex.EncodeToString`. -/
def hexEncode (bytes : List UInt8) : GoString :=
  bytes.flatMap fun b => [hexDigit (b / 16), hexDigit (b % 16)]

/-! ## Sorting by a text -/

section Sorting

variable {α : Type} (text : α → GoString)

instance : Std.Total fun a b => text a ≤ text b := ⟨fun _ _ => le_total _ _⟩

instance : IsTrans α fun a b => text a ≤ text b := ⟨fun _ _ _ => le_trans⟩

/-- Sorting by texts that are all different leaves no two neighbours equal. -/
theorem pairwise_lt_insertionSort {l : List α} (h : (l.map text).Nodup) :
    (l.insertionSort fun a b => text a ≤ text b).Pairwise fun a b => text a < text b := by
  have hsorted := List.pairwise_insertionSort (fun a b => text a ≤ text b) l
  have hdistinct : (l.insertionSort fun a b => text a ≤ text b).Pairwise
      fun a b => text a ≠ text b := by
    rw [← List.pairwise_map (f := text)]
    exact ((List.perm_insertionSort _ l).map text).nodup_iff.mpr h
  exact hsorted.imp₂ (fun _ _ hle hne => lt_of_le_of_ne hle hne) hdistinct

end Sorting

end GoString

end Kleym
