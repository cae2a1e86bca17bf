import Kleym.GoString

/-!
# Trimming

`strings.TrimSpace` strips the encodings of space runes from both ends of a string. What
holds of it rests on three facts about these encodings: none is a prefix or a suffix of
another one, none is empty, and a byte that continues an encoding starts none. From them:
trimming twice is trimming once, and putting space around a string does not change what
trimming leaves of it.
-/

namespace Kleym

namespace GoString

/-! ## Stripping patterns from the front -/

section

variable {patterns : List GoString} {p s t : GoString}

theorem stripOne_eq_none : stripOne patterns s = none ↔ ∀ p ∈ patterns, ¬p <+: s := by
  simp [stripOne, hasPrefix]

theorem of_stripOne (h : stripOne patterns s = some t) : ∃ p ∈ patterns, s = p ++ t := by
  obtain ⟨p, hp, hfound⟩ := List.exists_of_findSome?_eq_some h
  split_ifs at hfound with hstart
  obtain ⟨u, rfl⟩ := List.isPrefixOf_iff_prefix.mp hstart
  refine ⟨p, hp, ?_⟩
  rw [List.drop_left, Option.some.injEq] at hfound
  rw [hfound]

/-- No pattern is a prefix of another one, and none is empty. -/
structure PrefixCode (patterns : List GoString) : Prop where
  nonempty : [] ∉ patterns
  free : ∀ p ∈ patterns, ∀ q ∈ patterns, p <+: q → p = q

variable (hcode : PrefixCode patterns)

include hcode

theorem stripOne_append (hp : p ∈ patterns) (s : GoString) :
    stripOne patterns (p ++ s) = some s := by
  rcases h : stripOne patterns (p ++ s) with _ | t
  · exact absurd (List.prefix_append p s) (stripOne_eq_none.mp h p hp)
  · obtain ⟨q, hq, heq⟩ := of_stripOne h
    have hpq : p = q := by
      rcases List.prefix_or_prefix_of_prefix (List.prefix_append p s)
        (heq ▸ List.prefix_append q t) with h' | h'
      · exact hcode.free p hp q hq h'
      · exact (hcode.free q hq p hp h').symm
    rw [hpq] at heq
    rw [List.append_cancel_left heq]

theorem length_lt_of_stripOne (h : stripOne patterns s = some t) : t.length < s.length := by
  obtain ⟨p, hp, rfl⟩ := of_stripOne h
  have hpos : 0 < p.length := List.length_pos_of_ne_nil fun hnil => hcode.nonempty (hnil ▸ hp)
  rw [List.length_append]
  omega

/-- With fuel enough, the fuel does not matter. -/
theorem stripAll_fuel {n : ℕ} (hn : s.length ≤ n) :
    stripAll patterns n s = stripAll patterns s.length s := by
  induction n using Nat.strong_induction_on generalizing s with
  | _ n ih =>
    rcases h : stripOne patterns s with _ | t
    · cases n <;> cases hs : s.length <;> simp [stripAll, h]
    · have hlt := length_lt_of_stripOne hcode h
      obtain ⟨m, rfl⟩ : ∃ m, n = m + 1 := ⟨n - 1, by omega⟩
      obtain ⟨k, hk⟩ : ∃ k, s.length = k + 1 := ⟨s.length - 1, by omega⟩
      rw [hk, stripAll, stripAll, h]
      dsimp only
      rw [ih m (by omega) (by omega), ih k (by omega) (by omega)]

/-- Stripping a pattern and then the rest. -/
theorem stripAll_of_some (h : stripOne patterns s = some t) :
    stripAll patterns s.length s = stripAll patterns t.length t := by
  have hlt := length_lt_of_stripOne hcode h
  obtain ⟨k, hk⟩ : ∃ k, s.length = k + 1 := ⟨s.length - 1, by omega⟩
  rw [hk, stripAll, h]
  exact stripAll_fuel hcode (by omega)

omit hcode in
/-- A byte of no pattern stays. -/
theorem mem_stripAll {c : UInt8} (hc : ∀ p ∈ patterns, c ∉ p) (h : c ∈ s) (n : ℕ) :
    c ∈ stripAll patterns n s := by
  induction n generalizing s with
  | zero => exact h
  | succ n ih =>
    rw [stripAll]
    split
    · rename_i t hstrip
      obtain ⟨p, hp, rfl⟩ := of_stripOne hstrip
      exact ih ((List.mem_append.mp h).resolve_left (hc p hp))
    · exact h

omit hcode in
theorem stripAll_of_none (h : stripOne patterns s = none) (n : ℕ) : stripAll patterns n s = s := by
  cases n with
  | zero => rfl
  | succ n => rw [stripAll, h]

/-- What is left starts with no pattern, and is an end of the string. -/
theorem stripAll_spec (s : GoString) :
    stripOne patterns (stripAll patterns s.length s) = none ∧
      stripAll patterns s.length s <:+ s := by
  induction hn : s.length using Nat.strong_induction_on generalizing s with
  | _ n ih =>
    subst hn
    rcases h : stripOne patterns s with _ | t
    · rw [stripAll_of_none h]
      exact ⟨h, List.suffix_rfl⟩
    · rw [stripAll_of_some hcode h]
      obtain ⟨hnone, hsuffix⟩ := ih t.length (length_lt_of_stripOne hcode h) t rfl
      obtain ⟨p, -, rfl⟩ := of_stripOne h
      exact ⟨hnone, hsuffix.trans (List.suffix_append p t)⟩

end

/-! ## Space runes -/

theorem prefixCode_spaceRunes : PrefixCode spaceRunes := ⟨by decide, by decide⟩

theorem prefixCode_reversed : PrefixCode (spaceRunes.map List.reverse) := ⟨by decide, by decide⟩

/-- A byte that continues the encoding of a space rune does not start one. -/
theorem head_ne_of_mem_tail : ∀ p ∈ spaceRunes, ∀ c ∈ p.tail, ∀ q ∈ spaceRunes,
    q.head? ≠ some c := by
  have hall : (spaceRunes.all fun p => p.tail.all fun c => spaceRunes.all fun q =>
      q.head? != some c) = true := by decide +kernel
  intro p hp c hc q hq
  have hc := List.all_eq_true.mp (List.all_eq_true.mp hall p hp) c hc
  simpa using List.all_eq_true.mp hc q hq

/-- A string that consists of space runes. -/
def Blank (s : GoString) : Prop := ∃ runes : List GoString, (∀ p ∈ runes, p ∈ spaceRunes) ∧
  s = runes.flatten

theorem trimLeft_cons {p : GoString} (hp : p ∈ spaceRunes) (s : GoString) :
    trimLeft (p ++ s) = trimLeft s :=
  stripAll_of_some prefixCode_spaceRunes (stripOne_append prefixCode_spaceRunes hp s)

theorem trimRight_eq (s : GoString) : trimRight s =
    (stripAll (spaceRunes.map List.reverse) s.reverse.length s.reverse).reverse := by
  rw [trimRight, List.length_reverse]

theorem trimRight_concat {p : GoString} (hp : p ∈ spaceRunes) (s : GoString) :
    trimRight (s ++ p) = trimRight s := by
  have hrev : p.reverse ∈ spaceRunes.map List.reverse := List.mem_map_of_mem hp
  have hone : stripOne (spaceRunes.map List.reverse) (s ++ p).reverse = some s.reverse := by
    rw [List.reverse_append]
    exact stripOne_append prefixCode_reversed hrev s.reverse
  rw [trimRight_eq, stripAll_of_some prefixCode_reversed hone, ← trimRight_eq]

theorem trimLeft_blank {a : GoString} (ha : Blank a) (s : GoString) :
    trimLeft (a ++ s) = trimLeft s := by
  obtain ⟨runes, hrunes, rfl⟩ := ha
  induction runes with
  | nil => rfl
  | cons p rest ih =>
    rw [List.flatten_cons, List.append_assoc, trimLeft_cons (hrunes p List.mem_cons_self)]
    exact ih fun q hq => hrunes q (List.mem_cons_of_mem p hq)

theorem trimRight_blank {b : GoString} (hb : Blank b) (s : GoString) :
    trimRight (s ++ b) = trimRight s := by
  obtain ⟨runes, hrunes, rfl⟩ := hb
  induction runes generalizing s with
  | nil => rw [List.flatten_nil, List.append_nil]
  | cons p rest ih =>
    rw [List.flatten_cons, ← List.append_assoc,
      ih (s ++ p) fun q hq => hrunes q (List.mem_cons_of_mem p hq),
      trimRight_concat (hrunes p List.mem_cons_self)]

/-! ## What trimming leaves -/

theorem trimLeft_eq_self {s : GoString} : trimLeft s = s ↔ ∀ p ∈ spaceRunes, ¬p <+: s := by
  rw [← stripOne_eq_none]
  constructor
  · intro h
    rw [← h]
    exact (stripAll_spec prefixCode_spaceRunes s).1
  · exact fun h => stripAll_of_none h s.length

theorem trimRight_eq_self {s : GoString} : trimRight s = s ↔ ∀ p ∈ spaceRunes, ¬p <:+ s := by
  have hreverse : (∀ p ∈ spaceRunes, ¬p <:+ s) ↔
      stripOne (spaceRunes.map List.reverse) s.reverse = none := by
    rw [stripOne_eq_none]
    constructor
    · intro h q hq
      obtain ⟨p, hp, rfl⟩ := List.mem_map.mp hq
      rw [List.reverse_prefix]
      exact h p hp
    · intro h p hp
      rw [← List.reverse_prefix]
      exact h p.reverse (List.mem_map_of_mem hp)
  rw [hreverse]
  constructor
  · intro h
    have hspec := (stripAll_spec prefixCode_reversed s.reverse).1
    rwa [← List.reverse_reverse (stripAll _ _ _), ← trimRight_eq, h] at hspec
  · intro h
    rw [trimRight_eq, stripAll_of_none h, List.reverse_reverse]

theorem prefix_trimRight (s : GoString) : trimRight s <+: s := by
  rw [trimRight_eq, ← List.reverse_suffix, List.reverse_reverse]
  exact (stripAll_spec prefixCode_reversed s.reverse).2

theorem trimRight_trimRight (s : GoString) : trimRight (trimRight s) = trimRight s := by
  rw [trimRight_eq_self]
  intro p hp hsuffix
  have hspec := stripOne_eq_none.mp (stripAll_spec prefixCode_reversed s.reverse).1
  refine hspec p.reverse (List.mem_map_of_mem hp) ?_
  rw [← List.reverse_suffix, List.reverse_reverse, ← trimRight_eq]
  exact hsuffix

/-- A string is trimmed when no space rune is at either end. -/
theorem trimSpace_eq_self {s : GoString} : trimSpace s = s ↔
    (∀ p ∈ spaceRunes, ¬p <+: s) ∧ ∀ p ∈ spaceRunes, ¬p <:+ s := by
  constructor
  · intro h
    have hlength : (trimLeft s).length = s.length := by
      have h₁ := (stripAll_spec prefixCode_spaceRunes s).2.length_le
      have h₂ := (prefix_trimRight (trimLeft s)).length_le
      rw [show trimRight (trimLeft s) = s from h] at h₂
      exact Nat.le_antisymm h₁ h₂
    have hleft : trimLeft s = s :=
      (stripAll_spec prefixCode_spaceRunes s).2.eq_of_length hlength
    rw [trimSpace, hleft] at h
    exact ⟨trimLeft_eq_self.mp hleft, trimRight_eq_self.mp h⟩
  · rintro ⟨hleft, hright⟩
    rw [trimSpace, trimLeft_eq_self.mpr hleft, trimRight_eq_self.mpr hright]

/-- Trimming twice is trimming once. -/
@[simp] theorem trimSpace_trimSpace (s : GoString) : trimSpace (trimSpace s) = trimSpace s := by
  have hleft : trimLeft (trimSpace s) = trimSpace s := by
    rw [trimLeft_eq_self]
    intro p hp hstart
    have hspec := stripOne_eq_none.mp (stripAll_spec prefixCode_spaceRunes s).1
    exact hspec p hp (hstart.trans (prefix_trimRight (trimLeft s)))
  rw [trimSpace, hleft]
  exact trimRight_trimRight (trimLeft s)

/-! ## Space around a string -/

/-- Behind a string that trimming leaves something of, space stays at the end. -/
theorem trimLeft_append_blank {b : GoString} (hb : Blank b) (s : GoString) :
    trimLeft (s ++ b) = if trimLeft s = [] then [] else trimLeft s ++ b := by
  induction hn : s.length using Nat.strong_induction_on generalizing s with
  | _ n ih =>
    subst hn
    rcases h : stripOne spaceRunes s with _ | t
    swap
    · have hlt := length_lt_of_stripOne prefixCode_spaceRunes h
      obtain ⟨p, hp, rfl⟩ := of_stripOne h
      rw [List.append_assoc, trimLeft_cons hp, trimLeft_cons hp]
      exact ih t.length hlt t rfl
    have hself : trimLeft s = s := stripAll_of_none h s.length
    rw [hself]
    split_ifs with hnil
    · rw [hnil, List.nil_append, ← List.append_nil b, trimLeft_blank hb]
      rfl
    -- no space rune starts in `s` and ends in `b`
    rw [trimLeft_eq_self]
    intro p hp hstart
    rcases List.prefix_or_prefix_of_prefix hstart (List.prefix_append s b) with h' | ⟨u, rfl⟩
    · exact stripOne_eq_none.mp h p hp h'
    have hu : u <+: b := (List.prefix_append_right_inj s).mp hstart
    obtain ⟨runes, hrunes, rfl⟩ := hb
    cases u with
    | nil => exact stripOne_eq_none.mp h (s ++ []) hp (by simp)
    | cons c u =>
      have hc : c ∈ (s ++ c :: u).tail := by
        cases s with
        | nil => exact absurd rfl hnil
        | cons d s => simp
      cases runes with
      | nil => simp at hu
      | cons q rest =>
        have hq := hrunes q List.mem_cons_self
        refine head_ne_of_mem_tail _ hp c hc q hq ?_
        cases q with
        | nil => exact absurd hq prefixCode_spaceRunes.nonempty
        | cons d q =>
          rw [List.flatten_cons, List.cons_append, List.cons_prefix_cons] at hu
          rw [hu.1, List.head?_cons]

/-- Space around a string is trimmed. -/
theorem trimSpace_padded {a b : GoString} (ha : Blank a) (hb : Blank b) (s : GoString) :
    trimSpace (a ++ s ++ b) = trimSpace s := by
  rw [trimSpace, List.append_assoc, trimLeft_blank ha, trimLeft_append_blank hb, trimSpace]
  split_ifs with hnil
  · rw [hnil]
  · exact trimRight_blank hb (trimLeft s)

/-! ## Text without space -/

/-- None of the bytes of `s` is part of a space rune. -/
def Plain (s : GoString) : Prop := ∀ c ∈ s, ∀ p ∈ spaceRunes, c ∉ p

instance (s : GoString) : Decidable (Plain s) :=
  decidable_of_iff ((s.all fun c => spaceRunes.all fun p => !p.elem c) = true) (by simp [Plain])

theorem Plain.append {s t : GoString} (hs : Plain s) (ht : Plain t) : Plain (s ++ t) := by
  intro c hc
  rcases List.mem_append.mp hc with hc | hc
  · exact hs c hc
  · exact ht c hc

section

variable {pre s p : GoString} (hpre : Plain pre) (hp : p ∈ spaceRunes)

include hpre hp in
/-- No space rune starts a string that starts with a plain text. -/
theorem Plain.starts_with_no_rune (hne : pre ≠ []) : ¬p <+: pre ++ s := by
  intro hstart
  cases p with
  | nil => exact prefixCode_spaceRunes.nonempty hp
  | cons c p =>
    cases pre with
    | nil => exact hne rfl
    | cons d pre =>
      rw [List.cons_append, List.cons_prefix_cons] at hstart
      exact hpre d List.mem_cons_self _ hp (hstart.1 ▸ List.mem_cons_self)

include hpre hp in
/-- A space rune behind a plain text does not reach into the text. -/
theorem Plain.suffix_of_append (hsuffix : p <:+ pre ++ s) : p <:+ s := by
  rcases List.suffix_or_suffix_of_suffix hsuffix (List.suffix_append pre s) with h | ⟨u, rfl⟩
  · exact h
  · obtain ⟨v, hv⟩ := hsuffix
    rw [← List.append_assoc] at hv
    have hu : v ++ u = pre := List.append_cancel_right hv
    cases u with
    | nil => exact List.suffix_rfl
    | cons c u => exact absurd (by simp) (hpre c (hu ▸ by simp) _ hp)

end

/-- A trimmed string stays trimmed behind a plain text. -/
theorem trimSpace_append {pre s : GoString} (hne : pre ≠ []) (hpre : Plain pre)
    (hs : trimSpace s = s) : trimSpace (pre ++ s) = pre ++ s := by
  rw [trimSpace_eq_self] at hs ⊢
  exact ⟨fun p hp => hpre.starts_with_no_rune hp hne,
    fun p hp hsuffix => hs.2 p hp (hpre.suffix_of_append hp hsuffix)⟩

theorem Plain.trimSpace {s : GoString} (hs : Plain s) : trimSpace s = s := by
  by_cases hnil : s = []
  · rw [hnil, trimSpace_nil]
  · rw [← List.append_nil s]
    exact trimSpace_append hnil hs trimSpace_nil

/-- Trimming does not touch a plain text that the string starts with. -/
theorem Plain.prefix_trimSpace {pre : GoString} (hne : pre ≠ []) (hpre : Plain pre)
    (s : GoString) : pre <+: GoString.trimSpace (pre ++ s) := by
  have hleft : trimLeft (pre ++ s) = pre ++ s :=
    trimLeft_eq_self.mpr fun p hp => hpre.starts_with_no_rune hp hne
  rw [GoString.trimSpace, hleft]
  clear hleft
  -- one space rune after the other goes, and each of them lies in `s`
  induction hn : s.length using Nat.strong_induction_on generalizing s with
  | _ n ih =>
    subst hn
    by_cases hall : ∀ p ∈ spaceRunes, ¬p <:+ pre ++ s
    · rw [trimRight_eq_self.mpr hall]
      exact List.prefix_append pre s
    · push Not at hall
      obtain ⟨p, hp, hsuffix⟩ := hall
      obtain ⟨t, rfl⟩ := hpre.suffix_of_append hp hsuffix
      rw [← List.append_assoc, trimRight_concat hp]
      refine ih t.length ?_ t rfl
      rw [List.length_append]
      have hpos : p.length ≠ 0 := fun h =>
        prefixCode_spaceRunes.nonempty (List.length_eq_zero_iff.mp h ▸ hp)
      omega

/-- A string with a byte that no space rune has is not blank. -/
theorem trimSpace_ne_nil {s : GoString} {c : UInt8} (hc : ∀ p ∈ spaceRunes, c ∉ p) (h : c ∈ s) :
    trimSpace s ≠ [] := by
  have hreversed : ∀ p ∈ spaceRunes.map List.reverse, c ∉ p := by
    intro p hp
    obtain ⟨rune, hrune, rfl⟩ := List.mem_map.mp hp
    rw [List.mem_reverse]
    exact hc rune hrune
  have hleft : c ∈ (trimLeft s).reverse := List.mem_reverse.mpr (mem_stripAll hc h _)
  rw [trimSpace, trimRight_eq]
  exact List.ne_nil_of_mem (List.mem_reverse.mpr (mem_stripAll hreversed hleft _))

end GoString

end Kleym
