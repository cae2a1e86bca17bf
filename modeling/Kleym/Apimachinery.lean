import Kleym.Identity

/-!
# The validators of apimachinery

The documented behaviour of the validators a `Platform` stands for: label values,
qualified names and DNS-1123 subdomains are strings over small alphabets with an
alphanumeric byte at both ends and a bound on the length. `referencePlatform` puts
them together with `%q` and `strings.ToLower` on printable ASCII; the two hash
functions remain parameters.
-/

namespace Kleym

open GoString

namespace Apimachinery

/-- `[a-z0-9]`. -/
def lowerAlphanumeric (b : UInt8) : Bool := (97 ≤ b && b ≤ 122) || (48 ≤ b && b ≤ 57)

/-- `[A-Za-z0-9]`. -/
def alphanumeric (b : UInt8) : Bool := lowerAlphanumeric b || (65 ≤ b && b ≤ 90)

/-- `edge(inner*edge)?`, where every edge byte is an inner byte too. -/
def bounded (edge inner : UInt8 → Bool) (s : GoString) : Bool :=
  s.head?.any edge && s.getLast?.any edge && s.all inner

/-- The parts of a string between the occurrences of a byte. -/
def splitByte (b : UInt8) : GoString → List GoString
  | [] => [[]]
  | c :: s =>
    if c = b then [] :: splitByte b s
    else
      match splitByte b s with
      | [] => [[c]]
      | part :: parts => (c :: part) :: parts

/-- Complain unless the condition holds. -/
def require (condition : Bool) (message : GoString) : List GoString :=
  if condition then [] else [message]

/-- `[A-Za-z0-9]([-A-Za-z0-9_.]*[A-Za-z0-9])?`. -/
def labelText (s : GoString) : Bool :=
  bounded alphanumeric (fun b => alphanumeric b || b == 45 || b == 95 || b == 46) s

/-- `validation.IsValidLabelValue`. -/
def isValidLabelValue (s : GoString) : List GoString :=
  require (s.length ≤ 63) (str "must be no more than 63 characters") ++
  require (s == [] || labelText s) (str "a valid label must be an empty string or consist of " ++
    str "alphanumeric characters, '-', '_' or '.', and must start and end with an " ++
    str "alphanumeric character")

/-- `validation.IsDNS1123Subdomain`. -/
def isDNS1123Subdomain (s : GoString) : List GoString :=
  require (s.length ≤ 253) (str "must be no more than 253 characters") ++
  require ((splitByte 46 s).all
      (bounded lowerAlphanumeric fun b => lowerAlphanumeric b || b == 45))
    (str "a lowercase RFC 1123 subdomain must consist of lower case alphanumeric characters, " ++
      str "'-' or '.', and must start and end with an alphanumeric character")

/-- The checks of `validation.IsQualifiedName` on the part after the slash. -/
def qualifiedPart (s : GoString) : List GoString :=
  require (s ≠ []) (str "name part must be non-empty") ++
  require (s.length ≤ 63) (str "name part must be no more than 63 characters") ++
  require (labelText s) (str "name part must consist of alphanumeric characters, '-', '_' or " ++
    str "'.', and must start and end with an alphanumeric character")

/-- `validation.IsQualifiedName`. -/
def isQualifiedName (s : GoString) : List GoString :=
  match splitByte 47 s with
  | [name] => qualifiedPart name
  | [domain, name] =>
    (if domain = [] then [str "prefix part must be non-empty"]
      else (isDNS1123Subdomain domain).map fun m => str "prefix part " ++ m) ++ qualifiedPart name
  | _ => [str "a qualified name must consist of alphanumeric characters, '-', '_' or '.', with " ++
      str "an optional DNS subdomain prefix and '/'"]

/-- `%q` on printable ASCII. -/
def quote (s : GoString) : GoString :=
  [34] ++ (s.flatMap fun b => if b = 34 ∨ b = 92 then [92, b] else [b]) ++ [34]

/-- `strings.ToLower` on ASCII. -/
def toLower (s : GoString) : GoString := s.map fun b => if 65 ≤ b ∧ b ≤ 90 then b + 32 else b

theorem bounded_iff {edge inner : UInt8 → Bool} {s : GoString} : bounded edge inner s = true ↔
    (∃ b, s.head? = some b ∧ edge b = true) ∧ (∃ b, s.getLast? = some b ∧ edge b = true) ∧
      ∀ b ∈ s, inner b = true := by
  rw [bounded, Bool.and_eq_true, Bool.and_eq_true, Option.any_eq_true, Option.any_eq_true,
    List.all_eq_true, and_assoc]

/-- Two bounded strings with an inner byte between them are a bounded string. -/
theorem bounded_append {edge inner : UInt8 → Bool} {s t : GoString} {b : UInt8}
    (hs : bounded edge inner s = true) (hb : inner b = true) (ht : bounded edge inner t = true) :
    bounded edge inner (s ++ b :: t) = true := by
  rw [bounded_iff] at *
  obtain ⟨⟨first, hfirst, hedge⟩, -, hs⟩ := hs
  obtain ⟨-, ⟨last, hlast, hedge'⟩, ht⟩ := ht
  refine ⟨⟨first, ?_, hedge⟩, ⟨last, ?_, hedge'⟩, fun c hc => ?_⟩
  · rw [List.head?_append, hfirst]
    rfl
  · rw [List.getLast?_append, List.getLast?_cons, hlast]
    rfl
  · rcases List.mem_append.mp hc with hc | hc
    · exact hs c hc
    · rcases List.mem_cons.mp hc with rfl | hc
      · exact hb
      · exact ht c hc

theorem bounded_mono {edge edge' inner inner' : UInt8 → Bool} {s : GoString}
    (hedge : ∀ b, edge b = true → edge' b = true) (hinner : ∀ b, inner b = true → inner' b = true)
    (h : bounded edge inner s = true) : bounded edge' inner' s = true := by
  rw [bounded_iff] at *
  obtain ⟨⟨first, hfirst, hfirst'⟩, ⟨last, hlast, hlast'⟩, hall⟩ := h
  exact ⟨⟨first, hfirst, hedge first hfirst'⟩, ⟨last, hlast, hedge last hlast'⟩,
    fun b hb => hinner b (hall b hb)⟩

/-- The first part of a string, and the parts of what comes after the separator. -/
theorem splitByte_spec (b : UInt8) (s : GoString) : ∃ part parts, splitByte b s = part :: parts ∧
    b ∉ part ∧ (parts = [] ∧ s = part ∨ ∃ t, s = part ++ b :: t ∧ parts = splitByte b t) := by
  induction s with
  | nil => exact ⟨[], [], rfl, List.not_mem_nil, Or.inl ⟨rfl, rfl⟩⟩
  | cons c s ih =>
    rw [splitByte]
    split_ifs with hc
    · exact ⟨[], splitByte b s, rfl, List.not_mem_nil, Or.inr ⟨s, by rw [hc]; rfl, rfl⟩⟩
    · obtain ⟨part, parts, hsplit, hpart, hrest⟩ := ih
      refine ⟨c :: part, parts, by rw [hsplit],
        List.not_mem_cons_of_ne_of_not_mem (Ne.symm hc) hpart, ?_⟩
      rcases hrest with ⟨rfl, rfl⟩ | ⟨t, rfl, rfl⟩
      · exact Or.inl ⟨rfl, rfl⟩
      · exact Or.inr ⟨t, rfl, rfl⟩

theorem splitByte_of_notMem {b : UInt8} {s : GoString} (h : b ∉ s) : splitByte b s = [s] := by
  induction s with
  | nil => rfl
  | cons c s ih =>
    rw [List.mem_cons, not_or] at h
    rw [splitByte, if_neg (Ne.symm h.1), ih h.2]

theorem splitByte_append {b : UInt8} {s t : GoString} (h : b ∉ s) :
    splitByte b (s ++ b :: t) = s :: splitByte b t := by
  induction s with
  | nil => rw [List.nil_append, splitByte, if_pos rfl]
  | cons c s ih =>
    rw [List.mem_cons, not_or] at h
    rw [List.cons_append, splitByte, if_neg (Ne.symm h.1), ih h.2]

/-- A string all of whose parts are bounded is bounded, with the separator inside. -/
theorem bounded_of_splitByte {edge inner : UInt8 → Bool} {b : UInt8} {s : GoString}
    (h : (splitByte b s).all (bounded edge inner) = true) :
    bounded edge (fun c => inner c || c == b) s = true := by
  induction hn : s.length using Nat.strong_induction_on generalizing s with
  | _ n ih =>
    obtain ⟨part, parts, hsplit, -, hrest⟩ := splitByte_spec b s
    rw [hsplit, List.all_cons, Bool.and_eq_true] at h
    have hpart : bounded edge (fun c => inner c || c == b) part = true :=
      bounded_mono (fun _ hc => hc) (fun c hc => by rw [hc]; rfl) h.1
    rcases hrest with ⟨-, rfl⟩ | ⟨t, rfl, rfl⟩
    · exact hpart
    · refine bounded_append hpart (by simp) (ih t.length ?_ h.2 rfl)
      rw [← hn, List.length_append, List.length_cons]
      omega

/-- A byte of a string is in one of its parts or is the separator. -/
theorem mem_splitByte {b c : UInt8} {s : GoString} (hc : c ∈ s) (hne : c ≠ b) :
    ∃ part ∈ splitByte b s, c ∈ part := by
  induction s with
  | nil => cases hc
  | cons d s ih =>
    rw [splitByte]
    rcases List.mem_cons.mp hc with rfl | hc
    · rw [if_neg hne]
      cases splitByte b s with
      | nil => exact ⟨[c], by simp⟩
      | cons part parts => exact ⟨c :: part, by simp⟩
    · obtain ⟨part, hpart, hcp⟩ := ih hc
      split_ifs
      · exact ⟨part, List.mem_cons_of_mem _ hpart, hcp⟩
      · cases hs : splitByte b s with
        | nil =>
          rw [hs] at hpart
          cases hpart
        | cons first parts =>
          rw [hs] at hpart
          rcases List.mem_cons.mp hpart with rfl | hpart
          · exact ⟨d :: part, List.mem_cons_self, List.mem_cons_of_mem d hcp⟩
          · exact ⟨part, List.mem_cons_of_mem _ hpart, hcp⟩

theorem eq_nil_of_require {condition : Bool} {message : GoString} {rest : List GoString}
    (h : (require condition message ++ rest).length = 0) : condition = true ∧ rest.length = 0 := by
  rw [List.length_eq_zero_iff, List.append_eq_nil_iff, require] at h
  split_ifs at h with hc
  · exact ⟨hc, List.length_eq_zero_iff.mpr h.2⟩
  · exact h.1.elim

theorem eq_nil_of_require_last {condition : Bool} {message : GoString}
    (h : (require condition message).length = 0) : condition = true := by
  rw [← List.append_nil (require condition message)] at h
  exact (eq_nil_of_require h).1

/-- An accepted subdomain is bounded by lower-case letters and digits, with hyphens and dots
inside. -/
theorem bounded_of_isDNS1123Subdomain {s : GoString} (h : (isDNS1123Subdomain s).length = 0) :
    bounded lowerAlphanumeric (fun c => (lowerAlphanumeric c || c == 45) || c == 46) s = true :=
  bounded_of_splitByte (eq_nil_of_require_last (eq_nil_of_require h).2)

/-- An accepted subdomain consists of lower-case letters, digits, hyphens and dots. -/
theorem of_isDNS1123Subdomain {s : GoString} (h : (isDNS1123Subdomain s).length = 0) {c : UInt8}
    (hc : c ∈ s) : c = 46 ∨ lowerAlphanumeric c = true ∨ c = 45 := by
  have hinner := (bounded_iff.mp (bounded_of_isDNS1123Subdomain h)).2.2 c hc
  rw [Bool.or_eq_true, Bool.or_eq_true, beq_iff_eq, beq_iff_eq] at hinner
  exact hinner.symm

/-- The bytes of names and label values: `[-A-Za-z0-9_.]`. -/
def nameByte (b : UInt8) : Bool := alphanumeric b || b == 45 || b == 95 || b == 46

theorem of_labelText {s : GoString} (h : labelText s = true) : ∀ c ∈ s, nameByte c = true := by
  rw [labelText, bounded, Bool.and_eq_true] at h
  exact List.all_eq_true.mp h.2

theorem ne_nil_of_isDNS1123Subdomain {s : GoString} (h : (isDNS1123Subdomain s).length = 0) :
    s ≠ [] := by
  rintro rfl
  exact absurd h (by decide)

theorem ne_nil_of_isQualifiedName {s : GoString} (h : (isQualifiedName s).length = 0) :
    s ≠ [] := by
  rintro rfl
  exact absurd h (by decide)

theorem nameByte_of_isDNS1123Subdomain {s : GoString} (h : (isDNS1123Subdomain s).length = 0) :
    ∀ c ∈ s, nameByte c = true := by
  intro c hc
  rw [nameByte, alphanumeric]
  rcases of_isDNS1123Subdomain h hc with rfl | hlower | rfl
  · decide
  · rw [hlower]
    rfl
  · decide

theorem of_isValidLabelValue {s : GoString} (h : (isValidLabelValue s).length = 0) :
    ∀ c ∈ s, nameByte c = true := by
  have htext := eq_nil_of_require_last (eq_nil_of_require h).2
  rw [Bool.or_eq_true, beq_iff_eq] at htext
  rcases htext with rfl | htext
  · exact fun c hc => absurd hc List.not_mem_nil
  · exact of_labelText htext

theorem of_qualifiedPart {s : GoString} (h : (qualifiedPart s).length = 0) :
    ∀ c ∈ s, nameByte c = true := by
  rw [qualifiedPart, List.append_assoc] at h
  exact of_labelText (eq_nil_of_require_last (eq_nil_of_require (eq_nil_of_require h).2).2)

/-- An accepted qualified name consists of name bytes and slashes. -/
theorem of_isQualifiedName {s : GoString} (h : (isQualifiedName s).length = 0) {c : UInt8}
    (hc : c ∈ s) : nameByte c = true ∨ c = 47 := by
  by_cases hslash : c = 47
  · exact Or.inr hslash
  obtain ⟨part, hpart, hcp⟩ := mem_splitByte hc hslash
  rw [isQualifiedName] at h
  rcases hsplit : splitByte 47 s with _ | ⟨first, _ | ⟨second, _ | ⟨third, rest⟩⟩⟩
  · rw [hsplit] at hpart
    cases hpart
  · rw [hsplit] at hpart h
    rw [List.mem_singleton.mp hpart] at hcp
    exact Or.inl (of_qualifiedPart h c hcp)
  · rw [hsplit] at hpart h
    simp only [List.length_append, Nat.add_eq_zero_iff] at h
    rcases List.mem_cons.mp hpart with rfl | hpart
    · have hdomain : (isDNS1123Subdomain part).length = 0 := by
        have hne : part ≠ [] := List.ne_nil_of_mem hcp
        rw [if_neg hne, List.length_map] at h
        exact h.1
      exact Or.inl (nameByte_of_isDNS1123Subdomain hdomain c hcp)
    · rw [List.mem_singleton.mp hpart] at hcp
      exact Or.inl (of_qualifiedPart h.2 c hcp)
  · rw [hsplit] at h
    exact absurd h (by simp)

end Apimachinery

/-- The platform the operator is built on, up to the hash functions. -/
def referencePlatform (sha1 sha256 : GoString → List UInt8) : Platform where
  isQualifiedName := Apimachinery.isQualifiedName
  isValidLabelValue := Apimachinery.isValidLabelValue
  isDNS1123Subdomain := Apimachinery.isDNS1123Subdomain
  quote := Apimachinery.quote
  toLower := Apimachinery.toLower
  sha1 := sha1
  sha256 := sha256
  accessorError path _ := str "." ++ join (str ".") path ++ str " accessor error"

/-- What the results about selectors need of the validators: which bytes they let
through, and that two of them refuse the empty string. -/
structure Platform.Documented (P : Platform) : Prop where
  subdomain_ne_nil : ∀ {s}, (P.isDNS1123Subdomain s).length = 0 → s ≠ []
  subdomain : ∀ {s}, (P.isDNS1123Subdomain s).length = 0 → ∀ c ∈ s, Apimachinery.nameByte c = true
  labelValue : ∀ {s}, (P.isValidLabelValue s).length = 0 → ∀ c ∈ s, Apimachinery.nameByte c = true
  qualifiedName_ne_nil : ∀ {s}, (P.isQualifiedName s).length = 0 → s ≠ []
  qualifiedName : ∀ {s}, (P.isQualifiedName s).length = 0 →
    ∀ c ∈ s, Apimachinery.nameByte c = true ∨ c = 47

theorem documented_referencePlatform (sha1 sha256 : GoString → List UInt8) :
    (referencePlatform sha1 sha256).Documented where
  subdomain_ne_nil := Apimachinery.ne_nil_of_isDNS1123Subdomain
  subdomain := Apimachinery.nameByte_of_isDNS1123Subdomain
  labelValue := Apimachinery.of_isValidLabelValue
  qualifiedName_ne_nil := Apimachinery.ne_nil_of_isQualifiedName
  qualifiedName h _ hc := Apimachinery.of_isQualifiedName h hc

end Kleym
