import Kleym.Patterns
import Kleym.Planning

/-!
# The admission schema and the validators

The CRD bounds the length of a variant and of a service account name and gives a pattern for
each. The API server counts code points and matches patterns against them; the operator checks
both strings again, with the validators of apimachinery, which count bytes. A string that the
two sides treat differently would be admitted and never rendered, or rendered only because
nobody looked at admission.

A string here is a sequence of code points, and the Go string the operator sees is its UTF-8
encoding.
-/

namespace Kleym

open GoString RegularExpression Apimachinery

/-! ## Patterns -/

/-- `a-z`: the characters from one to another. -/
def charRange (first last : Char) : List Char :=
  (List.range (last.toNat + 1 - first.toNat)).map fun i => Char.ofNat (first.toNat + i)

/-- `A-Za-z0-9`. -/
def alphanumericChars : List Char := charRange 'A' 'Z' ++ charRange 'a' 'z' ++ charRange '0' '9'

/-- `a-z0-9`. -/
def lowerAlphanumericChars : List Char := charRange 'a' 'z' ++ charRange '0' '9'

/-- The pattern of `identityBoundary.variant`: `[A-Za-z0-9]([A-Za-z0-9_.-]*[A-Za-z0-9])?`. -/
def variantPattern : RegularExpression Char :=
  oneOf alphanumericChars *
    optional (star (oneOf (alphanumericChars ++ ['_', '.', '-'])) * oneOf alphanumericChars)

/-- `[a-z0-9]([-a-z0-9]*[a-z0-9])?`. -/
def dnsLabelPattern : RegularExpression Char :=
  oneOf lowerAlphanumericChars *
    optional (star (oneOf ('-' :: lowerAlphanumericChars)) * oneOf lowerAlphanumericChars)

/-- The pattern of `serviceAccountName`:
`[a-z0-9]([-a-z0-9]*[a-z0-9])?(\.[a-z0-9]([-a-z0-9]*[a-z0-9])?)*`. -/
def serviceAccountPattern : RegularExpression Char := separatedBy '.' dnsLabelPattern

/-- `labelValueFmt` of apimachinery: `(([A-Za-z0-9][-A-Za-z0-9_.]*)?[A-Za-z0-9])?`. -/
def labelValueExpression : RegularExpression Char :=
  optional (optional (oneOf alphanumericChars *
    star (oneOf ('-' :: alphanumericChars ++ ['_', '.']))) * oneOf alphanumericChars)

/-- `dns1123SubdomainFmt` of apimachinery, which has the text of `serviceAccountPattern`. -/
def subdomainExpression : RegularExpression Char := separatedBy '.' dnsLabelPattern

/-- The schema of a string field: bounds on its length in code points, and a pattern that is
anchored at both ends. -/
structure StringSchema where
  minLength : ℕ
  maxLength : ℕ
  pattern : RegularExpression Char

/-- A sequence of code points satisfies a schema. -/
def StringSchema.Admits (schema : StringSchema) (s : String) : Prop :=
  schema.minLength ≤ s.length ∧ s.length ≤ schema.maxLength ∧ s.toList ∈ schema.pattern.matches'

instance (schema : StringSchema) (s : String) : Decidable (schema.Admits s) :=
  decidable_of_iff (schema.minLength ≤ s.length ∧ s.length ≤ schema.maxLength ∧
    schema.pattern.rmatch s.toList = true) (by rw [rmatch_iff_matches']; rfl)

/-- A Go string satisfies a schema when the code points it encodes do. Bytes that encode no
code points are no JSON string, and satisfy none. -/
def StringSchema.Accepts (schema : StringSchema) (s : GoString) : Prop :=
  ∃ text, str text = s ∧ schema.Admits text

/-- A Go string matches an expression that is anchored at both ends. -/
def FullMatch (expression : RegularExpression Char) (s : GoString) : Prop :=
  ∃ text, str text = s ∧ text.toList ∈ expression.matches'

/-- The schema of `identityBoundary.variant`. -/
def variantSchema : StringSchema := ⟨1, 63, variantPattern⟩

/-- The schema of `serviceAccountName`. -/
def serviceAccountSchema : StringSchema := ⟨1, 253, serviceAccountPattern⟩

/-- What apimachinery documents of two of its validators: a bound on the length in bytes, and
a full match of an expression. -/
structure Platform.Regular (P : Platform) : Prop where
  labelValue : ∀ s, (P.isValidLabelValue s).length = 0 ↔
    s.length ≤ 63 ∧ FullMatch labelValueExpression s
  subdomain : ∀ s, (P.isDNS1123Subdomain s).length = 0 ↔
    s.length ≤ 253 ∧ FullMatch subdomainExpression s

/-! ## Characters and bytes -/

/-- The characters of names and label values. -/
def nameChars : List Char := alphanumericChars ++ ['_', '.', '-']

/-- The byte of an ASCII character. -/
def byteOf (c : Char) : UInt8 := c.val.toUInt8

/-- The character of an ASCII byte. -/
def charOf (b : UInt8) : Char := Char.ofNat b.toNat

/-- A character of names is one byte of names, from which it can be read back; and the classes of
the checkers are those of the patterns. -/
structure IsNameChar (c : Char) : Prop where
  encode : String.utf8EncodeChar c = [byteOf c]
  nameByte : nameByte (byteOf c) = true
  charOf : charOf (byteOf c) = c
  alphanumeric : alphanumeric (byteOf c) = true ↔ c ∈ alphanumericChars
  lowerAlphanumeric : lowerAlphanumeric (byteOf c) = true ↔ c ∈ lowerAlphanumericChars

-- `List.all` and not `∀ c ∈ nameChars`, which could be decided by going through all characters.
theorem isNameChar {c : Char} (hc : c ∈ nameChars) : IsNameChar c := by
  have hall : nameChars.all (fun c => String.utf8EncodeChar c = [byteOf c] ∧
      nameByte (byteOf c) = true ∧ charOf (byteOf c) = c ∧
      (alphanumeric (byteOf c) = true ↔ c ∈ alphanumericChars) ∧
      (lowerAlphanumeric (byteOf c) = true ↔ c ∈ lowerAlphanumericChars)) = true := by
    decide +kernel
  obtain ⟨hencode, hbyte, hchar, halphanumeric, hlower⟩ :=
    of_decide_eq_true (List.all_eq_true.mp hall c hc)
  exact ⟨hencode, hbyte, hchar, halphanumeric, hlower⟩

theorem byteOf_inj {c d : Char} (hc : c ∈ nameChars) (hd : d ∈ nameChars) :
    byteOf c = byteOf d ↔ c = d := by
  refine ⟨fun h => ?_, congrArg byteOf⟩
  rw [← (isNameChar hc).charOf, h, (isNameChar hd).charOf]

theorem alphanumericChars_subset : alphanumericChars ⊆ nameChars := List.subset_append_left _ _

theorem lowerAlphanumericChars_subset : lowerAlphanumericChars ⊆ nameChars := by
  refine List.Subset.trans ?_ alphanumericChars_subset
  rw [alphanumericChars, List.append_assoc]
  exact List.subset_append_right _ _

theorem punctuation_subset : ['_', '.', '-'] ⊆ nameChars := List.subset_append_right _ _

theorem dash_mem : '-' ∈ nameChars := punctuation_subset (by decide)

theorem dot_mem : '.' ∈ nameChars := punctuation_subset (by decide)

theorem dnsChars_subset : '-' :: lowerAlphanumericChars ⊆ nameChars :=
  List.cons_subset.mpr ⟨dash_mem, lowerAlphanumericChars_subset⟩

theorem str_eq_flatMap (s : String) : str s = s.toList.flatMap String.utf8EncodeChar := by
  rw [str, ← String.utf8Encode_toList, List.utf8Encode]
  simp

section NameStrings

variable {s : String} (h : ∀ c ∈ s.toList, c ∈ nameChars)

include h

theorem str_of_nameChars : str s = s.toList.map byteOf := by
  rw [str_eq_flatMap, ← List.flatMap_pure_eq_map]
  exact List.flatMap_congr fun c hc => (isNameChar (h c hc)).encode

theorem length_str_of_nameChars : (str s).length = s.length := by
  rw [str_of_nameChars h, List.length_map, String.length_toList]

theorem plain_of_nameChars : Plain (str s) := by
  rw [str_of_nameChars h]
  refine plain_of_nameBytes fun b hb => Or.inl ?_
  obtain ⟨c, hc, rfl⟩ := List.mem_map.mp hb
  exact (isNameChar (h c hc)).nameByte

end NameStrings

/-! ## The words of the patterns -/

theorem mem_variantPattern {w : List Char} :
    w ∈ variantPattern.matches' ↔ Bracketed alphanumericChars nameChars w := mem_edge_first

theorem mem_labelValueExpression {w : List Char} :
    w ∈ labelValueExpression.matches' ↔ w = [] ∨ Bracketed alphanumericChars nameChars w := by
  rw [labelValueExpression, mem_optional, mem_edge_last]
  -- the class between the ends lists the same characters in another order
  have hclass : ∀ c, c ∈ '-' :: alphanumericChars ++ ['_', '.'] ↔ c ∈ nameChars := by
    intro c
    simp only [nameChars, List.mem_append, List.mem_cons, List.not_mem_nil]
    tauto
  exact or_congr_right ⟨Bracketed.mono fun c => (hclass c).mp, Bracketed.mono fun c => (hclass c).mpr⟩

theorem mem_dnsLabelPattern {w : List Char} : w ∈ dnsLabelPattern.matches' ↔
    Bracketed lowerAlphanumericChars ('-' :: lowerAlphanumericChars) w := mem_edge_first

theorem nameChars_of_variant {w : List Char} (h : Bracketed alphanumericChars nameChars w) :
    ∀ c ∈ w, c ∈ nameChars := h.forall_mem alphanumericChars_subset fun _ hc => hc

theorem nameChars_of_subdomain {w : List Char} (h : w ∈ subdomainExpression.matches') :
    ∀ c ∈ w, c ∈ nameChars :=
  forall_mem_separatedBy (fun _ hu => (mem_dnsLabelPattern.mp hu).forall_mem
    lowerAlphanumericChars_subset dnsChars_subset) dot_mem h

/-! ## The checkers match the expressions -/

theorem charOf_nameByte {b : UInt8} (hb : nameByte b = true) :
    charOf b ∈ nameChars ∧ byteOf (charOf b) = b := by
  have hall : ∀ n < 256, nameByte (UInt8.ofNat n) = true →
      charOf (UInt8.ofNat n) ∈ nameChars ∧ byteOf (charOf (UInt8.ofNat n)) = UInt8.ofNat n := by
    decide +kernel
  rw [← UInt8.ofNat_toNat (x := b)] at hb ⊢
  exact hall b.toNat b.toNat_lt hb

/-- Name bytes are the encoding of name characters. -/
theorem exists_text {s : GoString} (h : ∀ b ∈ s, nameByte b = true) :
    ∃ text, str text = s ∧ ∀ c ∈ text.toList, c ∈ nameChars := by
  have hchars : ∀ c ∈ (String.ofList (s.map charOf)).toList, c ∈ nameChars := by
    intro c hc
    rw [String.toList_ofList] at hc
    obtain ⟨b, hb, rfl⟩ := List.mem_map.mp hc
    exact (charOf_nameByte (h b hb)).1
  refine ⟨String.ofList (s.map charOf), ?_, hchars⟩
  rw [str_of_nameChars hchars, String.toList_ofList, List.map_map]
  conv_rhs => rw [← List.map_id s]
  exact List.map_congr_left fun b hb => (charOf_nameByte (h b hb)).2

/-- A checker of bytes and a class of characters agree on the characters of names. -/
def Agree (check : UInt8 → Bool) (symbols : List Char) : Prop :=
  ∀ c ∈ nameChars, check (byteOf c) = true ↔ c ∈ symbols

theorem bounded_map_iff {edge inner : UInt8 → Bool} {edgeChars innerChars w : List Char}
    (hedge : Agree edge edgeChars) (hinner : Agree inner innerChars)
    (hsubset : edgeChars ⊆ innerChars) (hw : ∀ c ∈ w, c ∈ nameChars) :
    bounded edge inner (w.map byteOf) = true ↔ Bracketed edgeChars innerChars w := by
  have hfirst : (∃ b, (w.map byteOf).head? = some b ∧ edge b = true) ↔
      ∃ a ∈ edgeChars, w.head? = some a := by
    cases w with
    | nil => simp
    | cons a w => simp [hedge a (hw a List.mem_cons_self)]
  have hlast : (∃ b, (w.map byteOf).getLast? = some b ∧ edge b = true) ↔
      ∃ a ∈ edgeChars, w.getLast? = some a := by
    rw [List.getLast?_map]
    cases hlast : w.getLast? with
    | none => simp
    | some a => simp [hedge a (hw a (List.mem_of_getLast? hlast))]
  have hall : (∀ b ∈ w.map byteOf, inner b = true) ↔ ∀ c ∈ w, c ∈ innerChars := by
    rw [List.forall_mem_map]
    exact forall₂_congr fun c hc => hinner c (hw c hc)
  rw [bounded_iff, bracketed_iff hsubset, hfirst, hlast, hall]

theorem labelText_map_iff {w : List Char} (hw : ∀ c ∈ w, c ∈ nameChars) :
    labelText (w.map byteOf) = true ↔ Bracketed alphanumericChars nameChars w :=
  bounded_map_iff (fun _ hc => (isNameChar hc).alphanumeric)
    (fun _ hc => iff_of_true (isNameChar hc).nameByte hc) alphanumericChars_subset hw

theorem dnsLabel_map_iff {w : List Char} (hw : ∀ c ∈ w, c ∈ nameChars) :
    bounded lowerAlphanumeric (fun b => lowerAlphanumeric b || b == 45) (w.map byteOf) = true ↔
      w ∈ dnsLabelPattern.matches' := by
  rw [mem_dnsLabelPattern]
  refine bounded_map_iff (fun _ hc => (isNameChar hc).lowerAlphanumeric) (fun c hc => ?_)
    (List.subset_cons_self _ _) hw
  rw [Bool.or_eq_true, beq_iff_eq, (isNameChar hc).lowerAlphanumeric,
    show (45 : UInt8) = byteOf '-' from rfl, byteOf_inj hc dash_mem, List.mem_cons, or_comm]

theorem byteOf_eq_dot {c : Char} (hc : c ∈ nameChars) : byteOf c = 46 ↔ c = '.' :=
  byteOf_inj hc dot_mem

theorem dot_notMem {w : List Char} (h : w ∈ dnsLabelPattern.matches') : 46 ∉ w.map byteOf := by
  intro hdot
  obtain ⟨c, hc, hbyte⟩ := List.mem_map.mp hdot
  have hclass : c ∈ '-' :: lowerAlphanumericChars :=
    (mem_dnsLabelPattern.mp h).forall_mem (List.subset_cons_self _ _) (fun _ hd => hd) c hc
  obtain rfl := (byteOf_eq_dot (dnsChars_subset hclass)).mp hbyte
  have hlower := (isNameChar dot_mem).lowerAlphanumeric.mpr (List.mem_of_ne_of_mem (by decide) hclass)
  cases hlower

/-- Splitting at the dots is matching a separated pattern: the first part of the bytes is the
first part of the word, for no label has a dot in it. -/
theorem splitByte_map_iff {w : List Char} (hw : ∀ c ∈ w, c ∈ nameChars) :
    (splitByte 46 (w.map byteOf)).all
        (bounded lowerAlphanumeric fun b => lowerAlphanumeric b || b == 45) = true ↔
      w ∈ subdomainExpression.matches' := by
  induction hn : w.length using Nat.strong_induction_on generalizing w with
  | _ n ih =>
    rw [subdomainExpression, mem_separatedBy, ← subdomainExpression]
    constructor
    · intro h
      obtain ⟨part, parts, hsplit, -, hrest⟩ := splitByte_spec 46 (w.map byteOf)
      rw [hsplit, List.all_cons, Bool.and_eq_true] at h
      rcases hrest with ⟨-, rfl⟩ | ⟨tail, hparts, rfl⟩
      · exact ⟨w, (dnsLabel_map_iff hw).mp h.1, Or.inl rfl⟩
      · obtain ⟨u, v, rfl, rfl, hv⟩ := List.map_eq_append_iff.mp hparts
        obtain ⟨c, rest, rfl, hc, rfl⟩ := List.map_eq_cons_iff.mp hv
        rw [List.forall_mem_append, List.forall_mem_cons] at hw
        obtain rfl := (byteOf_eq_dot hw.2.1).mp hc
        refine ⟨u, (dnsLabel_map_iff hw.1).mp h.1, Or.inr ⟨rest, ?_, rfl⟩⟩
        refine (ih rest.length ?_ hw.2.2 rfl).mp h.2
        rw [← hn, List.length_append, List.length_cons]
        omega
    · rintro ⟨part, hpart, rfl | ⟨rest, hrest, rfl⟩⟩
      · rw [splitByte_of_notMem (dot_notMem hpart), List.all_cons, (dnsLabel_map_iff hw).mpr hpart]
        rfl
      · rw [List.forall_mem_append, List.forall_mem_cons] at hw
        rw [List.map_append, List.map_cons, show byteOf '.' = 46 from rfl,
          splitByte_append (dot_notMem hpart), List.all_cons, (dnsLabel_map_iff hw.1).mpr hpart,
          Bool.true_and]
        refine (ih rest.length ?_ hw.2.2 rfl).mpr hrest
        rw [← hn, List.length_append, List.length_cons]
        omega

theorem require_append_length {condition condition' : Bool} {message message' : GoString} :
    (require condition message ++ require condition' message').length = 0 ↔
      condition = true ∧ condition' = true := by
  cases condition <;> cases condition' <;> simp [require]

theorem regular_referencePlatform (sha1 sha256 : GoString → List UInt8) :
    (referencePlatform sha1 sha256).Regular where
  labelValue s := by
    change (isValidLabelValue s).length = 0 ↔ _
    constructor
    · intro h
      obtain ⟨text, rfl, hchars⟩ := exists_text (of_isValidLabelValue h)
      rw [isValidLabelValue, require_append_length] at h
      refine ⟨of_decide_eq_true h.1, text, rfl, mem_labelValueExpression.mpr ?_⟩
      rw [str_of_nameChars hchars, Bool.or_eq_true, beq_iff_eq, List.map_eq_nil_iff] at h
      exact h.2.imp_right (labelText_map_iff hchars).mp
    · rintro ⟨hlength, text, rfl, hmatch⟩
      rw [isValidLabelValue, require_append_length, Bool.or_eq_true, beq_iff_eq]
      refine ⟨decide_eq_true hlength, ?_⟩
      rcases mem_labelValueExpression.mp hmatch with hnil | hbracketed
      · exact Or.inl (by rw [str_eq_flatMap, hnil]; rfl)
      · have hchars := nameChars_of_variant hbracketed
        rw [str_of_nameChars hchars]
        exact Or.inr ((labelText_map_iff hchars).mpr hbracketed)
  subdomain s := by
    change (isDNS1123Subdomain s).length = 0 ↔ _
    constructor
    · intro h
      obtain ⟨text, rfl, hchars⟩ := exists_text (nameByte_of_isDNS1123Subdomain h)
      rw [isDNS1123Subdomain, require_append_length] at h
      refine ⟨of_decide_eq_true h.1, text, rfl, ?_⟩
      rw [str_of_nameChars hchars] at h
      exact (splitByte_map_iff hchars).mp h.2
    · rintro ⟨hlength, text, rfl, hmatch⟩
      have hchars := nameChars_of_subdomain hmatch
      rw [isDNS1123Subdomain, require_append_length]
      refine ⟨decide_eq_true hlength, ?_⟩
      rw [str_of_nameChars hchars]
      exact (splitByte_map_iff hchars).mpr hmatch

/-! ## Admission and validation -/

theorem variantSchema_accepts_iff {P : Platform} (hP : P.Regular) (s : GoString) :
    variantSchema.Accepts s ↔ validateVariant P s = .ok () := by
  constructor
  · rintro ⟨text, rfl, hmin, hmax, hpattern⟩
    have hchars := nameChars_of_variant (mem_variantPattern.mp hpattern)
    have hlength := length_str_of_nameChars hchars
    have hlabel : (P.isValidLabelValue (str text)).length = 0 :=
      (hP.labelValue _).mpr ⟨hlength ▸ hmax, text, rfl,
        mem_labelValueExpression.mpr (Or.inr (mem_variantPattern.mp hpattern))⟩
    have hne : str text ≠ [] := List.ne_nil_of_length_pos (hlength ▸ hmin)
    rw [validateVariant, (plain_of_nameChars hchars).trimSpace, if_neg (not_not_intro rfl),
      if_neg hne, if_neg (by omega)]
  · intro h
    obtain ⟨-, hne, hlabel⟩ := validateVariant_ok h
    obtain ⟨hmax, text, rfl, hmatch⟩ := (hP.labelValue s).mp hlabel
    rcases mem_labelValueExpression.mp hmatch with hnil | hbracketed
    · exact absurd (by rw [str_eq_flatMap, hnil]; rfl) hne
    · have hlength := length_str_of_nameChars (nameChars_of_variant hbracketed)
      refine ⟨text, rfl, ?_, hlength ▸ hmax, mem_variantPattern.mpr hbracketed⟩
      exact hlength ▸ List.length_pos_of_ne_nil hne

theorem serviceAccountSchema_accepts_iff {P : Platform} (hP : P.Regular) (ns s : GoString) :
    serviceAccountSchema.Accepts s ↔ (renderSafetySelectors P ns s).isOk = true := by
  constructor
  · rintro ⟨text, rfl, hmin, hmax, hpattern⟩
    have hchars := nameChars_of_subdomain hpattern
    have hlength := length_str_of_nameChars hchars
    have hname : (P.isDNS1123Subdomain (str text)).length = 0 :=
      (hP.subdomain _).mpr ⟨hlength ▸ hmax, text, rfl, hpattern⟩
    have hne : str text ≠ [] := List.ne_nil_of_length_pos (hlength ▸ hmin)
    rw [renderSafetySelectors, (plain_of_nameChars hchars).trimSpace, if_neg hne,
      if_neg (by omega)]
    rfl
  · intro h
    rw [renderSafetySelectors] at h
    split_ifs at h with hblank hname
    · cases h
    · cases h
    · obtain ⟨hmax, text, rfl, hmatch⟩ := (hP.subdomain s).mp (by omega)
      have hlength := length_str_of_nameChars (nameChars_of_subdomain hmatch)
      refine ⟨text, rfl, ?_, hlength ▸ hmax, hmatch⟩
      have hne : str text ≠ [] := fun hnil => hblank (by rw [hnil]; rfl)
      exact hlength ▸ List.length_pos_of_ne_nil hne

/-- **Admission and validation agree**: the schema of a variant accepts the strings that
`validateVariant` does, and the schema of a service account name those that
`renderSafetySelectors` does, in any namespace. -/
theorem schema_accepts_iff_validates {P : Platform} (hP : P.Regular) (s : GoString) :
    (variantSchema.Accepts s ↔ validateVariant P s = .ok ()) ∧
      ∀ ns, serviceAccountSchema.Accepts s ↔ (renderSafetySelectors P ns s).isOk = true :=
  ⟨variantSchema_accepts_iff hP s, fun ns => serviceAccountSchema_accepts_iff hP ns s⟩

theorem schema_accepts_iff_validates_dotted :
    variantSchema.Accepts (str "Canary.v2") ∧ ¬ serviceAccountSchema.Accepts (str "Canary.v2") := by
  have h := schema_accepts_iff_validates
    (regular_referencePlatform (fun _ => []) fun _ => []) (str "Canary.v2")
  refine ⟨h.1.mpr ?_, fun haccepts => absurd ((h.2 (str "team-a")).mp haccepts) ?_⟩ <;>
    decide +kernel

end Kleym
