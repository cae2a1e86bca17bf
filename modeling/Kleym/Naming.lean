import Kleym.Spirecm
import Kleym.Apimachinery
import Kleym.Objects
import Kleym.Trimming
import Kleym.Framing
import Mathlib.Data.List.DropRight
import Mathlib.Data.List.TakeWhile

/-!
# Names of managed outputs

`BuildClusterSPIFFEIDName` puts a name together from the sanitised namespace and
binding name, the sanitised anchor kind and eight hex digits of a hash, and cuts the
first part so that the whole fits a DNS label. Its input strings are arbitrary.
That the name is valid rests on what the first part is never cut below: the text
starts with `kleym`, which survives trimming, lower-casing and sanitising, so the
cut ends in at least one letter.

The Go code slices twice, and a slice out of range panics. `take` does not, so the
range is a statement of its own here: `sliceTo` is the slice that fails, and the
name computed with it (`buildClusterSPIFFEIDNameChecked`) never does.
-/

namespace Kleym

open GoString Apimachinery

/-! ## DNS labels -/

/-- A byte of a DNS label: `[-a-z0-9]`. -/
def labelByte (b : UInt8) : Bool := lowerAlphanumeric b || b == 45

/-- `[a-z0-9]([-a-z0-9]*[a-z0-9])?`. -/
def isDNSLabel (s : GoString) : Bool := bounded lowerAlphanumeric labelByte s

section Labels

variable {s t : GoString}

theorem isDNSLabel_iff : isDNSLabel s = true ↔
    (∃ b, s.head? = some b ∧ lowerAlphanumeric b = true) ∧
    (∃ b, s.getLast? = some b ∧ lowerAlphanumeric b = true) ∧ ∀ b ∈ s, labelByte b = true :=
  bounded_iff

/-- Two labels with a hyphen between them are a label. -/
theorem isDNSLabel_append (hs : isDNSLabel s = true) (ht : isDNSLabel t = true) :
    isDNSLabel (s ++ str "-" ++ t) = true := by
  rw [List.append_assoc]
  exact bounded_append (b := 45) hs (by decide) ht

end Labels

/-! ## Trimming hyphens -/

section Trim

variable {s : GoString} {c : UInt8}

theorem trimByte_eq (s : GoString) (c : UInt8) :
    trimByte s c = (s.dropWhile (· == c)).rdropWhile (· == c) := rfl

theorem mem_of_mem_trimByte {b : UInt8} (h : b ∈ trimByte s c) : b ∈ s :=
  (List.dropWhile_suffix _).subset ((List.rdropWhile_prefix _ _).subset h)

theorem head?_trimByte_ne : (trimByte s c).head? ≠ some c := by
  intro h
  have hstart : trimByte s c <+: s.dropWhile (· == c) := List.rdropWhile_prefix _ _
  have hhead := List.head?_dropWhile_not (· == c) s
  obtain ⟨rest, hrest⟩ := hstart
  rw [← hrest, List.head?_append, h] at hhead
  simp at hhead

theorem getLast?_trimByte_ne : (trimByte s c).getLast? ≠ some c := by
  rw [trimByte, List.getLast?_reverse]
  intro h
  have hhead := List.head?_dropWhile_not (· == c) (s.dropWhile (· == c)).reverse
  rw [h] at hhead
  simp at hhead

/-- A string that starts with another byte than the trimmed one keeps it. -/
theorem head?_trimByte_of_ne {b : UInt8} (hs : s.head? = some b) (hne : b ≠ c) :
    (trimByte s c).head? = some b := by
  cases s with
  | nil => cases hs
  | cons a s =>
    cases hs
    have hdrop : (b :: s).dropWhile (· == c) = b :: s := by
      rw [List.dropWhile_cons, if_neg (by simpa using hne)]
    have hstart : trimByte (b :: s) c <+: b :: s := by
      rw [trimByte_eq, hdrop]
      exact List.rdropWhile_prefix _ _
    have hnonempty : trimByte (b :: s) c ≠ [] := by
      rw [trimByte_eq, hdrop, Ne, List.rdropWhile_eq_nil_iff]
      intro hall
      exact hne (by simpa using hall b List.mem_cons_self)
    obtain ⟨rest, hrest⟩ := hstart
    cases htrim : trimByte (b :: s) c with
    | nil => exact absurd htrim hnonempty
    | cons d t =>
      rw [htrim, List.cons_append, List.cons.injEq] at hrest
      rw [hrest.1, List.head?_cons]

/-- What is left of label bytes after trimming hyphens is a label, if anything is. -/
theorem isDNSLabel_trimByte (h : ∀ b ∈ s, labelByte b = true) (hne : trimByte s 45 ≠ []) :
    isDNSLabel (trimByte s 45) = true := by
  have hbytes : ∀ b ∈ trimByte s 45, labelByte b = true := fun b hb => h b (mem_of_mem_trimByte hb)
  have hedge : ∀ b ∈ trimByte s 45, b ≠ 45 → lowerAlphanumeric b = true := by
    intro b hb hb45
    simpa [labelByte, hb45] using hbytes b hb
  rw [isDNSLabel_iff]
  refine ⟨⟨_, List.head?_eq_some_head hne, hedge _ (List.head_mem hne) fun h45 => ?_⟩,
    ⟨_, List.getLast?_eq_some_getLast hne, hedge _ (List.getLast_mem hne) fun h45 => ?_⟩, hbytes⟩
  · exact head?_trimByte_ne (h45 ▸ List.head?_eq_some_head hne)
  · exact getLast?_trimByte_ne (h45 ▸ List.getLast?_eq_some_getLast hne)

end Trim

/-! ## Sanitising -/

theorem labelByte_of_mem_sanitizeBytes {lastHyphen : Bool} {s : GoString} {b : UInt8}
    (h : b ∈ sanitizeBytes lastHyphen s) : labelByte b = true := by
  induction s generalizing lastHyphen with
  | nil => cases h
  | cons c s ih =>
    rw [sanitizeBytes] at h
    split_ifs at h with hc hlast
    · rcases List.mem_cons.mp h with rfl | h
      · simp only [labelByte, lowerAlphanumeric, Bool.or_eq_true, Bool.and_eq_true,
          decide_eq_true_iff]
        exact Or.inl hc
      · exact ih h
    · exact ih h
    · rcases List.mem_cons.mp h with rfl | h
      · decide
      · exact ih h

/-- An ASCII byte other than an upper-case letter. -/
def lowerASCII (b : UInt8) : Bool := b < 128 && !(65 ≤ b && b ≤ 90)

/-- What `strings.ToLower` does to a text that is lower-case ASCII already: nothing,
whatever comes after it. -/
structure Platform.KeepsLower (P : Platform) : Prop where
  nil : P.toLower [] = []
  append : ∀ s t, s.all lowerASCII = true → P.toLower (s ++ t) = s ++ P.toLower t

theorem keepsLower_referencePlatform (sha1 sha256 : GoString → List UInt8) :
    (referencePlatform sha1 sha256).KeepsLower where
  nil := rfl
  append s t h := by
    have hmap : s.map (fun b => if 65 ≤ b ∧ b ≤ 90 then b + 32 else b) = s.map id := by
      refine List.map_congr_left fun c hc => if_neg fun hupper => ?_
      have hlower := List.all_eq_true.mp h c hc
      simp [lowerASCII, hupper.1, hupper.2] at hlower
    change List.map _ (s ++ t) = s ++ List.map _ t
    rw [List.map_append, hmap, List.map_id]

section Names

variable {P : Platform}

/-- A sanitised text is empty or a label. -/
theorem isDNSLabel_sanitizeDNSLabel {s : GoString} (h : sanitizeDNSLabel P s ≠ []) :
    isDNSLabel (sanitizeDNSLabel P s) = true :=
  isDNSLabel_trimByte (fun _ => labelByte_of_mem_sanitizeBytes) h

/-- A text that starts with `kleym` still does so when sanitised. -/
theorem head?_sanitizeDNSLabel (hlower : P.KeepsLower) (s : GoString) :
    (sanitizeDNSLabel P (str "kleym" ++ s)).head? = some 107 := by
  have hne : str "kleym" ≠ [] := by decide
  have hplain : Plain (str "kleym") := by decide +kernel
  obtain ⟨rest, hrest⟩ := hplain.prefix_trimSpace hne s
  have hkleym : ∀ t, sanitizeBytes false (str "kleym" ++ t) = str "kleym" ++ sanitizeBytes false t :=
    fun t => rfl
  rw [sanitizeDNSLabel, ← hrest, hlower.append _ _ (by decide), hkleym]
  refine head?_trimByte_of_ne ?_ (by decide)
  rw [List.head?_append]
  rfl

/-- Sanitising leaves the kind that pools resolve to as it is. -/
theorem sanitizeDNSLabel_pool (hlower : P.KeepsLower) :
    sanitizeDNSLabel P (str "pool") = str "pool" := by
  have hpool : P.toLower (str "pool") = str "pool" := by
    have happend := hlower.append (str "pool") [] (by decide)
    rwa [List.append_nil, hlower.nil, List.append_nil] at happend
  rw [sanitizeDNSLabel, show trimSpace (str "pool") = str "pool" from by decide +kernel, hpool]
  decide +kernel

/-! ## The parts of a name -/

/-- The anchor kind as it stands in a name. -/
def modeText (P : Platform) (identityAnchorKind : GoString) : GoString :=
  if sanitizeDNSLabel P identityAnchorKind = [] then str "identity"
  else sanitizeDNSLabel P identityAnchorKind

/-- The hash as it stands in a name. -/
def hashSuffix (P : Platform) (spiffeID : GoString) : GoString :=
  hexEncode ((P.sha1 spiffeID).take 4)

/-- The first part of a name, before it is cut. -/
def nameBase (P : Platform) (namespace_ bindingName : GoString) : GoString :=
  sanitizeDNSLabel P (str "kleym" ++ str "-" ++ namespace_ ++ str "-" ++ bindingName)

/-- The first part of a name, cut to a length. -/
def cutBase (base : GoString) (maxBaseLen : ℕ) : GoString :=
  if base.length > maxBaseLen then
    if trimByte (base.take maxBaseLen) 45 = [] then str "kleym"
    else trimByte (base.take maxBaseLen) 45
  else base

theorem buildClusterSPIFFEIDName_eq (namespace_ bindingName identityAnchorKind spiffeID : GoString) :
    buildClusterSPIFFEIDName P namespace_ bindingName identityAnchorKind spiffeID =
      cutBase (nameBase P namespace_ bindingName)
        (max 1 (63 - (modeText P identityAnchorKind).length -
          (hashSuffix P spiffeID).length - 2)) ++
      str "-" ++ modeText P identityAnchorKind ++ str "-" ++ hashSuffix P spiffeID := rfl

theorem isDNSLabel_modeText (kind : GoString) : isDNSLabel (modeText P kind) = true := by
  rw [modeText]
  split_ifs with h
  · decide
  · exact isDNSLabel_sanitizeDNSLabel h

/-- A lower-case hexadecimal digit: `[0-9a-f]`. -/
def lowerHex (b : UInt8) : Bool := (48 ≤ b && b ≤ 57) || (97 ≤ b && b ≤ 102)

theorem lowerHex_hexDigit {n : UInt8} (h : n < 16) : lowerHex (hexDigit n) = true := by
  rw [hexDigit]
  split_ifs with hdigit <;>
    simp only [lowerHex, Bool.or_eq_true, Bool.and_eq_true, decide_eq_true_iff,
      UInt8.le_iff_toNat_le, UInt8.lt_iff_toNat_lt, UInt8.toNat_add, UInt8.reduceToNat]
      at h hdigit ⊢ <;> omega

theorem lowerHex_of_mem_hashSuffix {spiffeID : GoString} {b : UInt8}
    (h : b ∈ hashSuffix P spiffeID) : lowerHex b = true := by
  obtain ⟨c, -, hb⟩ := List.mem_flatMap.mp h
  simp only [List.mem_cons, List.not_mem_nil, or_false] at hb
  rcases hb with rfl | rfl
  · exact lowerHex_hexDigit (nibbles_lt c).1
  · exact lowerHex_hexDigit (nibbles_lt c).2

theorem length_hashSuffix {spiffeID : GoString} (hsha : (P.sha1 spiffeID).length = 20) :
    (hashSuffix P spiffeID).length = 8 := by
  rw [hashSuffix, length_hexEncode, List.length_take, hsha]
  rfl

theorem lowerAlphanumeric_of_lowerHex {b : UInt8} (h : lowerHex b = true) :
    lowerAlphanumeric b = true := by
  simp only [lowerHex, lowerAlphanumeric, Bool.or_eq_true, Bool.and_eq_true, decide_eq_true_iff,
    UInt8.le_iff_toNat_le, UInt8.reduceToNat] at h ⊢
  omega

theorem isDNSLabel_hashSuffix {spiffeID : GoString} (hsha : (P.sha1 spiffeID).length = 20) :
    isDNSLabel (hashSuffix P spiffeID) = true := by
  have hbytes : ∀ b ∈ hashSuffix P spiffeID, lowerAlphanumeric b = true :=
    fun b hb => lowerAlphanumeric_of_lowerHex (lowerHex_of_mem_hashSuffix hb)
  have hne : hashSuffix P spiffeID ≠ [] := by
    intro hnil
    have hlength := length_hashSuffix hsha
    rw [hnil] at hlength
    cases hlength
  rw [isDNSLabel_iff]
  refine ⟨⟨_, List.head?_eq_some_head hne, hbytes _ (List.head_mem hne)⟩,
    ⟨_, List.getLast?_eq_some_getLast hne, hbytes _ (List.getLast_mem hne)⟩, fun b hb => ?_⟩
  rw [labelByte, hbytes b hb]
  rfl

/-- The first part of a name, cut to a positive length, fits it and is a label. -/
theorem cutBase_spec (hlower : P.KeepsLower) (namespace_ bindingName : GoString) {n : ℕ}
    (hn : 1 ≤ n) :
    (cutBase (nameBase P namespace_ bindingName) n).length ≤ n ∧
      isDNSLabel (cutBase (nameBase P namespace_ bindingName) n) = true := by
  have hhead : (nameBase P namespace_ bindingName).head? = some 107 := by
    rw [nameBase, List.append_assoc, List.append_assoc, List.append_assoc]
    exact head?_sanitizeDNSLabel hlower _
  have hlabel : isDNSLabel (nameBase P namespace_ bindingName) = true :=
    isDNSLabel_sanitizeDNSLabel fun hnil => by
      rw [nameBase, hnil] at hhead
      cases hhead
  generalize nameBase P namespace_ bindingName = base at *
  rw [cutBase]
  split_ifs with hlong hempty
  · -- the cut starts with the letter the base starts with, so it is not empty
    have hcut : (base.take n).head? = some 107 := by
      rw [List.head?_take, if_neg (by omega), hhead]
    rw [← List.head?_eq_none_iff, head?_trimByte_of_ne hcut (by decide)] at hempty
    cases hempty
  · refine ⟨?_, isDNSLabel_trimByte (fun b hb => ?_) hempty⟩
    · have hlength : (trimByte (base.take n) 45).length ≤ (base.take n).length :=
        ((List.rdropWhile_prefix _ _).length_le).trans (List.dropWhile_suffix _).length_le
      rw [List.length_take] at hlength
      omega
    · exact (isDNSLabel_iff.mp hlabel).2.2 b (List.mem_of_mem_take hb)
  · exact ⟨Nat.le_of_not_lt hlong, hlabel⟩

/-! ## Slices -/

/-- `s[:n]`: `none` where a slice out of range panics. -/
def sliceTo (s : GoString) (n : ℕ) : Option GoString :=
  if n ≤ s.length then some (s.take n) else none

/-- `cutBase` with its slice checked. -/
def cutBaseChecked (base : GoString) (maxBaseLen : ℕ) : Option GoString :=
  if base.length > maxBaseLen then
    (sliceTo base maxBaseLen).map fun cut =>
      if trimByte cut 45 = [] then str "kleym" else trimByte cut 45
  else some base

/-- `BuildClusterSPIFFEIDName` with its two slices checked. -/
def buildClusterSPIFFEIDNameChecked (P : Platform)
    (namespace_ bindingName identityAnchorKind spiffeID : GoString) : Option GoString :=
  (sliceTo (P.sha1 spiffeID) 4).bind fun digest =>
    (cutBaseChecked (nameBase P namespace_ bindingName)
      (max 1 (63 - (modeText P identityAnchorKind).length - (hexEncode digest).length - 2))).map
      fun base => base ++ str "-" ++ modeText P identityAnchorKind ++ str "-" ++ hexEncode digest

/-- The base is only sliced where it is longer than the slice. -/
theorem cutBaseChecked_eq (base : GoString) (n : ℕ) :
    cutBaseChecked base n = some (cutBase base n) := by
  rw [cutBaseChecked, cutBase]
  split_ifs with hlong hempty
  · rw [sliceTo, if_pos (Nat.le_of_lt hlong), Option.map_some, if_pos hempty]
  · rw [sliceTo, if_pos (Nat.le_of_lt hlong), Option.map_some, if_neg hempty]
  · rfl

theorem buildClusterSPIFFEIDNameChecked_eq {spiffeID : GoString}
    (hsha : (P.sha1 spiffeID).length = 20) (namespace_ bindingName identityAnchorKind : GoString) :
    buildClusterSPIFFEIDNameChecked P namespace_ bindingName identityAnchorKind spiffeID =
      some (buildClusterSPIFFEIDName P namespace_ bindingName identityAnchorKind spiffeID) := by
  have hdigest : sliceTo (P.sha1 spiffeID) 4 = some ((P.sha1 spiffeID).take 4) := by
    rw [sliceTo, if_pos (by omega)]
  rw [buildClusterSPIFFEIDNameChecked, hdigest, Option.bind_some, cutBaseChecked_eq,
    Option.map_some, buildClusterSPIFFEIDName_eq, hashSuffix]

/-- **Generated names are DNS labels.** For any strings, and a kind that leaves room
for at least one more byte, the name has at most 63 bytes, is a label, ends in the
kind and eight hex digits of the hash, and is computed without a slice out of range;
the kind of a resolved pool stands in it as it is. -/
theorem buildClusterSPIFFEIDName_isDNSLabel (hlower : P.KeepsLower)
    (hsha : ∀ s, (P.sha1 s).length = 20)
    (namespace_ bindingName identityAnchorKind spiffeID : GoString)
    (hkind : (modeText P identityAnchorKind).length ≤ 52) :
    let name := buildClusterSPIFFEIDName P namespace_ bindingName identityAnchorKind spiffeID
    name.length ≤ 63 ∧ isDNSLabel name = true ∧
    str "-" ++ modeText P identityAnchorKind ++ str "-" ++ hashSuffix P spiffeID <:+ name ∧
    (hashSuffix P spiffeID).length = 8 ∧ (∀ b ∈ hashSuffix P spiffeID, lowerHex b = true) ∧
    buildClusterSPIFFEIDNameChecked P namespace_ bindingName identityAnchorKind spiffeID =
      some name ∧
    modeText P (str "pool") = str "pool" := by
  have hhash := length_hashSuffix (hsha spiffeID)
  obtain ⟨hlength, hlabel⟩ := cutBase_spec hlower namespace_ bindingName
    (Nat.le_max_left 1 (63 - (modeText P identityAnchorKind).length -
      (hashSuffix P spiffeID).length - 2))
  have hhyphen : (str "-").length = 1 := by decide
  refine ⟨?_, ?_, ?_, hhash, fun b => lowerHex_of_mem_hashSuffix,
    buildClusterSPIFFEIDNameChecked_eq (hsha spiffeID) _ _ _, ?_⟩
  · rw [buildClusterSPIFFEIDName_eq]
    simp only [List.length_append, hhyphen]
    omega
  · rw [buildClusterSPIFFEIDName_eq]
    exact isDNSLabel_append (isDNSLabel_append hlabel (isDNSLabel_modeText _))
      (isDNSLabel_hashSuffix (hsha spiffeID))
  · rw [buildClusterSPIFFEIDName_eq]
    exact ⟨_, by simp only [List.append_assoc]; rfl⟩
  · rw [modeText, sanitizeDNSLabel_pool hlower, if_neg (by decide)]

/-- A binding in a namespace with a long name, under a constant hash. -/
theorem buildClusterSPIFFEIDName_isDNSLabel_pool :
    (buildClusterSPIFFEIDName (referencePlatform (fun _ => List.replicate 20 171) fun _ => [])
      (List.replicate 70 110) (str "b") (str "pool") (str "spiffe://t")).length ≤ 63 :=
  (buildClusterSPIFFEIDName_isDNSLabel (keepsLower_referencePlatform _ _) (fun _ => rfl)
    (List.replicate 70 110) (str "b") (str "pool") (str "spiffe://t") (by decide +kernel)).1

end Names

/-! ## Labels of managed outputs

The namespace and the name of a binding are label values of its output, and go there as
they are. A namespace is short enough for a label value; a name need not be. -/

/-- `validation.IsDNS1123Label`. -/
def isDNS1123Label (s : GoString) : List GoString :=
  require (s.length ≤ 63) (str "must be no more than 63 characters") ++
  require (isDNSLabel s)
    (str "a lowercase RFC 1123 label must consist of lower case alphanumeric characters or '-', " ++
      str "and must start and end with an alphanumeric character")

/-- The key of an object in a namespace that the API server admits. -/
structure NamespacedName.Admitted (key : NamespacedName) : Prop where
  namespace_ : (isDNS1123Label key.namespace_).length = 0
  name : (isDNS1123Subdomain key.name).length = 0

section ManagedLabels

variable {key : NamespacedName} {s : GoString}

theorem isValidLabelValue_of_bounded {inner : UInt8 → Bool}
    (hinner : ∀ b, inner b = true → (alphanumeric b || b == 45 || b == 95 || b == 46) = true)
    (h : bounded lowerAlphanumeric inner s = true) :
    (isValidLabelValue s).length = 0 ↔ s.length ≤ 63 := by
  have htext : labelText s = true :=
    bounded_mono (fun b hb => by rw [alphanumeric, hb]; rfl) hinner h
  rw [isValidLabelValue, htext, Bool.or_true]
  constructor
  · exact fun hvalid => of_decide_eq_true (eq_nil_of_require hvalid).1
  · intro hlength
    rw [decide_eq_true hlength]
    rfl

/-- A name is a label value when it is short enough for one. -/
theorem isValidLabelValue_of_isDNS1123Subdomain (h : (isDNS1123Subdomain s).length = 0) :
    (isValidLabelValue s).length = 0 ↔ s.length ≤ 63 := by
  refine isValidLabelValue_of_bounded (fun b hb => ?_) (bounded_of_isDNS1123Subdomain h)
  simp only [Bool.or_eq_true, alphanumeric] at hb ⊢
  tauto

/-- A namespace always is. -/
theorem isValidLabelValue_of_isDNS1123Label (h : (isDNS1123Label s).length = 0) :
    (isValidLabelValue s).length = 0 := by
  obtain ⟨hlength, hlabel⟩ := eq_nil_of_require h
  refine (isValidLabelValue_of_bounded (fun b hb => ?_) (eq_nil_of_require_last hlabel)).mpr
    (of_decide_eq_true hlength)
  simp only [labelByte, Bool.or_eq_true, alphanumeric] at hb ⊢
  tauto

theorem nodup_managedClusterSPIFFEIDLabels (key : NamespacedName) :
    ((managedClusterSPIFFEIDLabels key).map Prod.fst).Nodup := by
  rw [managedClusterSPIFFEIDLabels]
  simp only [List.map_cons, List.map_nil]
  decide

/-- The labels of the operator are label values exactly when the binding's name is. -/
theorem managedClusterSPIFFEIDLabels_valid_iff (hkey : key.Admitted) :
    (∀ entry ∈ managedClusterSPIFFEIDLabels key, (isValidLabelValue entry.2).length = 0) ↔
      key.name.length ≤ 63 := by
  have hkleym : (isValidLabelValue (str "kleym")).length = 0 := by decide
  rw [managedClusterSPIFFEIDLabels, List.forall_mem_cons, List.forall_mem_cons,
    List.forall_mem_singleton, isValidLabelValue_of_isDNS1123Subdomain hkey.name]
  exact ⟨fun h => h.2.1, fun h => ⟨hkleym, h, isValidLabelValue_of_isDNS1123Label hkey.namespace_⟩⟩

/-- The labels of an object under the keys the operator sets for a binding are label values. -/
def ClusterSPIFFEID.LabelsAdmitted (object : ClusterSPIFFEID) (key : NamespacedName) : Prop :=
  ∀ k ∈ (managedClusterSPIFFEIDLabels key).map Prod.fst,
    (isValidLabelValue (entryOf (Json.asStringMap object.labels) k)).length = 0

/-- An object with the operator's labels among its own. -/
theorem labelsAdmitted_iff {object : ClusterSPIFFEID} {entries : List (GoString × GoString)}
    (hlabels : object.labels = some (ofStringMap entries))
    (hentries : ∀ entry ∈ managedClusterSPIFFEIDLabels key, entries.lookup entry.1 = some entry.2)
    (hkey : key.Admitted) : object.LabelsAdmitted key ↔ key.name.length ≤ 63 := by
  have hvalue : ∀ entry ∈ managedClusterSPIFFEIDLabels key,
      entryOf (Json.asStringMap object.labels) entry.1 = entry.2 := by
    intro entry hentry
    rw [hlabels, asStringMap_ofStringMap, entryOf, Option.getD_some, hentries entry hentry]
    rfl
  rw [← managedClusterSPIFFEIDLabels_valid_iff hkey, ClusterSPIFFEID.LabelsAdmitted,
    List.forall_mem_map]
  constructor
  · intro h entry hentry
    rw [← hvalue entry hentry]
    exact h entry hentry
  · intro h entry hentry
    rw [hvalue entry hentry]
    exact h entry hentry

end ManagedLabels

/-- **Labels fit when the binding's name does.** For every binding the API server admits and
every plan, the values `DesiredClusterSPIFFEID` sets are label values, and neither the object
that is created nor any live object it is merged into is refused for them, exactly when the
binding's name has at most 63 bytes. -/
theorem desired_labels_admitted_iff (P : Platform) {key : NamespacedName} (hkey : key.Admitted)
    (plan : Plan) (className : GoString) :
    let desired := desiredClusterSPIFFEID P key plan className
    ((∀ entry ∈ (Json.asStringMap desired.labels).getD [],
      (isValidLabelValue entry.2).length = 0) ↔ key.name.length ≤ 63) ∧
    (∀ claimID, (setClusterSPIFFEIDOwnershipClaim desired claimID).LabelsAdmitted key ↔
      key.name.length ≤ 63) ∧
    ∀ current, (mergeDesiredClusterSPIFFEID current desired).LabelsAdmitted key ↔
      key.name.length ≤ 63 := by
  have hlabels : Json.asStringMap (desiredClusterSPIFFEID P key plan className).labels =
      some (managedClusterSPIFFEIDLabels key) := asStringMap_ofStringMap _
  have hnodup := nodup_managedClusterSPIFFEIDLabels key
  refine ⟨?_, fun claimID => ?_, fun current => ?_⟩
  · rw [hlabels]
    exact managedClusterSPIFFEIDLabels_valid_iff hkey
  · exact labelsAdmitted_iff rfl (fun entry hentry => lookup_of_mem hnodup hentry) hkey
  · refine labelsAdmitted_iff rfl (fun entry hentry => ?_) hkey
    rw [hlabels]
    exact lookup_foldl_setEntry hnodup hentry _

/-- The desired output of a binding in the namespace `n`, for a plan without selectors. -/
def plainOutput (name : GoString) : ClusterSPIFFEID :=
  desiredClusterSPIFFEID (referencePlatform (fun _ => []) fun _ => []) ⟨str "n", name⟩
    ⟨str "spiffe://t", [], .object [], ⟨str "pool", str "p"⟩, str "v"⟩ []

theorem desired_labels_admitted_iff_short :
    (setClusterSPIFFEIDOwnershipClaim (plainOutput (str "b")) (str "c")).LabelsAdmitted
      ⟨str "n", str "b"⟩ := by
  have hkey : NamespacedName.Admitted ⟨str "n", str "b"⟩ := ⟨by decide, by decide⟩
  exact ((desired_labels_admitted_iff _ hkey _ []).2.1 (str "c")).mpr (by decide)

/-- A binding whose name has 64 letters is admitted, and its output has a label that is
not. -/
theorem desired_labels_not_admitted :
    NamespacedName.Admitted ⟨str "n", List.replicate 64 97⟩ ∧
    ∃ entry ∈ (Json.asStringMap (plainOutput (List.replicate 64 97)).labels).getD [],
      isValidLabelValue entry.2 ≠ [] := by
  refine ⟨⟨by decide, by decide⟩, (str "kleym.sonda.red/binding-name", List.replicate 64 97), ?_,
    by decide⟩
  rw [show Json.asStringMap (plainOutput (List.replicate 64 97)).labels = some _ from
    asStringMap_ofStringMap _]
  exact List.mem_cons_of_mem _ List.mem_cons_self

end Kleym
