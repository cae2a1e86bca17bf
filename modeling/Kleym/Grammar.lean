import Kleym.Gaie
import Kleym.Apimachinery
import Kleym.Objects

/-!
# The grammar of pool selectors

`DeriveSelectorsFromPool` accepts a pool selector in two shapes, an object whose
only key is `matchLabels`, or the labels themselves, and refuses everything else
in several overlapping steps. `InferencePool.Declares` is the grammar those steps
add up to, and `deriveSelectorsFromPool_eq_ok_iff` says that they do: the function
succeeds on exactly the pools that declare valid labels, with one pod-label
selector per label.
-/

namespace Kleym

open GoString

/-- The pool declares the labels `m`: its selector is `{matchLabels: m}` with no
other key, or `m` itself with neither of the keys of a structured selector. -/
def InferencePool.Declares (pool : InferencePool) (m : List (GoString × Json)) : Prop :=
  ∃ fields selector, pool.spec = some (.object fields) ∧
    fields.lookup (str "selector") = some (.object selector) ∧
    ((selector.lookup (str "matchLabels") = some (.object m) ∧
        ∀ field ∈ selector, field.1 = str "matchLabels") ∨
      (selector = m ∧ m.lookup (str "matchLabels") = none ∧
        m.lookup (str "matchExpressions") = none))

section Labels

variable (P : Platform)

/-- A label that may enter a selector. -/
def LabelValid (field : GoString × Json) : Prop :=
  ∃ value, field.2 = .string value ∧ value ≠ [] ∧ (P.isValidLabelValue value).length = 0 ∧
    (P.isQualifiedName field.1).length = 0

/-- At least one label, and all of them valid. -/
def LabelsValid (m : List (GoString × Json)) : Prop := m ≠ [] ∧ ∀ field ∈ m, LabelValid P field

/-- The text of a label's value. -/
def labelValue (field : GoString × Json) : GoString := field.2.asString.getD []

/-- The selector a label is turned into. -/
def fieldSelector (field : GoString × Json) : GoString :=
  podLabelSelector field.1 (labelValue field)

end Labels

variable {P : Platform} {pool : InferencePool} {m : List (GoString × Json)}

theorem LabelValid.isQualifiedName {field : GoString × Json} (h : LabelValid P field) :
    (P.isQualifiedName field.1).length = 0 := by
  obtain ⟨-, -, -, -, hkey⟩ := h
  exact hkey

theorem LabelValid.eq_string {field : GoString × Json} (h : LabelValid P field) :
    field.2 = .string (labelValue field) := by
  obtain ⟨value, hvalue, -⟩ := h
  rw [labelValue, hvalue]
  rfl

theorem LabelsValid.perm {m' : List (GoString × Json)} (h : LabelsValid P m) (hperm : m.Perm m') :
    LabelsValid P m' :=
  ⟨fun hnil => h.1 (hperm.trans (hnil ▸ List.Perm.nil)).eq_nil,
    fun field hfield => h.2 field (hperm.mem_iff.mpr hfield)⟩

/-- The loop over the labels succeeds when all of them are valid, with a selector
for each. -/
theorem labelSelectors_eq_ok_iff (hP : P.Documented) {derived : List GoString} :
    labelSelectors P m = .ok derived ↔
      (∀ field ∈ m, LabelValid P field) ∧ derived = m.map fieldSelector := by
  induction m generalizing derived with
  | nil => simp [labelSelectors, eq_comm]
  | cons field m ih =>
    obtain ⟨key, value⟩ := field
    rw [labelSelectors, List.forall_mem_cons, List.map_cons]
    constructor
    · intro h
      cases htext : value.asString with
      | none =>
        rw [htext] at h
        cases h
      | some text =>
        rw [htext] at h
        simp only at h
        split_ifs at h with hkey hempty hname hvalue
        cases hrest : labelSelectors P m with
        | error message =>
          rw [hrest] at h
          cases h
        | ok rest =>
          rw [hrest] at h
          cases h
          obtain ⟨hvalid, hrest⟩ := ih.mp hrest
          have hstring : value = .string text := by
            cases value <;> simp_all [Json.asString]
          subst hstring
          refine ⟨⟨⟨text, rfl, hempty, Nat.eq_zero_of_not_pos hvalue,
            Nat.eq_zero_of_not_pos hname⟩, hvalid⟩, ?_⟩
          rw [hrest]
          rfl
    · rintro ⟨⟨⟨text, hstring, hempty, hvalue, hname⟩, hvalid⟩, rfl⟩
      simp only at hstring hname
      subst hstring
      have hkey : key ≠ [] := hP.qualifiedName_ne_nil hname
      simp only [Json.asString, if_neg hkey, if_neg hempty, hname, hvalue, gt_iff_lt, lt_irrefl,
        if_false, ih.mpr ⟨hvalid, rfl⟩]
      rfl

/-- The two shapes: what `selectorLabels` accepts of a selector without
`matchExpressions`. -/
theorem selectorLabels_eq_ok_iff {selector : List (GoString × Json)} :
    selectorLabels selector = .ok m ↔
      (selector.lookup (str "matchLabels") = some (.object m) ∧
        ∀ field ∈ selector, field.1 = str "matchLabels") ∨
      (selector = m ∧ m.lookup (str "matchLabels") = none ∧
        ∀ field ∈ m, field.2.asString.isSome = true) := by
  rw [selectorLabels]
  cases hlookup : selector.lookup (str "matchLabels") with
  | none =>
    simp only [reduceCtorEq, false_and, false_or]
    split_ifs with hall
    · rw [List.all_eq_true] at hall
      constructor
      · rintro ⟨⟩
        exact ⟨rfl, hlookup, hall⟩
      · rintro ⟨rfl, -⟩
        rfl
    · refine ⟨nofun, ?_⟩
      rintro ⟨rfl, -, hstrings⟩
      exact absurd (List.all_eq_true.mpr hstrings) hall
  | some labels =>
    simp only
    have hne : ¬(selector = m ∧ m.lookup (str "matchLabels") = none ∧
        ∀ field ∈ m, field.2.asString.isSome = true) := by
      rintro ⟨rfl, hnone, -⟩
      rw [hlookup] at hnone
      cases hnone
    simp only [hne, or_false]
    cases hfind : selector.find? fun field => field.1 ≠ str "matchLabels" with
    | some field =>
      refine ⟨nofun, ?_⟩
      rintro ⟨-, honly⟩
      have hother := List.find?_some hfind
      rw [decide_eq_true_iff] at hother
      exact absurd (honly field (List.mem_of_find?_eq_some hfind)) hother
    | none =>
      have honly : ∀ field ∈ selector, field.1 = str "matchLabels" := by
        intro field hfield
        simpa using List.find?_eq_none.mp hfind field hfield
      rw [and_iff_left honly]
      cases labels <;> simp [Json.asObject]

theorem nestedSelector_eq_ok_some_iff {selector : List (GoString × Json)} :
    nestedSelector P pool.spec = .ok (some selector) ↔ ∃ fields,
      pool.spec = some (.object fields) ∧
        fields.lookup (str "selector") = some (.object selector) := by
  rcases pool.spec with _ | (_ | _ | _ | _ | _ | fields)
  case some.object =>
    simp only [nestedSelector, Option.some.injEq, Json.object.injEq, exists_eq_left']
    rcases fields.lookup (str "selector") with _ | (_ | _ | _ | _ | _ | _) <;> simp
  all_goals simp [nestedSelector]

/-- **The grammar of pool selectors**: `DeriveSelectorsFromPool` succeeds on the
pools that declare valid labels, and returns the labels in their structured form
together with one selector per label. -/
theorem deriveSelectorsFromPool_eq_ok_iff (hP : P.Documented) {podSelector : Json}
    {derived : List GoString} :
    deriveSelectorsFromPool P pool = .ok (podSelector, derived) ↔
      ∃ m, pool.Declares m ∧ LabelsValid P m ∧
        podSelector = .object [(str "matchLabels", .object m)] ∧ derived = m.map fieldSelector := by
  rw [deriveSelectorsFromPool]
  constructor
  · intro h
    rcases hnested : nestedSelector P pool.spec with message | _ | selector
    · rw [hnested] at h
      cases h
    · rw [hnested] at h
      cases h
    rw [hnested] at h
    simp only at h
    split_ifs at h with hlength hexpressions
    rcases hlabels : selectorLabels selector with message | m
    · rw [hlabels] at h
      cases h
    rw [hlabels] at h
    simp only at h
    split_ifs at h with hempty
    rcases hderived : labelSelectors P m with message | derived'
    · rw [hderived] at h
      cases h
    rw [hderived] at h
    cases h
    obtain ⟨fields, hspec, hselector⟩ := nestedSelector_eq_ok_some_iff.mp hnested
    obtain ⟨hvalid, hmap⟩ := (labelSelectors_eq_ok_iff hP).mp hderived
    refine ⟨m, ⟨fields, selector, hspec, hselector, ?_⟩,
      ⟨fun hnil => hempty (hnil ▸ rfl), hvalid⟩, rfl, hmap⟩
    rcases selectorLabels_eq_ok_iff.mp hlabels with hform | ⟨rfl, hnone, -⟩
    · exact Or.inl hform
    · exact Or.inr ⟨rfl, hnone, Option.not_isSome_iff_eq_none.mp hexpressions⟩
  · rintro ⟨m, ⟨fields, selector, hspec, hselector, hform⟩, ⟨hne, hvalid⟩, rfl, rfl⟩
    have hlabels : selectorLabels selector = .ok m ∧
        selector.lookup (str "matchExpressions") = none ∧ selector ≠ [] := by
      rcases hform with ⟨hlookup, honly⟩ | ⟨rfl, hnone, hexpressions⟩
      · refine ⟨selectorLabels_eq_ok_iff.mpr (Or.inl ⟨hlookup, honly⟩), ?_, ?_⟩
        · rw [lookup_eq_none, List.mem_map]
          rintro ⟨field, hfield, hkey⟩
          rw [honly field hfield] at hkey
          exact absurd hkey (by decide)
        · rintro rfl
          cases hlookup
      · refine ⟨selectorLabels_eq_ok_iff.mpr (Or.inr ⟨rfl, hnone, fun field hfield => ?_⟩),
          hexpressions, hne⟩
        rw [(hvalid field hfield).eq_string]
        rfl
    obtain ⟨hlabels, hexpressions, hselectorNe⟩ := hlabels
    have hpos : ∀ {l : List (GoString × Json)}, l ≠ [] → ¬l.length = 0 :=
      fun h h0 => h (List.length_eq_zero_iff.mp h0)
    rw [nestedSelector_eq_ok_some_iff.mpr ⟨fields, hspec, hselector⟩]
    simp only [if_neg (hpos hselectorNe), hexpressions, Option.isSome_none, Bool.false_eq_true,
      if_false, hlabels, if_neg (hpos hne), (labelSelectors_eq_ok_iff hP).mpr ⟨hvalid, rfl⟩]

/-! ## The derived selectors -/

/-- The byte `:`. -/
def colon : UInt8 := 58

theorem nameByte_ne_colon {c : UInt8} (h : Apimachinery.nameByte c = true ∨ c = 47) :
    c ≠ colon := by
  rintro rfl
  exact absurd h (by decide)

/-- A qualified name contains no colon. -/
theorem colon_not_mem_of_isQualifiedName (hP : P.Documented) {key : GoString}
    (h : (P.isQualifiedName key).length = 0) : colon ∉ key :=
  fun hmem => nameByte_ne_colon (hP.qualifiedName h colon hmem) rfl

theorem podLabelSelector_eq (key value : GoString) :
    podLabelSelector key value = podLabelPrefix ++ (key ++ colon :: value) := by
  rw [podLabelSelector, show str ":" = [colon] from by decide, List.append_assoc,
    List.append_assoc, List.singleton_append]

/-- A pod-label selector whose key has no colon shows its key and its value. -/
theorem podLabelSelector_inj {key key' value value' : GoString} (hkey : colon ∉ key)
    (hkey' : colon ∉ key') (h : podLabelSelector key value = podLabelSelector key' value') :
    key = key' ∧ value = value' := by
  rw [podLabelSelector_eq, podLabelSelector_eq] at h
  exact append_sep_inj hkey hkey' (List.append_cancel_left h)

/-- The selectors of valid labels, as a set. -/
theorem mem_map_fieldSelector (hvalid : ∀ field ∈ m, LabelValid P field) {s : GoString} :
    s ∈ m.map fieldSelector ↔ ∃ key value, (key, .string value) ∈ m ∧
      s = podLabelSelector key value := by
  rw [List.mem_map]
  constructor
  · rintro ⟨⟨key, value⟩, hfield, rfl⟩
    have hstring : value = .string (labelValue (key, value)) := (hvalid _ hfield).eq_string
    exact ⟨key, labelValue (key, value), hstring ▸ hfield, rfl⟩
  · rintro ⟨key, value, hfield, rfl⟩
    exact ⟨_, hfield, rfl⟩

theorem nodup_map_fieldSelector (hP : P.Documented) (hvalid : ∀ field ∈ m, LabelValid P field)
    (hnodup : (m.map Prod.fst).Nodup) : (m.map fieldSelector).Nodup := by
  refine (List.nodup_map_iff_inj_on hnodup.of_map).mpr fun field hfield field' hfield' h => ?_
  have hkey := fun field hfield =>
    colon_not_mem_of_isQualifiedName hP (hvalid field hfield).isQualifiedName
  obtain ⟨heq, -⟩ := podLabelSelector_inj (hkey field hfield) (hkey field' hfield') h
  exact List.inj_on_of_nodup_map hnodup hfield hfield' heq

theorem resolveInferenceTarget_eq_ok_iff (hP : P.Documented) {target : ResolvedInferenceTarget} :
    resolveInferenceTarget P pool = .ok target ↔
      ∃ m, pool.Declares m ∧ LabelsValid P m ∧ target = ⟨⟨str "pool", pool.name⟩,
        .object [(str "matchLabels", .object m)], m.map fieldSelector⟩ := by
  rw [resolveInferenceTarget]
  constructor
  · intro h
    rcases hderive : deriveSelectorsFromPool P pool with message | ⟨podSelector, derived⟩
    · rw [hderive] at h
      cases h
    · rw [hderive] at h
      cases h
      obtain ⟨m, hdeclares, hvalid, rfl, rfl⟩ := (deriveSelectorsFromPool_eq_ok_iff hP).mp hderive
      exact ⟨m, hdeclares, hvalid, rfl⟩
  · rintro ⟨m, hdeclares, hvalid, rfl⟩
    rw [(deriveSelectorsFromPool_eq_ok_iff hP).mpr ⟨m, hdeclares, hvalid, rfl, rfl⟩]

/-- A pool declares one map of labels. -/
theorem InferencePool.Declares.unique {m' : List (GoString × Json)} (h : pool.Declares m)
    (h' : pool.Declares m') : m = m' := by
  obtain ⟨fields, selector, hspec, hselector, hform⟩ := h
  obtain ⟨fields', selector', hspec', hselector', hform'⟩ := h'
  rw [hspec, Option.some.injEq, Json.object.injEq] at hspec'
  subst hspec'
  rw [hselector, Option.some.injEq, Json.object.injEq] at hselector'
  subst hselector'
  rcases hform with ⟨hlookup, -⟩ | ⟨rfl, hnone, -⟩ <;>
    rcases hform' with ⟨hlookup', -⟩ | ⟨rfl, hnone', -⟩ <;> simp_all

/-! ## Iteration orders -/

/-- No map in the pool has a key twice. -/
def InferencePool.WellFormed (pool : InferencePool) : Prop :=
  ∀ spec, pool.spec = some spec → spec.wellFormed = true

/-- The same pool, with its maps visited in another order. -/
def InferencePool.SameContent (pool pool' : InferencePool) : Prop :=
  pool'.gvk = pool.gvk ∧ pool'.namespace_ = pool.namespace_ ∧ pool'.name = pool.name ∧
    Option.Rel (fun spec spec' => spec.deepEqual spec' = true) pool.spec pool'.spec

section Order

variable (hpool : pool.WellFormed)

include hpool in
theorem InferencePool.Declares.nodup_keys (h : pool.Declares m) : (m.map Prod.fst).Nodup := by
  obtain ⟨fields, selector, hspec, hselector, hform⟩ := h
  have hfields := Json.wellFormed_object.mp (hpool _ hspec)
  have hsel := Json.wellFormed_object.mp (hfields.2 _ (mem_of_lookup hselector))
  rcases hform with ⟨hlookup, -⟩ | ⟨rfl, -, -⟩
  · exact (Json.wellFormed_object.mp (hsel.2 _ (mem_of_lookup hlookup))).1
  · exact hsel.1

include hpool in
/-- The labels of such a pool are a map as well, whether or not they are valid. -/
theorem wellFormed_podSelector {podSelector : Json} {derived : List GoString}
    (h : deriveSelectorsFromPool P pool = .ok (podSelector, derived)) :
    podSelector.wellFormed = true := by
  rw [deriveSelectorsFromPool] at h
  rcases hnested : nestedSelector P pool.spec with message | _ | selector
  · rw [hnested] at h
    cases h
  · rw [hnested] at h
    cases h
  rw [hnested] at h
  dsimp only at h
  split_ifs at h
  rcases hlabels : selectorLabels selector with message | labels
  · rw [hlabels] at h
    cases h
  rw [hlabels] at h
  dsimp only at h
  split_ifs at h
  rcases hderived : labelSelectors P labels with message | selectors
  · rw [hderived] at h
    cases h
  rw [hderived] at h
  cases h
  obtain ⟨fields, hspec, hselector⟩ := nestedSelector_eq_ok_some_iff.mp hnested
  have hfields := Json.wellFormed_object.mp (hpool _ hspec)
  have hsel : (Json.object selector).wellFormed = true := hfields.2 _ (mem_of_lookup hselector)
  have hmap : (Json.object labels).wellFormed = true := by
    rcases selectorLabels_eq_ok_iff.mp hlabels with ⟨hlookup, -⟩ | ⟨rfl, -⟩
    · exact (Json.wellFormed_object.mp hsel).2 _ (mem_of_lookup hlookup)
    · exact hsel
  exact Json.wellFormed_object.mpr ⟨List.nodup_singleton _, List.forall_mem_singleton.mpr hmap⟩

include hpool in
/-- The labels of the same pool visited in another order are the same labels. -/
theorem InferencePool.Declares.sameContent {pool' : InferencePool} (h : pool.Declares m)
    (hsame : pool.SameContent pool') :
    ∃ m', pool'.Declares m' ∧ (Json.object m).deepEqual (.object m') = true := by
  obtain ⟨fields, selector, hspec, hselector, hform⟩ := h
  obtain ⟨-, -, -, hrel⟩ := hsame
  have hfields := Json.wellFormed_object.mp (hpool _ hspec)
  have hsel := Json.wellFormed_object.mp (hfields.2 _ (mem_of_lookup hselector))
  rw [hspec] at hrel
  obtain ⟨spec', hspec', hequal⟩ : ∃ spec', pool'.spec = some spec' ∧
      (Json.object fields).deepEqual spec' = true := by
    cases hspec' : pool'.spec with
    | none =>
      rw [hspec'] at hrel
      cases hrel
    | some spec' =>
      rw [hspec'] at hrel
      cases hrel with
      | some hequal => exact ⟨spec', rfl, hequal⟩
  obtain ⟨fields', rfl, -, hfields'⟩ := Json.deepEqual_object.mp hequal
  obtain ⟨value, hselector', hequal⟩ := hfields' _ (mem_of_lookup hselector)
  obtain ⟨selector', rfl, -, hsel'⟩ := Json.deepEqual_object.mp hequal
  have hkeys := Json.keys_perm hsel.1 hequal
  rcases hform with ⟨hlookup, honly⟩ | ⟨rfl, hnone, hexpressions⟩
  · obtain ⟨value, hlookup', hequal⟩ := hsel' _ (mem_of_lookup hlookup)
    obtain ⟨m', rfl, -, -⟩ := Json.deepEqual_object.mp hequal
    refine ⟨m', ⟨fields', selector', hspec', hselector', Or.inl ⟨hlookup', ?_⟩⟩, hequal⟩
    intro field hfield
    obtain ⟨field₀, hfield₀, hkey⟩ :=
      List.mem_map.mp (hkeys.mem_iff.mpr (List.mem_map_of_mem hfield))
    rw [← hkey, honly field₀ hfield₀]
  · refine ⟨selector', ⟨fields', selector', hspec', hselector', Or.inr ⟨rfl, ?_, ?_⟩⟩, hequal⟩
    · rw [lookup_eq_none, ← hkeys.mem_iff]
      exact lookup_eq_none.mp hnone
    · rw [lookup_eq_none, ← hkeys.mem_iff]
      exact lookup_eq_none.mp hexpressions

include hpool in
/-- Whatever order the maps of a pool are visited in, it resolves to the same anchor,
to a deeply equal pod selector and to a permutation of the same selectors. -/
theorem resolveInferenceTarget_sameContent (hP : P.Documented) {pool' : InferencePool}
    {target : ResolvedInferenceTarget} (hsame : pool.SameContent pool')
    (h : resolveInferenceTarget P pool = .ok target) :
    ∃ target', resolveInferenceTarget P pool' = .ok target' ∧
      target'.identityAnchor = target.identityAnchor ∧
      target.podSelector.deepEqual target'.podSelector = true ∧
      target.derivedSelectors.Perm target'.derivedSelectors := by
  obtain ⟨m, hdeclares, hvalid, rfl⟩ := (resolveInferenceTarget_eq_ok_iff hP).mp h
  obtain ⟨m', hdeclares', hequal⟩ := hdeclares.sameContent hpool hsame
  have hperm : m.Perm m' := Json.perm_of_strings (hdeclares.nodup_keys hpool) hequal
    fun field hfield => ⟨_, (hvalid.2 field hfield).eq_string⟩
  refine ⟨_, (resolveInferenceTarget_eq_ok_iff hP).mpr
    ⟨m', hdeclares', hvalid.perm hperm, rfl⟩, ?_, ?_, hperm.map fieldSelector⟩
  · rw [hsame.2.2.1]
  · refine Json.deepEqual_object.mpr ⟨_, rfl, rfl, fun field hfield => ?_⟩
    rw [List.mem_singleton.mp hfield]
    exact ⟨.object m', by simp, hequal⟩

end Order

end Kleym
