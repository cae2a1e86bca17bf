import Kleym.Exclusivity
import Kleym.Canonical
import Kleym.Grammar

/-!
# The planner's contract

`PlanIdentity` validates its input, puts the selectors together, canonicalises
them, and validates the result once more (`planIdentity_eq_ok_iff`). The safety scan
at the end accepts exactly the lists that render the boundary and say nothing else
about it (`validateRenderedSafetySelectors_iff`).

From there: the selectors of a plan never leave the boundary, whatever the derived
selectors were; a pool that was resolved is refused for one reason only; equal
SPIFFE IDs have equal components; and the order in which the maps of a pool are
visited does not show in the plan.
-/

namespace Kleym

open GoString

variable {P : Platform}

/-! ## The safety scan, both ways -/

section Scan

variable {t : Boundary} {l : List GoString}

/-- A scan over selectors that the boundary admits runs to its end, and counts. -/
theorem scanSafetySelectors_of_admits (hblank : trimSpace t.serviceAccountName ≠ [])
    (h : ∀ s ∈ l, t.Admits s) (seen : SafetyScan) :
    scanSafetySelectors P t.namespace_ t.serviceAccountName t.variant l seen = .ok
      ⟨seen.hasNamespaceSelector || l.any (hasPrefix · nsPrefix),
        seen.hasServiceAccountSelector || l.any (hasPrefix · saPrefix),
        seen.variantSelectorCount + l.countP (hasPrefix · variantSelectorPrefix)⟩ := by
  induction l generalizing seen with
  | nil => simp [scanSafetySelectors]
  | cons s l ih =>
    have ih := ih fun s hs => h s (List.mem_cons_of_mem _ hs)
    obtain ⟨hns, hsa, hvariant⟩ := h s List.mem_cons_self
    rw [scanSafetySelectors]
    -- the three prefixes exclude each other
    by_cases h₁ : s.hasPrefix nsPrefix = true
    · have h₂ := hasPrefix_eq_false h₁ (b := saPrefix) (by decide) (by decide)
      have h₃ := hasPrefix_eq_false h₁ (b := variantSelectorPrefix) (by decide) (by decide)
      rw [if_pos h₁, hns h₁, trimPrefix_append, if_neg (not_not.mpr rfl), ih]
      rw [← hns h₁]
      simp [h₁, h₂, h₃]
    by_cases h₂ : s.hasPrefix saPrefix = true
    · have h₃ := hasPrefix_eq_false h₂ (b := variantSelectorPrefix) (by decide) (by decide)
      rw [if_neg h₁, if_pos h₂, hsa h₂, trimPrefix_append, if_neg hblank,
        if_neg (not_not.mpr rfl), ih]
      rw [← hsa h₂]
      simp [h₁, h₂, h₃]
    by_cases h₃ : s.hasPrefix variantSelectorPrefix = true
    · rw [if_neg h₁, if_neg h₂, if_pos h₃, if_neg (not_not.mpr (hvariant h₃)), ih]
      simp [h₁, h₂, h₃]
      omega
    · rw [if_neg h₁, if_neg h₂, if_neg h₃, ih]
      simp [h₁, h₂, h₃]

/-- A filter that one element of a duplicate-free list passes. -/
theorem filter_eq_singleton {α : Type*} {l : List α} {p : α → Bool} {x : α} (hnodup : l.Nodup)
    (hx : x ∈ l) (hp : p x = true) (honly : ∀ y ∈ l, p y = true → y = x) : l.filter p = [x] := by
  refine List.perm_singleton.mp ((List.perm_ext_iff_of_nodup (hnodup.filter p)
    (List.nodup_singleton x)).mpr fun y => ?_)
  rw [List.mem_filter, List.mem_singleton]
  constructor
  · rintro ⟨hy, hpy⟩
    exact honly y hy hpy
  · rintro rfl
    exact ⟨hx, hp⟩

/-- The selectors of a rendered boundary are the only ones with their prefixes. -/
theorem Boundary.RenderedIn.filters (hnodup : l.Nodup) (hrendered : t.RenderedIn l)
    (hadmits : ∀ s ∈ l, t.Admits s) :
    l.filter (hasPrefix · nsPrefix) = [nsPrefix ++ t.namespace_] ∧
    l.filter (hasPrefix · saPrefix) = [saPrefix ++ t.serviceAccountName] ∧
    l.filter (hasPrefix · variantSelectorPrefix) = [variantSelectorPrefix ++ t.variant] :=
  ⟨filter_eq_singleton hnodup (hrendered _ (by simp [Boundary.selectors])) (hasPrefix_append _ _)
      fun s hs hp => (hadmits s hs).1 hp,
    filter_eq_singleton hnodup (hrendered _ (by simp [Boundary.selectors])) (hasPrefix_append _ _)
      fun s hs hp => (hadmits s hs).2.1 hp,
    filter_eq_singleton hnodup (hrendered _ (by simp [Boundary.selectors])) (hasPrefix_append _ _)
      fun s hs hp => (hadmits s hs).2.2 hp⟩

/-- The scan accepts exactly the lists that render the boundary and say nothing else
about it. -/
theorem validateRenderedSafetySelectors_iff (hnodup : l.Nodup)
    (hblank : trimSpace t.serviceAccountName ≠ []) :
    validateRenderedSafetySelectors P t.namespace_ t.serviceAccountName t.variant l = .ok () ↔
      t.RenderedIn l ∧ ∀ s ∈ l, t.Admits s := by
  refine ⟨validateRenderedSafetySelectors_ok, ?_⟩
  rintro ⟨hrendered, hadmits⟩
  obtain ⟨-, -, hvariant⟩ := hrendered.filters hnodup hadmits
  have hns : l.any (hasPrefix · nsPrefix) = true :=
    List.any_eq_true.mpr ⟨_, hrendered (nsPrefix ++ t.namespace_) (by simp [Boundary.selectors]),
      hasPrefix_append _ _⟩
  have hsa : l.any (hasPrefix · saPrefix) = true :=
    List.any_eq_true.mpr ⟨_, hrendered (saPrefix ++ t.serviceAccountName)
      (by simp [Boundary.selectors]), hasPrefix_append _ _⟩
  rw [validateRenderedSafetySelectors, scanSafetySelectors_of_admits hblank hadmits]
  simp [hns, hsa, List.countP_eq_length_filter, hvariant]

end Scan

/-! ## The selectors of a plan -/

/-- The canonical selectors: those of the boundary and the derived ones, trimmed. -/
theorem PlanInput.mem_selectors {input : PlanInput} {s : GoString} :
    s ∈ input.selectors ↔ s ∈ canonicalSet input.boundary.selectors ∨
      s ∈ canonicalSet input.target.derivedSelectors := by
  have hperm : ([nsPrefix ++ input.namespace_, saPrefix ++ input.serviceAccountName] ++
      input.target.derivedSelectors ++ [podLabelSelector variantLabelKey input.variant]).Perm
      (input.boundary.selectors ++ input.target.derivedSelectors) := by
    rw [List.append_assoc]
    exact (List.Perm.append_left _ List.perm_append_comm).trans (by
      rw [← List.append_assoc]
      exact List.Perm.refl _)
  rw [PlanInput.selectors, assembleSelectors, mem_uniqueAndSorted, canonicalSet_perm hperm,
    mem_canonicalSet_append]

theorem PlanInput.pairwise_selectors (input : PlanInput) : input.selectors.Pairwise (· < ·) := by
  rw [PlanInput.selectors, assembleSelectors]
  exact pairwise_uniqueAndSorted _

theorem PlanInput.nodup_selectors (input : PlanInput) : input.selectors.Nodup := by
  rw [PlanInput.selectors, assembleSelectors]
  exact nodup_uniqueAndSorted _

theorem PlanInput.trimmed_selectors {input : PlanInput} {s : GoString} (h : s ∈ input.selectors) :
    s ≠ [] ∧ trimSpace s = s := by
  rw [PlanInput.selectors, assembleSelectors] at h
  exact ⟨(mem_uniqueAndSorted.mp h).1, trimSpace_of_mem_uniqueAndSorted h⟩

/-- The prefixes of the three selectors of a boundary. -/
theorem Boundary.mem_selectors {t : Boundary} {s : GoString} (h : s ∈ t.selectors) :
    ∃ pre rest, s = pre ++ rest ∧ pre ≠ [] ∧ Plain pre ∧
      ∀ x, t.Admits x → x.hasPrefix pre = true → x = s := by
  simp only [Boundary.selectors, List.mem_cons, List.not_mem_nil, or_false] at h
  rcases h with rfl | rfl | rfl
  · exact ⟨nsPrefix, _, rfl, by decide, by decide +kernel, fun x hx => hx.1⟩
  · exact ⟨saPrefix, _, rfl, by decide, by decide +kernel, fun x hx => hx.2.1⟩
  · exact ⟨variantSelectorPrefix, _, rfl, by decide, by decide +kernel, fun x hx => hx.2.2⟩

/-- Where only what the boundary admits was rendered, its selectors were not
trimmed: the trimmed one still has the prefix, so it is the selector itself. -/
theorem trimSpace_boundary_selector {input : PlanInput}
    (hadmits : ∀ s ∈ input.selectors, input.boundary.Admits s) {s : GoString}
    (hs : s ∈ input.boundary.selectors) : trimSpace s = s ∧ s ≠ [] := by
  obtain ⟨pre, rest, rfl, hne, hplain, honly⟩ := Boundary.mem_selectors hs
  have hstart := hplain.prefix_trimSpace hne rest
  have hmem : trimSpace (pre ++ rest) ∈ input.selectors :=
    PlanInput.mem_selectors.mpr (Or.inl ⟨fun hnil => hne (by simpa [hnil] using hstart),
      _, hs, rfl⟩)
  exact ⟨honly _ (hadmits _ hmem) (List.isPrefixOf_iff_prefix.mpr hstart), by simp [hne]⟩

/-- What a plan's selectors are. -/
structure Bounded (input : PlanInput) (selectors : List GoString) : Prop where
  ascending : selectors.Pairwise (· < ·)
  trimmed : ∀ s ∈ selectors, s ≠ [] ∧ trimSpace s = s
  namespace_ : selectors.filter (hasPrefix · nsPrefix) = [nsPrefix ++ input.namespace_]
  serviceAccount :
    selectors.filter (hasPrefix · saPrefix) = [saPrefix ++ input.serviceAccountName]
  variant :
    selectors.filter (hasPrefix · variantSelectorPrefix) = [variantSelectorPrefix ++ input.variant]
  mem_iff : ∀ s, s ∈ selectors ↔
    s ∈ input.boundary.selectors ∨ s ∈ canonicalSet input.target.derivedSelectors

theorem bounded_of_planIdentity {input : PlanInput} {plan : Plan}
    (h : planIdentity P input = .ok plan) : Bounded input plan.selectors := by
  obtain ⟨haccepted, hscan, rfl⟩ := planIdentity_eq_ok_iff.mp h
  rw [PlanInput.plan_selectors]
  obtain ⟨hrendered, hadmits⟩ := validateRenderedSafetySelectors_ok (t := input.boundary) hscan
  obtain ⟨hns, hsa, hvariant⟩ := hrendered.filters input.nodup_selectors hadmits
  refine ⟨input.pairwise_selectors, fun s => PlanInput.trimmed_selectors, hns, hsa, hvariant,
    fun s => ?_⟩
  rw [PlanInput.mem_selectors,
    mem_canonicalSet_of_trimmed fun v => trimSpace_boundary_selector hadmits]

/-! ## Resolved targets -/

theorem plain_of_nameBytes {s : GoString}
    (h : ∀ c ∈ s, Apimachinery.nameByte c = true ∨ c = 47) : Plain s := by
  have hbytes : (spaceRunes.all fun p => p.all fun c => !(Apimachinery.nameByte c || c == 47)) =
      true := by decide +kernel
  intro c hc p hp hcp
  have hspace := List.all_eq_true.mp (List.all_eq_true.mp hbytes p hp) c hcp
  rcases h c hc with hname | rfl
  · simp [hname] at hspace
  · simp at hspace

theorem plain_podLabelSelector (hP : P.Documented) {field : GoString × Json}
    (h : LabelValid P field) : Plain (fieldSelector field) := by
  obtain ⟨value, hvalue, -, hlabel, hkey⟩ := h
  have hplainKey : Plain field.1 := plain_of_nameBytes (hP.qualifiedName hkey)
  have hplainValue : Plain (labelValue field) := by
    rw [labelValue, hvalue]
    exact plain_of_nameBytes fun c hc => Or.inl (hP.labelValue hlabel c hc)
  have hstart : Plain podLabelPrefix := by decide +kernel
  have hcolon : Plain (str ":") := by decide +kernel
  exact ((hstart.append hplainKey).append hcolon).append hplainValue

/-- A pod-label selector is about the operator's own label when its key is. -/
theorem hasPrefix_variantSelectorPrefix {key value : GoString} (hkey : colon ∉ key) :
    (podLabelSelector key value).hasPrefix variantSelectorPrefix = true ↔
      key = variantLabelKey := by
  constructor
  · intro h
    have happend := eq_append_of_hasPrefix h
    rw [← variantSelectorPrefix_append] at happend
    exact (podLabelSelector_inj hkey (by decide) happend).1
  · rintro rfl
    exact hasPrefix_append _ _

/-- The boundary admits a label unless it is the operator's own with another value. -/
theorem admits_podLabelSelector {t : Boundary} {key value : GoString} (hkey : colon ∉ key) :
    t.Admits (podLabelSelector key value) ↔ (key = variantLabelKey → value = t.variant) := by
  have hlabel : (podLabelSelector key value).hasPrefix podLabelPrefix = true := by
    rw [podLabelSelector_eq]
    exact hasPrefix_append _ _
  have hns := hasPrefix_eq_false hlabel (b := nsPrefix) (by decide) (by decide)
  have hsa := hasPrefix_eq_false hlabel (b := saPrefix) (by decide) (by decide)
  simp only [Boundary.Admits, hns, hsa, hasPrefix_variantSelectorPrefix hkey, Bool.false_eq_true,
    false_implies, true_and, ← variantSelectorPrefix_append]
  refine imp_congr_right fun hvariant => ?_
  subst hvariant
  exact ⟨fun h => (podLabelSelector_inj hkey hkey h).2, fun h => by rw [h]⟩

theorem Boundary.admits_selectors {t : Boundary} {s : GoString} (hs : s ∈ t.selectors) :
    t.Admits s := by
  simp only [Boundary.selectors, List.mem_cons, List.not_mem_nil, or_false] at hs
  rcases hs with rfl | rfl | rfl
  · have hp := hasPrefix_append nsPrefix t.namespace_
    simp [Admits, hasPrefix_eq_false hp (b := saPrefix) (by decide) (by decide),
      hasPrefix_eq_false hp (b := variantSelectorPrefix) (by decide) (by decide)]
  · have hp := hasPrefix_append saPrefix t.serviceAccountName
    simp [Admits, hasPrefix_eq_false hp (b := nsPrefix) (by decide) (by decide),
      hasPrefix_eq_false hp (b := variantSelectorPrefix) (by decide) (by decide)]
  · rw [← variantSelectorPrefix_append, admits_podLabelSelector (by decide)]
    exact fun _ => rfl

theorem validateVariant_ok {variant : GoString} (h : validateVariant P variant = .ok ()) :
    trimSpace variant = variant ∧ variant ≠ [] ∧ (P.isValidLabelValue variant).length = 0 := by
  rw [validateVariant] at h
  split_ifs at h with htrim hempty hlabel
  exact ⟨(not_ne_iff.mp htrim).symm, hempty, Nat.eq_zero_of_not_pos hlabel⟩

section Resolved

variable {input : PlanInput} {m : List (GoString × Json)} (hP : P.Documented)
  (haccepted : input.Accepted P) (hns : trimSpace input.namespace_ = input.namespace_)
  (hvalid : ∀ field ∈ m, LabelValid P field)
  (hderived : input.target.derivedSelectors = m.map fieldSelector)

include hP haccepted hns in
theorem boundary_selectors_trimmed {s : GoString} (hs : s ∈ input.boundary.selectors) :
    trimSpace s = s ∧ s ≠ [] := by
  simp only [Boundary.selectors, List.mem_cons, List.not_mem_nil, or_false] at hs
  rcases hs with rfl | rfl | rfl
  · exact ⟨trimSpace_append (by decide) (by decide +kernel) hns,
      List.append_ne_nil_of_left_ne_nil (by decide) _⟩
  · have hplain : Plain input.serviceAccountName :=
      plain_of_nameBytes fun c hc => Or.inl (hP.subdomain haccepted.serviceAccount c hc)
    exact ⟨trimSpace_append (by decide) (by decide +kernel) hplain.trimSpace,
      List.append_ne_nil_of_left_ne_nil (by decide) _⟩
  · exact ⟨trimSpace_append (by decide) (by decide +kernel) (validateVariant_ok haccepted.variant).1,
      List.append_ne_nil_of_left_ne_nil (by decide) _⟩

include hP hvalid in
theorem fieldSelectors_trimmed {s : GoString} (hs : s ∈ m.map fieldSelector) :
    trimSpace s = s ∧ s ≠ [] := by
  obtain ⟨field, hfield, rfl⟩ := List.mem_map.mp hs
  refine ⟨(plain_podLabelSelector hP (hvalid field hfield)).trimSpace, ?_⟩
  rw [fieldSelector, podLabelSelector_eq]
  exact List.append_ne_nil_of_left_ne_nil (by decide) _

include hP haccepted hns hvalid hderived in
/-- The selectors of an input with a resolved target: trimming changes none of them. -/
theorem mem_selectors_of_resolved {s : GoString} :
    s ∈ input.selectors ↔ s ∈ input.boundary.selectors ∨ s ∈ m.map fieldSelector := by
  rw [PlanInput.mem_selectors, hderived,
    mem_canonicalSet_of_trimmed fun v => boundary_selectors_trimmed hP haccepted hns,
    mem_canonicalSet_of_trimmed fun v => fieldSelectors_trimmed hP hvalid]

include hP haccepted hns hvalid hderived in
/-- An accepted input with a resolved target is safe unless a label of the pool
contradicts the variant. -/
theorem scan_of_resolved :
    validateRenderedSafetySelectors P input.namespace_ input.serviceAccountName input.variant
        input.selectors = .ok () ↔
      ∀ value, (variantLabelKey, .string value) ∈ m → value = input.variant := by
  have hmem := fun s => mem_selectors_of_resolved (s := s) hP haccepted hns hvalid hderived
  have hiff := validateRenderedSafetySelectors_iff (P := P) (t := input.boundary)
    input.nodup_selectors haccepted.serviceAccountNonblank
  rw [show validateRenderedSafetySelectors P input.namespace_ input.serviceAccountName
    input.variant input.selectors = .ok () ↔ _ from hiff]
  have hkey := fun {field} (hfield : field ∈ m) =>
    colon_not_mem_of_isQualifiedName hP (hvalid field hfield).isQualifiedName
  constructor
  · rintro ⟨-, hadmits⟩ value hvalue
    have hselector : podLabelSelector variantLabelKey value ∈ input.selectors :=
      (hmem _).mpr (Or.inr ((mem_map_fieldSelector hvalid).mpr ⟨_, _, hvalue, rfl⟩))
    exact (admits_podLabelSelector (hkey hvalue)).mp (hadmits _ hselector) rfl
  · intro h
    refine ⟨fun s hs => (hmem s).mpr (Or.inl hs), fun s hs => ?_⟩
    rcases (hmem s).mp hs with hs | hs
    · exact Boundary.admits_selectors hs
    · obtain ⟨key, value, hfield, rfl⟩ := (mem_map_fieldSelector hvalid).mp hs
      rw [admits_podLabelSelector (hkey hfield)]
      rintro rfl
      exact h value hfield

end Resolved

theorem smallReconciler_documented : smallReconciler.platform.Documented :=
  documented_referencePlatform _ _

/-- A label that the reference validators accept. -/
theorem labelValid_small {key value : GoString} (hvalue : value ≠ [])
    (hlabel : (Apimachinery.isValidLabelValue value).length = 0)
    (hkey : (Apimachinery.isQualifiedName key).length = 0) :
    LabelValid smallReconciler.platform (key, .string value) :=
  ⟨value, rfl, hvalue, hlabel, hkey⟩

/-- The pool `n/p` with one label, in the structured shape. -/
def labelledPool (key value : GoString) : InferencePool :=
  ⟨smallPoolGVK, str "n", str "p",
    some (.object [(str "selector", .object [(str "matchLabels", .object [(key, .string value)])])])⟩

theorem labelledPool_declares (key value : GoString) :
    (labelledPool key value).Declares [(key, .string value)] :=
  ⟨_, _, rfl, List.lookup_cons_self, Or.inl ⟨List.lookup_cons_self, by simp⟩⟩

/-- The input for the variant `v` of such a pool. -/
def labelledInput (key value : GoString) : PlanInput where
  namespace_ := str "n"
  serviceAccountName := str "s"
  trustDomain := str "t"
  variant := str "v"
  target := ⟨⟨str "pool", str "p"⟩, .object [(str "matchLabels", .object [(key, .string value)])],
    [podLabelSelector key value]⟩

theorem labelledPool_resolves {key value : GoString} (hvalue : value ≠ [])
    (hlabel : (Apimachinery.isValidLabelValue value).length = 0)
    (hkey : (Apimachinery.isQualifiedName key).length = 0) :
    resolveInferenceTarget smallReconciler.platform (labelledPool key value) =
      .ok (labelledInput key value).target :=
  (resolveInferenceTarget_eq_ok_iff smallReconciler_documented).mpr
    ⟨_, labelledPool_declares key value, ⟨List.cons_ne_nil _ _, by
      simpa using labelValid_small hvalue hlabel hkey⟩, rfl⟩

/-- **Selectors stay inside the boundary, and refusals have a cause.** A plan's
selectors are ascending and trimmed, name the boundary once each, and are otherwise
the derived selectors, whatever strings these were. And once the input passes its
validators, a target resolved from a pool is refused exactly when the pool maps the
operator's own label to another value than the variant, as an unsafe selector. -/
theorem planIdentity_bounded (hP : P.Documented) (input : PlanInput) :
    (∀ plan, planIdentity P input = .ok plan → Bounded input plan.selectors) ∧
    ∀ pool m, resolveInferenceTarget P pool = .ok input.target → pool.Declares m →
      trimSpace input.trustDomain ≠ [] → validateVariant P input.variant = .ok () →
      (P.isDNS1123Subdomain input.serviceAccountName).length = 0 →
      validateIdentityAnchor input.target.identityAnchor = .ok () →
      trimSpace input.namespace_ = input.namespace_ →
      ((∃ err, planIdentity P input = .error err) ↔
        ∃ value, (variantLabelKey, .string value) ∈ m ∧ value ≠ input.variant) ∧
      ∀ err, planIdentity P input = .error err →
        err.conditionType = .unsafeSelector ∧ err.reason = .unsafeSelector := by
  refine ⟨fun plan => bounded_of_planIdentity, ?_⟩
  intro pool m hresolve hdeclares htrust hvariant hsa hanchor hns
  obtain ⟨m', hdeclares', hvalid, htarget⟩ := (resolveInferenceTarget_eq_ok_iff hP).mp hresolve
  obtain rfl := hdeclares.unique hdeclares'
  have hblank : trimSpace input.serviceAccountName ≠ [] := by
    have hplain : Plain input.serviceAccountName :=
      plain_of_nameBytes fun c hc => Or.inl (hP.subdomain hsa c hc)
    rw [hplain.trimSpace]
    exact hP.subdomain_ne_nil hsa
  have haccepted : input.Accepted P := ⟨htrust, hvariant, hblank, hsa, hanchor⟩
  have hscan := scan_of_resolved hP haccepted hns hvalid.2 (by rw [htarget])
  rw [planIdentity_of_accepted haccepted]
  rcases houtcome : validateRenderedSafetySelectors P input.namespace_ input.serviceAccountName
    input.variant input.selectors with message | ⟨⟩
  · refine ⟨iff_of_true ⟨_, rfl⟩ ?_, ?_⟩
    · by_contra hnone
      push Not at hnone
      rw [hscan.mpr hnone] at houtcome
      cases houtcome
    · rintro err ⟨⟩
      exact ⟨rfl, rfl⟩
  · refine ⟨iff_of_false (by rintro ⟨err, ⟨⟩⟩) ?_, by rintro err ⟨⟩⟩
    rintro ⟨value, hvalue, hne⟩
    exact hne (hscan.mp houtcome value hvalue)

/-- A pool with some label is planned; one that claims the variant `w` is not. -/
theorem planIdentity_bounded_small :
    (¬∃ err, planIdentity smallReconciler.platform (labelledInput (str "a") (str "b")) =
      .error err) ∧
    ∃ err, planIdentity smallReconciler.platform (labelledInput variantLabelKey (str "w")) =
      .error err := by
  constructor
  · rw [((planIdentity_bounded smallReconciler_documented
      (labelledInput (str "a") (str "b"))).2 _ _
      (labelledPool_resolves (by decide) (by decide) (by decide)) (labelledPool_declares _ _)
      (by decide +kernel) (by rfl) (by decide +kernel) (by rfl) (by decide +kernel)).1]
    rintro ⟨value, hvalue, -⟩
    rw [List.mem_singleton, Prod.mk.injEq] at hvalue
    exact absurd hvalue.1 (by decide)
  · rw [((planIdentity_bounded smallReconciler_documented
      (labelledInput variantLabelKey (str "w"))).2 _ _
      (labelledPool_resolves (by decide) (by decide) (by decide)) (labelledPool_declares _ _)
      (by decide +kernel) (by rfl) (by decide +kernel) (by rfl) (by decide +kernel)).1]
    exact ⟨str "w", List.mem_cons_self, by decide⟩

/-! ## SPIFFE IDs -/

/-- **SPIFFE IDs are injective** on the inputs the planner accepts: no component
can contain the separator, so the text determines all six of them. -/
theorem planIdentity_spiffeID_injective (hdns : P.SubdomainsWithoutSlash)
    {input input' : PlanInput} {plan plan' : Plan} (h : planIdentity P input = .ok plan)
    (h' : planIdentity P input' = .ok plan') {config config' : OperatorConfig}
    (hconfig : config.validate = .ok ()) (hconfig' : config'.validate = .ok ())
    (htd : input.trustDomain = config.trustDomain)
    (htd' : input'.trustDomain = config'.trustDomain)
    (hns : slash ∉ input.namespace_) (hns' : slash ∉ input'.namespace_)
    (hid : plan.spiffeID = plan'.spiffeID) :
    input.trustDomain = input'.trustDomain ∧ input.namespace_ = input'.namespace_ ∧
    input.serviceAccountName = input'.serviceAccountName ∧
    input.target.identityAnchor.kind = input'.target.identityAnchor.kind ∧
    input.target.identityAnchor.name = input'.target.identityAnchor.name ∧
    input.variant = input'.variant := by
  obtain ⟨haccepted, -, rfl⟩ := planIdentity_eq_ok_iff.mp h
  obtain ⟨haccepted', -, rfl⟩ := planIdentity_eq_ok_iff.mp h'
  obtain ⟨htrust, hnamespace, hsa, hanchor, hvariant⟩ := renderInferenceTargetSPIFFEID_inj
    (htd ▸ OperatorConfig.validate_ok hconfig) (htd' ▸ OperatorConfig.validate_ok hconfig') hns hns'
    (hdns _ haccepted.serviceAccount) (hdns _ haccepted'.serviceAccount)
    (validateIdentityAnchor_ok haccepted.anchor) (validateIdentityAnchor_ok haccepted'.anchor) hid
  exact ⟨htrust, hnamespace, hsa, hanchor ▸ rfl, hanchor ▸ rfl, hvariant⟩

/-- The plan of such an input, when there is one. -/
theorem planIdentity_labelled {key value : GoString}
    (h : (planIdentity smallReconciler.platform (labelledInput key value)).isOk = true) :
    planIdentity smallReconciler.platform (labelledInput key value) =
      .ok (labelledInput key value).plan := by
  rcases hplan : planIdentity smallReconciler.platform (labelledInput key value) with err | plan
  · rw [hplan] at h
    cases h
  · obtain ⟨-, -, rfl⟩ := planIdentity_eq_ok_iff.mp hplan
    rfl

/-- Two inputs that differ in their pod selector have one SPIFFE ID, and the same six
components. -/
theorem planIdentity_spiffeID_injective_small :
    let input := labelledInput (str "a") (str "b")
    let input' := labelledInput (str "a") (str "c")
    input.plan.spiffeID = input'.plan.spiffeID ∧ input.trustDomain = input'.trustDomain ∧
      input.namespace_ = input'.namespace_ ∧
      input.serviceAccountName = input'.serviceAccountName ∧
      input.target.identityAnchor.kind = input'.target.identityAnchor.kind ∧
      input.target.identityAnchor.name = input'.target.identityAnchor.name ∧
      input.variant = input'.variant := by
  have hconfig : smallReconciler.config.validate = .ok () := by rfl
  exact ⟨rfl, planIdentity_spiffeID_injective smallReconciler_subdomains
    (planIdentity_labelled (by decide +kernel)) (planIdentity_labelled (by decide +kernel)) hconfig
    hconfig rfl rfl (by decide +kernel) (by decide +kernel) rfl⟩

/-! ## Iteration orders -/

/-- The planner looks at the derived selectors as a set. -/
theorem planIdentity_perm (input : PlanInput) {target : ResolvedInferenceTarget}
    (hanchor : target.identityAnchor = input.target.identityAnchor)
    (hperm : input.target.derivedSelectors.Perm target.derivedSelectors) :
    planIdentity P { input with target := target } =
      (planIdentity P input).map fun plan => { plan with podSelector := target.podSelector } := by
  have hselectors : assembleSelectors { input with target := target } =
      assembleSelectors input := by
    funext rendered
    exact uniqueAndSorted_eq_iff.mpr
      (canonicalSet_perm ((hperm.symm.append_left rendered).append_right _))
  simp only [planIdentity, hanchor, hselectors, hasPrefix_renderInferenceTargetSPIFFEID,
    Bool.not_true, Bool.false_eq_true, if_false]
  split_ifs
  · rfl
  rcases validateVariant P input.variant with err | ⟨⟩
  · rfl
  rcases renderSafetySelectors P input.namespace_ input.serviceAccountName with message | rendered
  · rfl
  rcases validateIdentityAnchor input.target.identityAnchor with message | ⟨⟩
  · rfl
  simp only
  rcases validateRenderedSafetySelectors P input.namespace_ input.serviceAccountName input.variant
    (assembleSelectors input rendered) with message | ⟨⟩
  · rfl
  · rfl

/-- **Pool selectors are accepted by their grammar, in any order.** A pool's
selectors can be derived exactly when it declares valid labels, in either shape; the
labels come back in their structured form and as one selector each; and another
order of the pool's maps gives the same plan, up to the order of the labels in its
pod selector. -/
theorem deriveSelectorsFromPool_grammar (hP : P.Documented) (pool : InferencePool)
    (hpool : pool.WellFormed) :
    ((∃ result, deriveSelectorsFromPool P pool = .ok result) ↔
      ∃ m, pool.Declares m ∧ LabelsValid P m) ∧
    (∀ m podSelector derived, pool.Declares m →
      deriveSelectorsFromPool P pool = .ok (podSelector, derived) →
      podSelector = .object [(str "matchLabels", .object m)] ∧ derived.Nodup ∧
      ∀ s, s ∈ derived ↔ ∃ key value, (key, .string value) ∈ m ∧
        s = podLabelSelector key value) ∧
    ∀ pool', pool.SameContent pool' → ∀ target, resolveInferenceTarget P pool = .ok target →
      ∃ target', resolveInferenceTarget P pool' = .ok target' ∧
        target.podSelector.deepEqual target'.podSelector = true ∧
        ∀ input : PlanInput, planIdentity P { input with target := target' } =
          (planIdentity P { input with target := target }).map
            fun plan => { plan with podSelector := target'.podSelector } := by
  refine ⟨⟨?_, ?_⟩, ?_, ?_⟩
  · rintro ⟨⟨podSelector, derived⟩, h⟩
    obtain ⟨m, hdeclares, hvalid, -⟩ := (deriveSelectorsFromPool_eq_ok_iff hP).mp h
    exact ⟨m, hdeclares, hvalid⟩
  · rintro ⟨m, hdeclares, hvalid⟩
    exact ⟨_, (deriveSelectorsFromPool_eq_ok_iff hP).mpr ⟨m, hdeclares, hvalid, rfl, rfl⟩⟩
  · intro m podSelector derived hdeclares h
    obtain ⟨m', hdeclares', hvalid, rfl, rfl⟩ := (deriveSelectorsFromPool_eq_ok_iff hP).mp h
    obtain rfl := hdeclares.unique hdeclares'
    exact ⟨rfl, nodup_map_fieldSelector hP hvalid.2 (hdeclares.nodup_keys hpool),
      fun s => mem_map_fieldSelector hvalid.2⟩
  · intro pool' hsame target h
    obtain ⟨target', h', hanchor, hequal, hperm⟩ :=
      resolveInferenceTarget_sameContent hpool hP hsame h
    refine ⟨target', h', hequal, fun input => ?_⟩
    rw [← planIdentity_perm { input with target := target } hanchor hperm]

/-- The pool `n/p` with the labels `a=b` and `c=d` in the flat shape, visited in
either order. -/
def flatPool (first : Bool) : InferencePool :=
  ⟨smallPoolGVK, str "n", str "p", some (.object [(str "selector", .object
    (if first then [(str "a", .string (str "b")), (str "c", .string (str "d"))]
      else [(str "c", .string (str "d")), (str "a", .string (str "b"))]))])⟩

theorem deriveSelectorsFromPool_grammar_flat :
    (∃ result, deriveSelectorsFromPool smallReconciler.platform (flatPool true) = .ok result) ∧
    ∀ target, resolveInferenceTarget smallReconciler.platform (flatPool true) = .ok target →
      ∃ target', resolveInferenceTarget smallReconciler.platform (flatPool false) = .ok target' ∧
        target.podSelector.deepEqual target'.podSelector = true := by
  have hpool : (flatPool true).WellFormed := by
    rintro spec ⟨⟩
    decide +kernel
  have hsame : (flatPool true).SameContent (flatPool false) :=
    ⟨rfl, rfl, rfl, Option.Rel.some (by decide +kernel)⟩
  obtain ⟨haccepts, -, horder⟩ :=
    deriveSelectorsFromPool_grammar smallReconciler_documented (flatPool true) hpool
  refine ⟨haccepts.mpr ⟨_, ⟨_, _, rfl, List.lookup_cons_self, Or.inr ⟨rfl, by rfl, by rfl⟩⟩,
    List.cons_ne_nil _ _, ?_⟩, fun target htarget => ?_⟩
  · intro field hfield
    simp only [if_true, List.mem_cons, List.not_mem_nil, or_false] at hfield
    rcases hfield with rfl | rfl
    · exact labelValid_small (by decide) (by decide) (by decide)
    · exact labelValid_small (by decide) (by decide) (by decide)
  · obtain ⟨target', htarget', hequal, -⟩ := horder _ hsame target htarget
    exact ⟨target', htarget', hequal⟩

end Kleym
