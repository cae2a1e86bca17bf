import Kleym.Reconcile

/-!
# Identity boundaries and pods

The boundary of an identity is a triple: namespace, service account and variant.
A plan renders it into three selectors, and the planner's last check
(`validateRenderedSafetySelectors`) makes sure that no other selector of the plan
speaks about the same three attributes. This module reads that off the scan, and
shows what it is for: a pod has one namespace, one service account and one value
per label, so two plans with different boundaries never select the same pod.
-/

namespace Kleym

open GoString

/-- The attributes that exclusivity is decided on. -/
structure Boundary where
  namespace_ : GoString
  serviceAccountName : GoString
  variant : GoString
  deriving DecidableEq

/-- The boundary a binding declares. -/
def Binding.boundary (b : Binding) : Boundary :=
  ⟨b.key.namespace_, b.spec.serviceAccountName, b.spec.variant⟩

namespace Boundary

/-- The selectors a boundary is rendered into. -/
def selectors (t : Boundary) : List GoString :=
  [nsPrefix ++ t.namespace_, saPrefix ++ t.serviceAccountName, variantSelectorPrefix ++ t.variant]

/-- A selector list that carries all three selectors of a boundary. -/
def RenderedIn (t : Boundary) (selectors : List GoString) : Prop :=
  ∀ s ∈ t.selectors, s ∈ selectors

instance (t : Boundary) (selectors : List GoString) : Decidable (t.RenderedIn selectors) := by
  unfold RenderedIn; infer_instance

/-- A selector that says nothing about the three attributes but what the boundary says. -/
def Admits (t : Boundary) (s : GoString) : Prop :=
  (s.hasPrefix nsPrefix = true → s = nsPrefix ++ t.namespace_) ∧
  (s.hasPrefix saPrefix = true → s = saPrefix ++ t.serviceAccountName) ∧
  (s.hasPrefix variantSelectorPrefix = true → s = variantSelectorPrefix ++ t.variant)

/-- Where every selector is admitted, no other boundary is rendered. -/
theorem RenderedIn.eq_of_admits {t u : Boundary} {l : List GoString} (hu : u.RenderedIn l)
    (ht : ∀ s ∈ l, t.Admits s) : u = t := by
  have hns := hu (nsPrefix ++ u.namespace_) (by simp [selectors])
  have hsa := hu (saPrefix ++ u.serviceAccountName) (by simp [selectors])
  have hvar := hu (variantSelectorPrefix ++ u.variant) (by simp [selectors])
  have h₁ := List.append_cancel_left ((ht _ hns).1 (hasPrefix_append _ _))
  have h₂ := List.append_cancel_left ((ht _ hsa).2.1 (hasPrefix_append _ _))
  have h₃ := List.append_cancel_left ((ht _ hvar).2.2 (hasPrefix_append _ _))
  cases u; cases t
  simp_all

end Boundary

theorem variantSelectorPrefix_append (variant : GoString) :
    podLabelSelector variantLabelKey variant = variantSelectorPrefix ++ variant := rfl

/-! ## The safety scan -/

section Scan

variable (P : Platform)

/-- What the scan says at the end, given what it said before the list. -/
structure ScanSpec (t : Boundary) (l : List GoString) (seen seen' : SafetyScan) : Prop where
  admits : ∀ s ∈ l, t.Admits s
  ns : seen'.hasNamespaceSelector = true →
    seen.hasNamespaceSelector = true ∨ nsPrefix ++ t.namespace_ ∈ l
  sa : seen'.hasServiceAccountSelector = true →
    seen.hasServiceAccountSelector = true ∨ saPrefix ++ t.serviceAccountName ∈ l
  variant : seen'.variantSelectorCount ≠ seen.variantSelectorCount →
    variantSelectorPrefix ++ t.variant ∈ l

variable {P}

/-- One more selector in front of a scanned list, when the boundary admits it. -/
theorem ScanSpec.cons {t : Boundary} {s : GoString} {l : List GoString}
    {seen mid seen' : SafetyScan} (h : ScanSpec t l mid seen') (hs : t.Admits s)
    (hns : mid.hasNamespaceSelector = true →
      seen.hasNamespaceSelector = true ∨ s = nsPrefix ++ t.namespace_)
    (hsa : mid.hasServiceAccountSelector = true →
      seen.hasServiceAccountSelector = true ∨ s = saPrefix ++ t.serviceAccountName)
    (hvar : mid.variantSelectorCount ≠ seen.variantSelectorCount →
      s = variantSelectorPrefix ++ t.variant) :
    ScanSpec t (s :: l) seen seen' where
  admits := by
    intro x hx
    rcases List.mem_cons.mp hx with rfl | hx
    · exact hs
    · exact h.admits x hx
  ns := by
    intro h'
    rcases h.ns h' with h' | h'
    · exact (hns h').imp id fun e => List.mem_cons.mpr (Or.inl e.symm)
    · exact Or.inr (List.mem_cons_of_mem s h')
  sa := by
    intro h'
    rcases h.sa h' with h' | h'
    · exact (hsa h').imp id fun e => List.mem_cons.mpr (Or.inl e.symm)
    · exact Or.inr (List.mem_cons_of_mem s h')
  variant := by
    intro h'
    by_cases hmid : mid.variantSelectorCount = seen.variantSelectorCount
    · exact List.mem_cons_of_mem s (h.variant (hmid ▸ h'))
    · exact List.mem_cons.mpr (Or.inl (hvar hmid).symm)

theorem scanSafetySelectors_ok {t : Boundary} {l : List GoString} {seen seen' : SafetyScan}
    (h : scanSafetySelectors P t.namespace_ t.serviceAccountName t.variant l seen = .ok seen') :
    ScanSpec t l seen seen' := by
  induction l generalizing seen with
  | nil =>
    cases h
    exact ⟨by simp, Or.inl, Or.inl, fun h => absurd rfl h⟩
  | cons s l ih =>
    rw [scanSafetySelectors] at h
    split_ifs at h with hns hne hsa hblank hne hvar hne
    · -- a namespace selector
      have hs : s = nsPrefix ++ t.namespace_ := by
        rw [eq_append_of_hasPrefix hns, not_ne_iff.mp hne]
      refine (ih h).cons ⟨fun _ => hs, fun hp => ?_, fun hp => ?_⟩ (fun _ => Or.inr hs) Or.inl
        fun hc => absurd rfl hc
      · rw [hasPrefix_eq_false hns (by decide) (by decide)] at hp
        cases hp
      · rw [hasPrefix_eq_false hns (by decide) (by decide)] at hp
        cases hp
    · -- a service-account selector
      have hs : s = saPrefix ++ t.serviceAccountName := by
        rw [eq_append_of_hasPrefix hsa, not_ne_iff.mp hne]
      refine (ih h).cons ⟨fun hp => absurd hp hns, fun _ => hs, fun hp => ?_⟩ Or.inl
        (fun _ => Or.inr hs) fun hc => absurd rfl hc
      rw [hasPrefix_eq_false hsa (by decide) (by decide)] at hp
      cases hp
    · -- a selector on the variant label
      have hs : s = variantSelectorPrefix ++ t.variant := not_ne_iff.mp hne
      exact (ih h).cons ⟨fun hp => absurd hp hns, fun hp => absurd hp hsa, fun _ => hs⟩
        Or.inl Or.inl fun _ => hs
    · -- any other selector
      exact (ih h).cons ⟨fun hp => absurd hp hns, fun hp => absurd hp hsa,
        fun hp => absurd hp hvar⟩ Or.inl Or.inl fun hc => absurd rfl hc

/-- What `validateRenderedSafetySelectors` accepts: a list that renders the boundary
and says nothing else about it. -/
theorem validateRenderedSafetySelectors_ok {t : Boundary} {l : List GoString}
    (h : validateRenderedSafetySelectors P t.namespace_ t.serviceAccountName t.variant l
      = .ok ()) :
    t.RenderedIn l ∧ ∀ s ∈ l, t.Admits s := by
  rw [validateRenderedSafetySelectors] at h
  rcases hscan : scanSafetySelectors P t.namespace_ t.serviceAccountName t.variant l
      ⟨false, false, 0⟩ with message | seen
  · rw [hscan] at h
    cases h
  · simp only [hscan] at h
    split_ifs at h with hns hsa hvar
    have spec := scanSafetySelectors_ok hscan
    refine ⟨?_, spec.admits⟩
    intro s hs
    simp only [Boundary.selectors, List.mem_cons, List.not_mem_nil, or_false] at hs
    rcases hs with rfl | rfl | rfl
    · simpa using spec.ns (by simpa using hns)
    · simpa using spec.sa (by simpa using hsa)
    · exact spec.variant (by simp [not_ne_iff.mp hvar])

end Scan

/-! ## What a plan renders -/

/-- The boundary of a plan input. -/
def PlanInput.boundary (input : PlanInput) : Boundary :=
  ⟨input.namespace_, input.serviceAccountName, input.variant⟩

section Planning

variable {P : Platform}

/-- What `PlanIdentity` checks of its input before it looks at the selectors. -/
structure PlanInput.Accepted (P : Platform) (input : PlanInput) : Prop where
  trustDomain : trimSpace input.trustDomain ≠ []
  variant : validateVariant P input.variant = .ok ()
  serviceAccountNonblank : trimSpace input.serviceAccountName ≠ []
  serviceAccount : (P.isDNS1123Subdomain input.serviceAccountName).length = 0
  anchor : validateIdentityAnchor input.target.identityAnchor = .ok ()

/-- The canonical selectors of an input. -/
def PlanInput.selectors (input : PlanInput) : List GoString :=
  assembleSelectors input [nsPrefix ++ input.namespace_, saPrefix ++ input.serviceAccountName]

/-- The plan of an input whose selectors are safe. -/
def PlanInput.plan (input : PlanInput) : Plan where
  spiffeID := renderInferenceTargetSPIFFEID input.trustDomain input.namespace_
    input.serviceAccountName input.target.identityAnchor input.variant
  selectors := input.selectors
  podSelector := input.target.podSelector
  identityAnchor := input.target.identityAnchor
  variant := input.variant

theorem PlanInput.plan_selectors (input : PlanInput) :
    input.plan.selectors = input.selectors := by
  rw [PlanInput.plan]

theorem renderSafetySelectors_eq_ok_iff {ns sa : GoString} {l : List GoString} :
    renderSafetySelectors P ns sa = .ok l ↔
      trimSpace sa ≠ [] ∧ (P.isDNS1123Subdomain sa).length = 0 ∧
        l = [nsPrefix ++ ns, saPrefix ++ sa] := by
  rw [renderSafetySelectors]
  split_ifs with hblank hinvalid
  · simp [hblank]
  · constructor
    · rintro ⟨⟩
    · exact fun h => absurd h.2.1 hinvalid.ne'
  · simp [hblank, Nat.eq_zero_of_not_pos hinvalid, eq_comm]

theorem hasPrefix_renderInferenceTargetSPIFFEID (td ns sa : GoString) (anchor : IdentityAnchor)
    (variant : GoString) :
    (renderInferenceTargetSPIFFEID td ns sa anchor variant).hasPrefix (str "spiffe://") = true := by
  simp only [renderInferenceTargetSPIFFEID, List.append_assoc, hasPrefix_append]

/-- The planner on an accepted input: the safety scan decides. -/
theorem planIdentity_of_accepted {input : PlanInput} (h : input.Accepted P) :
    planIdentity P input =
      ((validateRenderedSafetySelectors P input.namespace_ input.serviceAccountName input.variant
        input.selectors).mapError fun message => ⟨.unsafeSelector, .unsafeSelector, message⟩).map
        fun _ => input.plan := by
  have hrendered : renderSafetySelectors P input.namespace_ input.serviceAccountName = .ok _ :=
    renderSafetySelectors_eq_ok_iff.mpr ⟨h.serviceAccountNonblank, h.serviceAccount, rfl⟩
  rw [planIdentity, if_neg h.trustDomain, h.variant, hrendered, h.anchor]
  simp only [hasPrefix_renderInferenceTargetSPIFFEID, Bool.not_true, Bool.false_eq_true, if_false]
  rw [PlanInput.selectors]
  generalize validateRenderedSafetySelectors P _ _ _ _ = outcome
  cases outcome <;> rfl

theorem accepted_of_planIdentity {input : PlanInput} {plan : Plan}
    (h : planIdentity P input = .ok plan) : input.Accepted P := by
  rw [planIdentity] at h
  split_ifs at h with htrust
  rcases hvariant : validateVariant P input.variant with err | ⟨⟩
  · simp only [hvariant] at h
    cases h
  rcases hrendered : renderSafetySelectors P input.namespace_ input.serviceAccountName
    with message | rendered
  · simp only [hvariant, hrendered] at h
    cases h
  rcases hanchor : validateIdentityAnchor input.target.identityAnchor with message | ⟨⟩
  · simp only [hvariant, hrendered, hanchor] at h
    cases h
  obtain ⟨hblank, hvalid, -⟩ := renderSafetySelectors_eq_ok_iff.mp hrendered
  exact ⟨htrust, hvariant, hblank, hvalid, hanchor⟩

/-- What `PlanIdentity` does: the input is accepted, its selectors are safe, and the plan is the one
made of them. -/
theorem planIdentity_eq_ok_iff {input : PlanInput} {plan : Plan} :
    planIdentity P input = .ok plan ↔ input.Accepted P ∧
      validateRenderedSafetySelectors P input.namespace_ input.serviceAccountName input.variant
        input.selectors = .ok () ∧ plan = input.plan := by
  constructor
  · intro h
    have haccepted := accepted_of_planIdentity h
    rw [planIdentity_of_accepted haccepted] at h
    rcases hscan : validateRenderedSafetySelectors P input.namespace_ input.serviceAccountName
      input.variant input.selectors with message | ⟨⟩
    · rw [hscan] at h
      cases h
    · rw [hscan] at h
      cases h
      exact ⟨haccepted, rfl, rfl⟩
  · rintro ⟨haccepted, hscan, rfl⟩
    rw [planIdentity_of_accepted haccepted, hscan]
    rfl

/-- The selectors of a plan render the boundary, and say nothing else about it. -/
theorem planIdentity_boundary {input : PlanInput} {plan : Plan} (h : planIdentity P input = .ok plan) :
    input.boundary.RenderedIn plan.selectors ∧ ∀ s ∈ plan.selectors, input.boundary.Admits s := by
  obtain ⟨-, hscan, rfl⟩ := planIdentity_eq_ok_iff.mp h
  exact validateRenderedSafetySelectors_ok (t := input.boundary) hscan

theorem planIdentity_of_renderIdentity {r : Reconciler} {m : Binding} {pool : InferencePool}
    {plan : Plan} (h : r.renderIdentity m pool = .ok plan) :
    ∃ target, resolveInferenceTarget r.platform pool = .ok target ∧
      planIdentity r.platform (r.planInput m target) = .ok plan := by
  rw [Reconciler.renderIdentity] at h
  split at h
  · cases h
  · exact ⟨_, ‹_›, h⟩

theorem variant_of_renderIdentity {r : Reconciler} {m : Binding} {pool : InferencePool} {plan : Plan}
    (h : r.renderIdentity m pool = .ok plan) : plan.variant = m.spec.variant := by
  obtain ⟨target, -, hplan⟩ := planIdentity_of_renderIdentity h
  obtain ⟨-, -, rfl⟩ := planIdentity_eq_ok_iff.mp hplan
  rfl

end Planning

/-! ## Pods -/

/-- A pod, as selectors see it. -/
structure Pod where
  namespace_ : GoString
  serviceAccountName : GoString
  labels : GoString → Option GoString

namespace Pod

/-- A pod satisfies a selector: `k8s:ns:X` and `k8s:sa:X` compare the whole of `X`,
and `k8s:pod-label:K:V` is split at the first colon. Other selectors say nothing
about the pod. -/
def Satisfies (pod : Pod) (selector : GoString) : Prop :=
  if selector.hasPrefix nsPrefix then pod.namespace_ = selector.trimPrefix nsPrefix
  else if selector.hasPrefix saPrefix then
    pod.serviceAccountName = selector.trimPrefix saPrefix
  else if selector.hasPrefix podLabelPrefix then
    match cut 58 (selector.trimPrefix podLabelPrefix) with
    | some (key, value) => pod.labels key = some value
    | none => True
  else True

instance (pod : Pod) (selector : GoString) : Decidable (pod.Satisfies selector) :=
  if hns : selector.hasPrefix nsPrefix then
    decidable_of_iff (pod.namespace_ = selector.trimPrefix nsPrefix) (by simp [Satisfies, hns])
  else if hsa : selector.hasPrefix saPrefix then
    decidable_of_iff (pod.serviceAccountName = selector.trimPrefix saPrefix)
      (by simp [Satisfies, hns, hsa])
  else if hlabel : selector.hasPrefix podLabelPrefix then
    match hcut : cut 58 (selector.trimPrefix podLabelPrefix) with
    | some (key, value) =>
      decidable_of_iff (pod.labels key = some value) (by simp [Satisfies, hns, hsa, hlabel, hcut])
    | none => isTrue (by simp [Satisfies, hns, hsa, hlabel, hcut])
  else isTrue (by simp [Satisfies, hns, hsa, hlabel])

/-- A pod satisfies every selector of a list. -/
def SatisfiesAll (pod : Pod) (selectors : List GoString) : Prop :=
  ∀ s ∈ selectors, pod.Satisfies s

instance (pod : Pod) (selectors : List GoString) : Decidable (pod.SatisfiesAll selectors) :=
  inferInstanceAs (Decidable (∀ s ∈ selectors, pod.Satisfies s))

theorem satisfies_ns {pod : Pod} {x : GoString} :
    pod.Satisfies (nsPrefix ++ x) ↔ pod.namespace_ = x := by
  simp [Satisfies]

theorem satisfies_sa {pod : Pod} {x : GoString} :
    pod.Satisfies (saPrefix ++ x) ↔ pod.serviceAccountName = x := by
  have hns : (saPrefix ++ x).hasPrefix nsPrefix = false :=
    hasPrefix_eq_false (hasPrefix_append _ _) (by decide) (by decide)
  simp [Satisfies, hns]

theorem satisfies_variant {pod : Pod} {x : GoString} :
    pod.Satisfies (variantSelectorPrefix ++ x) ↔ pod.labels variantLabelKey = some x := by
  have hns : (variantSelectorPrefix ++ x).hasPrefix nsPrefix = false :=
    hasPrefix_eq_false (a := podLabelPrefix)
      (by simp [variantSelectorPrefix]) (by decide) (by decide)
  have hsa : (variantSelectorPrefix ++ x).hasPrefix saPrefix = false :=
    hasPrefix_eq_false (a := podLabelPrefix)
      (by simp [variantSelectorPrefix]) (by decide) (by decide)
  have heq : variantSelectorPrefix ++ x = podLabelPrefix ++ (variantLabelKey ++ 58 :: x) := by
    rw [variantSelectorPrefix, List.append_assoc, List.append_assoc]
    rfl
  have hcut : cut 58 (variantLabelKey ++ 58 :: x) = some (variantLabelKey, x) :=
    cut_append (by decide) x
  rw [Satisfies, if_neg (by simp [hns]), if_neg (by simp [hsa]), heq,
    if_pos (hasPrefix_append _ _), trimPrefix_append, hcut]

/-- A pod that satisfies a list in which a boundary is rendered has that boundary. -/
theorem SatisfiesAll.boundary {pod : Pod} {t : Boundary} {l : List GoString}
    (hpod : pod.SatisfiesAll l) (ht : t.RenderedIn l) :
    pod.namespace_ = t.namespace_ ∧ pod.serviceAccountName = t.serviceAccountName ∧
      pod.labels variantLabelKey = some t.variant :=
  ⟨satisfies_ns.mp (hpod _ (ht _ (by simp [Boundary.selectors]))),
    satisfies_sa.mp (hpod _ (ht _ (by simp [Boundary.selectors]))),
    satisfies_variant.mp (hpod _ (ht _ (by simp [Boundary.selectors])))⟩

/-- **Disjointness.** One pod does not satisfy two selector lists that render different
boundaries. -/
theorem boundary_eq_of_satisfiesAll {pod : Pod} {t u : Boundary} {l l' : List GoString}
    (hl : pod.SatisfiesAll l) (ht : t.RenderedIn l) (hl' : pod.SatisfiesAll l')
    (hu : u.RenderedIn l') : t = u := by
  obtain ⟨hns, hsa, hvar⟩ := hl.boundary ht
  obtain ⟨hns', hsa', hvar'⟩ := hl'.boundary hu
  have hv : t.variant = u.variant := Option.some.inj (hvar.symm.trans hvar')
  cases t; cases u
  simp_all

end Pod

end Kleym
