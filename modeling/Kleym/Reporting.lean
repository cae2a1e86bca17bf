import Kleym.Inspection
import Kleym.Planning
import Kleym.Naming

/-!
# The report agrees with the operator

What `kleym inspect` reports about a binding is what the operator does with it.
The two reach the planner through code of their own, so that is a statement about
two programs: run against the same cluster, whatever it answers, one of them renders
exactly when the other does, and the fields the report copies are those of the object
the operator submits (`inspectRenderedIdentity_agrees`).

The pods the report lists come from decoding the planned selectors. Decoding undoes
rendering: the selectors of a plan are those of the boundary and one per label of the
pool, a key contains no colon, and no key is there with two values
(`Decoded`). So the listed pods are the pods the identity is for
(`inspectMatchedPods_exact`).
-/

namespace Kleym

open GoString Prog

/-! ## Rendering -/

/-- A field of an object's `spec`. -/
def ClusterSPIFFEID.specField (object : ClusterSPIFFEID) (key : String) : Option Json :=
  object.spec.bind fun spec => spec.asObject.bind fun fields => fields.lookup (str key)

/-- The fields a report and a submitted object have in common are equal. -/
structure InspectionReport.Describes (report : InspectionReport) (object : ClusterSPIFFEID) :
    Prop where
  spiffeID : object.specField "spiffeIDTemplate" = some (.string report.renderedIdentity.spiffeID)
  podSelector : object.specField "podSelector" = report.renderedIdentity.podSelector
  workloadSelectors : object.specField "workloadSelectorTemplates" =
    some (.array (report.renderedIdentity.workloadSelectors.map .string))
  outputName : object.name = report.renderedClusterSPIFFEID.name
  outputSpiffeID : object.specField "spiffeIDTemplate" =
    some (.string report.renderedClusterSPIFFEID.spiffeID)
  outputPodSelector : object.specField "podSelector" = report.renderedClusterSPIFFEID.podSelector
  outputWorkloadSelectors : object.specField "workloadSelectorTemplates" =
    some (.array (report.renderedClusterSPIFFEID.workloadSelectors.map .string))
  hint : object.specField "hint" = some (.string report.renderedClusterSPIFFEID.hint)
  className : object.specField "className" =
    if report.renderedClusterSPIFFEID.className = [] then none
    else some (.string report.renderedClusterSPIFFEID.className)
  fallback : object.specField "fallback" = report.renderedClusterSPIFFEID.fallback.map .bool

/-- The report of a rendered plan describes the object the operator builds for it. -/
theorem reportRendered_describes (P : Platform) (binding : Binding)
    (config : ResolvedIdentityConfig) (target : ResolvedInferenceTarget) (plan : Plan)
    (report : InspectionReport) :
    (reportRendered P binding config target plan report).Describes
      (desiredClusterSPIFFEID P binding.key plan config.clusterSPIFFEIDClassName) := by
  refine ⟨rfl, rfl, rfl, rfl, rfl, rfl, rfl, rfl, ?_, rfl⟩
  rcases hclass : config.clusterSPIFFEIDClassName with _ | ⟨c, className⟩
  · simp only [reportRendered, hclass, if_true]
    rfl
  · simp only [reportRendered, hclass, reduceCtorEq, if_false]
    rfl

/-- An identity configuration as the CLI resolves it. -/
def OperatorConfig.resolved (config : OperatorConfig) : ResolvedIdentityConfig :=
  ⟨config.trustDomain, config.clusterSPIFFEIDClassName⟩

/-- **CLI and operator render the same output.** Against the same cluster, however
it answers, an inspection with the operator's configuration renders exactly when the
operator's validation and rendering both succeed; the plan is the operator's then, and
the report describes the object the operator builds from it. -/
theorem inspectRenderedIdentity_agrees {σ : Type} (answer : (c : Call) → σ → Answer c × σ) (s : σ)
    (r : Reconciler) (isForbidden : GoError → Bool) (binding : Binding)
    (report : InspectionReport) :
    let inspected := (exec answer (Inspector.inspectRenderedIdentity ⟨r.platform, isForbidden⟩
      binding r.availablePoolGVKs r.config.resolved report) s).1
    let computed := (exec answer (r.computeDesiredState binding) s).1
    (inspected.2.isSome = true ↔
      r.bindingIdentityVariant binding = .ok () ∧ ∃ plan, computed = .ok plan) ∧
    ∀ plan, inspected.2 = some plan → computed = .ok plan ∧ inspected.1.Describes
      (desiredClusterSPIFFEID r.platform binding.key plan r.config.clusterSPIFFEIDClassName) := by
  simp only [Inspector.inspectRenderedIdentity, Reconciler.computeDesiredState]
  rcases bindingPoolRef r.platform binding.key.namespace_ binding.spec.poolRef with message | ref
  · simp
  simp only [Reconciler.renderFromPool, exec_bind]
  -- the pool is read by the same function, so by the same calls
  rw [show resolveInferencePool r.platform r.availablePoolGVKs ref = r.resolveInferencePool ref
    from rfl]
  rcases (exec answer (r.resolveInferencePool ref) s).1 with err | pool
  · simp
  simp only [Reconciler.renderIdentity]
  rcases htarget : resolveInferenceTarget r.platform pool with message | target
  · simp
  have hinput : inspectionPlanInput r.config.resolved binding target =
      r.planInput binding target := rfl
  simp only [hinput]
  rcases hplan : planIdentity r.platform (r.planInput binding target) with err | plan
  · simp
  · have hvariant : r.bindingIdentityVariant binding = .ok () :=
      (accepted_of_planIdentity hplan).variant
    simp only [exec_ret, Option.isSome_some, hvariant, true_and, true_iff, Option.some.injEq]
    refine ⟨⟨plan, rfl⟩, ?_⟩
    rintro _ rfl
    exact ⟨rfl, reportRendered_describes r.platform binding r.config.resolved target plan _⟩

/-! ## Decoding -/

section Decoding

variable {selection : WorkloadSelection}

theorem selectWorkload_ns (x : GoString) :
    selectWorkload selection (nsPrefix ++ x) = { selection with namespace_ := x } := by
  rw [selectWorkload, if_pos (hasPrefix_append _ _), trimPrefix_append]

theorem selectWorkload_sa (x : GoString) :
    selectWorkload selection (saPrefix ++ x) = { selection with serviceAccount := x } := by
  have hsa := hasPrefix_append saPrefix x
  have hns := hasPrefix_eq_false hsa (b := nsPrefix) (by decide) (by decide)
  rw [selectWorkload, if_neg (by simp [hns]), if_pos hsa, trimPrefix_append]

/-- A label is read back: the first colon is the one after its key. -/
theorem selectWorkload_podLabel {key : GoString} (hkey : colon ∉ key) (hne : key ≠ [])
    (value : GoString) :
    selectWorkload selection (podLabelSelector key value) =
      { selection with podLabels := setEntry key value selection.podLabels } := by
  rw [podLabelSelector_eq]
  have hlabel := hasPrefix_append podLabelPrefix (key ++ colon :: value)
  have hns := hasPrefix_eq_false hlabel (b := nsPrefix) (by decide) (by decide)
  have hsa := hasPrefix_eq_false hlabel (b := saPrefix) (by decide) (by decide)
  have hcontainer := hasPrefix_eq_false hlabel (b := containerNamePrefix) (by decide) (by decide)
  rw [selectWorkload, if_neg (by simp [hns]), if_neg (by simp [hsa]),
    if_neg (by simp [hcontainer]), if_pos hlabel, trimPrefix_append,
    show (58 : UInt8) = colon from rfl, cut_append hkey]
  simp only [if_pos hne]

/-- The selectors a plan for `ns` and `sa` consists of. -/
def PlainSelector (ns sa s : GoString) : Prop :=
  s = nsPrefix ++ ns ∨ s = saPrefix ++ sa ∨
    ∃ key value, s = podLabelSelector key value ∧ colon ∉ key ∧ key ≠ []

/-- No label is selected with two values. -/
def Functional (l : List GoString) : Prop :=
  ∀ key value value', colon ∉ key → podLabelSelector key value ∈ l →
    podLabelSelector key value' ∈ l → value = value'

/-- What decoding a list of selectors adds to a selection. -/
structure Decoded (ns sa : GoString) (l : List GoString) (before after : WorkloadSelection) :
    Prop where
  namespace_ : after.namespace_ = if nsPrefix ++ ns ∈ l then ns else before.namespace_
  serviceAccount :
    after.serviceAccount = if saPrefix ++ sa ∈ l then sa else before.serviceAccount
  containerSelectorType : after.containerSelectorType = before.containerSelectorType
  containerValue : after.containerValue = before.containerValue
  unsupportedSelectors : after.unsupportedSelectors = before.unsupportedSelectors
  nodup : (before.podLabels.map Prod.fst).Nodup → (after.podLabels.map Prod.fst).Nodup
  colon : ∀ key, colon ∈ key → after.podLabels.lookup key = before.podLabels.lookup key
  podLabels : ∀ key value, Kleym.colon ∉ key →
    (after.podLabels.lookup key = some value ↔ podLabelSelector key value ∈ l ∨
      ((∀ value', podLabelSelector key value' ∉ l) ∧ before.podLabels.lookup key = some value))

/-- Texts behind prefixes neither of which starts the other are different. -/
theorem append_ne_append {a b : GoString} (hab : a.isPrefixOf b = false)
    (hba : b.isPrefixOf a = false) (x y : GoString) : a ++ x ≠ b ++ y := by
  intro h
  have hb : (a ++ x).hasPrefix b = true := by
    rw [h]
    exact hasPrefix_append b y
  rw [hasPrefix_eq_false (hasPrefix_append a x) hab hba] at hb
  cases hb

theorem podLabelSelector_ne_ns (key value x : GoString) :
    podLabelSelector key value ≠ nsPrefix ++ x := by
  rw [podLabelSelector_eq]
  exact append_ne_append (by decide) (by decide) _ _

theorem podLabelSelector_ne_sa (key value x : GoString) :
    podLabelSelector key value ≠ saPrefix ++ x := by
  rw [podLabelSelector_eq]
  exact append_ne_append (by decide) (by decide) _ _

/-- Decoding the selectors of a plan, by induction over the list: each of the three
kinds of selector changes one field, and a label only what is known of its key. -/
theorem decoded_foldl {ns sa : GoString} {l : List GoString}
    (hl : ∀ s ∈ l, PlainSelector ns sa s) (hfun : Functional l) (before : WorkloadSelection) :
    Decoded ns sa l before (l.foldl selectWorkload before) := by
  induction l generalizing before with
  | nil => exact ⟨by simp, by simp, rfl, rfl, rfl, id, fun _ _ => rfl, by simp⟩
  | cons s l ih =>
    have ih := ih (fun s hs => hl s (List.mem_cons_of_mem _ hs))
      (fun key value value' hkey h h' => hfun key value value' hkey (List.mem_cons_of_mem _ h)
        (List.mem_cons_of_mem _ h')) (selectWorkload before s)
    rw [List.foldl_cons]
    rcases hl s List.mem_cons_self with rfl | rfl | ⟨key₀, value₀, rfl, hkey₀, hne₀⟩
    · rw [selectWorkload_ns] at ih ⊢
      have hsa : saPrefix ++ sa ≠ nsPrefix ++ ns := append_ne_append (by decide) (by decide) _ _
      refine ⟨?_, ?_, ih.containerSelectorType, ih.containerValue, ih.unsupportedSelectors,
        ih.nodup, ih.colon, fun key value hkey => ?_⟩
      · rw [ih.namespace_, if_pos List.mem_cons_self, ite_self]
      · rw [ih.serviceAccount]
        simp only [List.mem_cons, hsa, false_or]
      · rw [ih.podLabels key value hkey]
        simp only [List.mem_cons, podLabelSelector_ne_ns, false_or]
    · rw [selectWorkload_sa] at ih ⊢
      have hns : nsPrefix ++ ns ≠ saPrefix ++ sa := append_ne_append (by decide) (by decide) _ _
      refine ⟨?_, ?_, ih.containerSelectorType, ih.containerValue, ih.unsupportedSelectors,
        ih.nodup, ih.colon, fun key value hkey => ?_⟩
      · rw [ih.namespace_]
        simp only [List.mem_cons, hns, false_or]
      · rw [ih.serviceAccount, if_pos List.mem_cons_self, ite_self]
      · rw [ih.podLabels key value hkey]
        simp only [List.mem_cons, podLabelSelector_ne_sa, false_or]
    · rw [selectWorkload_podLabel hkey₀ hne₀] at ih ⊢
      have hns := (podLabelSelector_ne_ns key₀ value₀ ns).symm
      have hsa := (podLabelSelector_ne_sa key₀ value₀ sa).symm
      refine ⟨?_, ?_, ih.containerSelectorType, ih.containerValue, ih.unsupportedSelectors,
        fun h => ih.nodup (nodup_keys_setEntry h), fun key hkey => ?_, fun key value hkey => ?_⟩
      · rw [ih.namespace_]
        simp only [List.mem_cons, hns, false_or]
      · rw [ih.serviceAccount]
        simp only [List.mem_cons, hsa, false_or]
      · rw [ih.colon key hkey, lookup_setEntry_of_ne]
        rintro rfl
        exact hkey₀ hkey
      · rw [ih.podLabels key value hkey]
        by_cases hsame : key = key₀
        · subst hsame
          have hhead := fun value' (h : podLabelSelector key value' ∈ l) =>
            hfun key value₀ value' hkey List.mem_cons_self (List.mem_cons_of_mem _ h)
          rw [lookup_setEntry, Option.some.injEq]
          constructor
          · rintro (h | ⟨-, rfl⟩)
            · exact Or.inl (List.mem_cons_of_mem _ h)
            · exact Or.inl List.mem_cons_self
          · rintro (h | ⟨h, -⟩)
            · rcases List.mem_cons.mp h with h | h
              · obtain rfl := (podLabelSelector_inj hkey hkey h).2
                by_cases hmem : podLabelSelector key value ∈ l
                · exact Or.inl hmem
                · exact Or.inr ⟨fun value' h' => hmem (hhead value' h' ▸ h'), rfl⟩
              · exact Or.inl h
            · exact absurd List.mem_cons_self (h value₀)
        · have hother : ∀ value', podLabelSelector key value' ≠ podLabelSelector key₀ value₀ :=
            fun value' h => hsame (podLabelSelector_inj hkey hkey₀ h).1
          rw [lookup_setEntry_of_ne hsame]
          simp only [List.mem_cons, hother, false_or]

end Decoding

/-! ## The selectors of a plan, decoded -/

section Planned

variable {P : Platform} {input : PlanInput} {plan : Plan} {m : List (GoString × Json)}
  (hP : P.Documented) (h : planIdentity P input = .ok plan)
  (hvalid : ∀ field ∈ m, LabelValid P field)
  (hderived : input.target.derivedSelectors = m.map fieldSelector)

include hP h hvalid hderived in
theorem mem_plan_selectors {s : GoString} :
    s ∈ plan.selectors ↔ s ∈ input.boundary.selectors ∨ s ∈ m.map fieldSelector := by
  rw [(bounded_of_planIdentity h).mem_iff, hderived,
    mem_canonicalSet_of_trimmed fun v => fieldSelectors_trimmed hP hvalid]

include hP h hvalid hderived in
theorem plainSelector_of_mem {s : GoString} (hs : s ∈ plan.selectors) :
    PlainSelector input.namespace_ input.serviceAccountName s := by
  rcases (mem_plan_selectors hP h hvalid hderived).mp hs with hs | hs
  · simp only [Boundary.selectors, List.mem_cons, List.not_mem_nil, or_false] at hs
    rcases hs with rfl | rfl | rfl
    · exact Or.inl rfl
    · exact Or.inr (Or.inl rfl)
    · exact Or.inr (Or.inr ⟨variantLabelKey, input.variant, rfl, by decide, by decide⟩)
  · obtain ⟨field, hfield, rfl⟩ := List.mem_map.mp hs
    have hkey := (hvalid field hfield).isQualifiedName
    exact Or.inr (Or.inr ⟨field.1, labelValue field, rfl,
      colon_not_mem_of_isQualifiedName hP hkey, hP.qualifiedName_ne_nil hkey⟩)

include hP h hvalid hderived in
/-- The labels of a plan: the pool's and the operator's own. -/
theorem podLabelSelector_mem_plan {key value : GoString} (hkey : colon ∉ key) :
    podLabelSelector key value ∈ plan.selectors ↔
      (key = variantLabelKey ∧ value = input.variant) ∨ (key, .string value) ∈ m := by
  rw [mem_plan_selectors hP h hvalid hderived, mem_map_fieldSelector hvalid]
  constructor
  · rintro (hs | ⟨key', value', hfield, heq⟩)
    · simp only [Boundary.selectors, List.mem_cons, List.not_mem_nil, or_false,
        podLabelSelector_ne_ns, podLabelSelector_ne_sa, false_or] at hs
      exact Or.inl (podLabelSelector_inj hkey (by decide) hs)
    · have hkey' := colon_not_mem_of_isQualifiedName hP (hvalid _ hfield).isQualifiedName
      obtain ⟨rfl, rfl⟩ := podLabelSelector_inj hkey hkey' heq
      exact Or.inr hfield
  · rintro (⟨rfl, rfl⟩ | hfield)
    · exact Or.inl (by simp [Boundary.selectors, PlanInput.boundary, ← variantSelectorPrefix_append])
    · exact Or.inr ⟨key, value, hfield, rfl⟩

include h in
/-- The operator's own label has one value in a plan. -/
theorem eq_variant_of_mem_plan {value : GoString}
    (hs : podLabelSelector variantLabelKey value ∈ plan.selectors) : value = input.variant := by
  have hfilter : podLabelSelector variantLabelKey value ∈
      plan.selectors.filter (hasPrefix · variantSelectorPrefix) :=
    List.mem_filter.mpr ⟨hs, (hasPrefix_variantSelectorPrefix (by decide)).mpr rfl⟩
  rw [(bounded_of_planIdentity h).variant, List.mem_singleton, ← variantSelectorPrefix_append]
    at hfilter
  exact (podLabelSelector_inj (by decide) (by decide) hfilter).2

variable (hnodup : (m.map Prod.fst).Nodup)

include hP h hvalid hderived hnodup in
theorem functional_plan : Functional plan.selectors := by
  intro key value value' hkey hs hs'
  have hmem : ∀ value, podLabelSelector key value ∈ plan.selectors ↔ _ :=
    fun value => podLabelSelector_mem_plan hP h hvalid hderived hkey
  by_cases hvariant : key = variantLabelKey
  · subst hvariant
    rw [eq_variant_of_mem_plan h hs, eq_variant_of_mem_plan h hs']
  · rcases (hmem value).mp hs with ⟨heq, -⟩ | hfield
    · exact absurd heq hvariant
    rcases (hmem value').mp hs' with ⟨heq, -⟩ | hfield'
    · exact absurd heq hvariant
    have hlookup := lookup_of_mem hnodup hfield
    rw [lookup_of_mem hnodup hfield', Option.some.injEq, Json.string.injEq] at hlookup
    exact hlookup.symm

/-- What the selectors of a plan decode to: the boundary and the pool's labels. -/
structure Undone (input : PlanInput) (m : List (GoString × Json)) (selection : WorkloadSelection) :
    Prop where
  namespace_ : selection.namespace_ = input.namespace_
  serviceAccount : selection.serviceAccount = input.serviceAccountName
  podLabels : ∀ key value, selection.podLabels.lookup key = some value ↔
    (key = variantLabelKey ∧ value = input.variant) ∨
      (key ≠ variantLabelKey ∧ (key, .string value) ∈ m)
  containerSelectorType : selection.containerSelectorType = []
  containerValue : selection.containerValue = []
  unsupportedSelectors : selection.unsupportedSelectors = []

include hP h hvalid hderived hnodup in
theorem decoded_plan : Decoded input.namespace_ input.serviceAccountName plan.selectors {}
    (workloadSelectionFromSelectors plan.selectors) :=
  decoded_foldl (fun _ => plainSelector_of_mem hP h hvalid hderived)
    (functional_plan hP h hvalid hderived hnodup) {}

include hP h hvalid hderived hnodup in
/-- Decoding undoes rendering. -/
theorem undone_plan : Undone input m (workloadSelectionFromSelectors plan.selectors) := by
  have hdecoded := decoded_plan hP h hvalid hderived hnodup
  have hmem := fun s => mem_plan_selectors (s := s) hP h hvalid hderived
  refine ⟨?_, ?_, fun key value => ?_, hdecoded.containerSelectorType, hdecoded.containerValue,
    hdecoded.unsupportedSelectors⟩
  · rw [hdecoded.namespace_, if_pos]
    exact (hmem _).mpr (Or.inl (by simp [Boundary.selectors, PlanInput.boundary]))
  · rw [hdecoded.serviceAccount, if_pos]
    exact (hmem _).mpr (Or.inl (by simp [Boundary.selectors, PlanInput.boundary]))
  by_cases hkey : colon ∈ key
  · -- no key of the pool has a colon, and neither has the operator's own
    rw [hdecoded.colon key hkey]
    refine iff_of_false (by simp) ?_
    rintro (⟨rfl, -⟩ | ⟨-, hfield⟩)
    · exact absurd hkey (by decide)
    · exact colon_not_mem_of_isQualifiedName hP (hvalid _ hfield).isQualifiedName hkey
  · rw [hdecoded.podLabels key value hkey, podLabelSelector_mem_plan hP h hvalid hderived hkey]
    simp only [List.lookup_nil, reduceCtorEq, and_false, or_false]
    by_cases hvariant : key = variantLabelKey
    · subst hvariant
      simp only [true_and, ne_eq, not_true_eq_false, false_and, or_false]
      refine ⟨fun hor => hor.elim id fun hfield => ?_, Or.inl⟩
      exact eq_variant_of_mem_plan h
        ((podLabelSelector_mem_plan hP h hvalid hderived hkey).mpr (Or.inr hfield))
    · simp [hvariant]

end Planned

/-! ## Matched pods -/

/-- A list call that returns exactly the pods of the namespace with the labels. -/
def servePods (pods : List CorePod) : PodLister := fun namespace_ labels =>
  .ok (pods.filter fun pod => pod.namespace_ = namespace_ ∧
    labels.all (fun entry => pod.labels.lookup entry.1 == some entry.2) = true)

/-- The pods an identity is for: those of the namespace with the service account, the
labels of the pool and the variant. -/
def CorePod.IsFor (pod : CorePod) (input : PlanInput) (m : List (GoString × Json)) : Prop :=
  pod.namespace_ = input.namespace_ ∧ pod.serviceAccountName = input.serviceAccountName ∧
  (∀ key value, (key, .string value) ∈ m → pod.labels.lookup key = some value) ∧
  pod.labels.lookup variantLabelKey = some input.variant

/-- How a pod is reported. -/
def CorePod.matched (pod : CorePod) : MatchedPod := ⟨pod.namespace_, pod.name, []⟩

theorem entryOf_eq_iff {labels : List (GoString × GoString)} {key value : GoString}
    (hvalue : value ≠ []) : entryOf (some labels) key = value ↔ labels.lookup key = some value := by
  rw [entryOf, Option.getD_some]
  rcases labels.lookup key with _ | value'
  · simp [hvalue.symm]
  · simp

theorem matchLabelTexts_eq (P : Platform) {m : List (GoString × Json)}
    (hvalid : ∀ field ∈ m, LabelValid P field) :
    matchLabelTexts P m = .ok (m.map fun field => (field.1, labelValue field)) := by
  induction m with
  | nil => rfl
  | cons field m ih =>
    obtain ⟨key, value⟩ := field
    rw [List.forall_mem_cons] at hvalid
    obtain ⟨text, rfl, -⟩ := hvalid.1
    rw [matchLabelTexts, ih hvalid.2]
    rfl

theorem matchedPodsFromPods_eq {selection : WorkloadSelection}
    (hcontainer : selection.containerSelectorType = []) (pods : List CorePod) :
    matchedPodsFromPods pods selection =
      (pods.filter (podMatchesSelection · selection)).map CorePod.matched := by
  induction pods with
  | nil => rfl
  | cons pod pods ih =>
    rw [matchedPodsFromPods, List.flatMap_cons, ← matchedPodsFromPods, ih]
    by_cases hpod : podMatchesSelection pod selection = true
    · simp [hpod, hcontainer, CorePod.matched]
    · simp [hpod]

/-- The matched pods of one namespace, in the order they are reported in. -/
theorem pairwise_matched {pods : List CorePod} {namespace_ : GoString}
    (hnamespace : ∀ pod ∈ pods, pod.namespace_ = namespace_)
    (hnodup : (pods.map fun pod => (pod.namespace_, pod.name)).Nodup) :
    ((pods.map CorePod.matched).insertionSort fun a b =>
      matchedPodSortKey a ≤ matchedPodSortKey b).Pairwise
      fun a b => matchedPodSortKey a < matchedPodSortKey b := by
  have hkeys : (pods.map fun pod => matchedPodSortKey pod.matched).Nodup := by
    refine (List.nodup_map_iff_inj_on hnodup.of_map).mpr fun pod hpod pod' hpod' h => ?_
    refine List.inj_on_of_nodup_map hnodup hpod hpod' (Prod.ext ?_ ?_)
    · rw [hnamespace pod hpod, hnamespace pod' hpod']
    · -- behind the same namespace, and in front of the same end
      simp only [matchedPodSortKey, CorePod.matched, hnamespace pod hpod,
        hnamespace pod' hpod', List.append_nil, List.append_left_inj, List.append_right_inj] at h
      exact h
  refine pairwise_lt_insertionSort matchedPodSortKey ?_
  rw [List.map_map]
  exact hkeys

section Exact

variable {P : Platform} {input : PlanInput} {plan : Plan} {m : List (GoString × Json)}
  (hP : P.Documented) (h : planIdentity P input = .ok plan)
  (hvalid : ∀ field ∈ m, LabelValid P field)
  (hderived : input.target.derivedSelectors = m.map fieldSelector)
  (hnodup : (m.map Prod.fst).Nodup)

include hP h hvalid hderived hnodup in
/-- The pods of the namespace that the decoded selection matches. -/
theorem podMatchesSelection_iff {pod : CorePod} (hnamespace : pod.namespace_ = input.namespace_) :
    podMatchesSelection pod (workloadSelectionFromSelectors plan.selectors) = true ↔
      pod.IsFor input m := by
  have hundone := undone_plan hP h hvalid hderived hnodup
  have hentries : ∀ key value, (key, value) ∈
      (workloadSelectionFromSelectors plan.selectors).podLabels ↔ _ := fun key value =>
    Iff.trans ⟨lookup_of_mem ((decoded_plan hP h hvalid hderived hnodup).nodup List.nodup_nil),
      mem_of_lookup⟩ (hundone.podLabels key value)
  have haccepted := accepted_of_planIdentity h
  have hvariant : input.variant ≠ [] := (validateVariant_ok haccepted.variant).2.1
  have hsa : input.serviceAccountName ≠ [] := hP.subdomain_ne_nil haccepted.serviceAccount
  have hvalue : ∀ key value, (key, .string value) ∈ m → value ≠ [] := by
    intro key value hfield
    obtain ⟨text, htext, hne, -⟩ := hvalid _ hfield
    rw [Json.string.injEq] at htext
    exact htext ▸ hne
  rw [podMatchesSelection, hundone.namespace_, hundone.serviceAccount,
    if_neg (fun hne => hne.2 hnamespace), CorePod.IsFor, and_iff_right hnamespace]
  by_cases hpodSA : pod.serviceAccountName = input.serviceAccountName
  · rw [if_neg (fun hne => hne.2 hpodSA), and_iff_right hpodSA, List.all_eq_true]
    constructor
    · intro hall
      have hlabel : ∀ key value, value ≠ [] →
          ((key = variantLabelKey ∧ value = input.variant) ∨
            (key ≠ variantLabelKey ∧ (key, .string value) ∈ m)) →
          pod.labels.lookup key = some value := by
        intro key value hne hentry
        have heq := hall (key, value) ((hentries key value).mpr hentry)
        exact (entryOf_eq_iff hne).mp (beq_iff_eq.mp heq)
      have hown := hlabel _ _ hvariant (Or.inl ⟨rfl, rfl⟩)
      refine ⟨fun key value hfield => ?_, hown⟩
      by_cases hkey : key = variantLabelKey
      · subst hkey
        have hsame : value = input.variant := eq_variant_of_mem_plan h
          ((podLabelSelector_mem_plan hP h hvalid hderived (by decide)).mpr (Or.inr hfield))
        rw [hsame, hown]
      · exact hlabel key value (hvalue key value hfield) (Or.inr ⟨hkey, hfield⟩)
    · rintro ⟨hlabels, hown⟩ ⟨key, value⟩ hentry
      rw [beq_iff_eq]
      rcases (hentries key value).mp hentry with ⟨rfl, rfl⟩ | ⟨-, hfield⟩
      · exact (entryOf_eq_iff hvariant).mpr hown
      · exact (entryOf_eq_iff (hvalue key value hfield)).mpr (hlabels key value hfield)
  · rw [if_pos ⟨hsa, hpodSA⟩]
    exact iff_of_false Bool.false_ne_true fun hfor => hpodSA hfor.1

include hP h hvalid hderived hnodup in
/-- What `inspectMatchedPods` reports: the pods the identity is for, sorted. -/
theorem matchedPods_inspectMatchedPods (isForbidden : GoError → Bool)
    (hselector : plan.podSelector = .object [(str "matchLabels", .object m)])
    (pods : List CorePod) {binding : Binding} (hnamespace : binding.key.namespace_ = input.namespace_)
    (report : InspectionReport) :
    ∃ chosen : List CorePod, chosen.Sublist pods ∧
      (∀ pod, pod ∈ chosen ↔ pod ∈ pods ∧ pod.IsFor input m) ∧
      (Inspector.inspectMatchedPods ⟨P, isForbidden⟩ (servePods pods) binding (some plan)
        report).matchedPods = (chosen.map CorePod.matched).insertionSort fun a b =>
          matchedPodSortKey a ≤ matchedPodSortKey b := by
  have hundone := undone_plan hP h hvalid hderived hnodup
  have hlabels : podSelectorMatchLabels P plan.podSelector =
      .ok (m.map fun field => (field.1, labelValue field)) := by
    rw [hselector]
    exact matchLabelTexts_eq P hvalid
  rw [Inspector.inspectMatchedPods]
  simp only [hundone.unsupportedSelectors, List.length_nil, gt_iff_lt, lt_irrefl, if_false,
    listMatchingPods, hlabels, servePods, reportMatched]
  rw [matchedPodsFromPods_eq hundone.containerSelectorType, hnamespace]
  refine ⟨_, List.filter_sublist.trans List.filter_sublist, fun pod => ?_, rfl⟩
  rw [List.mem_filter, List.mem_filter, decide_eq_true_iff, and_assoc]
  refine and_congr_right fun _ => ⟨?_, fun hfor => ⟨⟨hfor.1, ?_⟩, ?_⟩⟩
  · rintro ⟨⟨hpod, -⟩, hmatches⟩
    exact (podMatchesSelection_iff hP h hvalid hderived hnodup hpod).mp hmatches
  · -- the labels of the list call are the pool's
    rw [List.all_eq_true]
    intro entry hentry
    obtain ⟨⟨key, value⟩, hfield, rfl⟩ := List.mem_map.mp hentry
    have hstring : value = .string (labelValue (key, value)) := (hvalid _ hfield).eq_string
    rw [beq_iff_eq]
    exact hfor.2.2.1 key _ (hstring ▸ hfield)
  · exact (podMatchesSelection_iff hP h hvalid hderived hnodup hfor.1).mpr hfor

end Exact

/-- **Decoding undoes rendering, and matched pods are exact.** The selectors of a plan
for a pool decode to the boundary and the pool's labels; so the pods an inspection
reports, when the list call returns what it was asked for, are the pods the identity is
for, each once and in the order of their keys. -/
theorem inspectMatchedPods_exact {P : Platform} (hP : P.Documented) {pool : InferencePool}
    (hpool : pool.WellFormed) {m : List (GoString × Json)} (hdeclares : pool.Declares m)
    {input : PlanInput} (hresolve : resolveInferenceTarget P pool = .ok input.target) {plan : Plan}
    (h : planIdentity P input = .ok plan) :
    Undone input m (workloadSelectionFromSelectors plan.selectors) ∧
    ∀ (isForbidden : GoError → Bool) (binding : Binding) (report : InspectionReport)
      (pods : List CorePod), binding.key.namespace_ = input.namespace_ →
      (pods.map fun pod => (pod.namespace_, pod.name)).Nodup →
      let matched := (Inspector.inspectMatchedPods ⟨P, isForbidden⟩ (servePods pods) binding
        (some plan) report).matchedPods
      (∀ x, x ∈ matched ↔ ∃ pod ∈ pods, pod.IsFor input m ∧ x = pod.matched) ∧ matched.Nodup ∧
      matched.Pairwise fun a b => matchedPodSortKey a < matchedPodSortKey b := by
  obtain ⟨m', hdeclares', hvalid, htarget⟩ := (resolveInferenceTarget_eq_ok_iff hP).mp hresolve
  obtain rfl := hdeclares.unique hdeclares'
  have hnodup := hdeclares.nodup_keys hpool
  have hderived : input.target.derivedSelectors = m.map fieldSelector := by rw [htarget]
  have hselector : plan.podSelector = .object [(str "matchLabels", .object m)] := by
    obtain ⟨-, -, rfl⟩ := planIdentity_eq_ok_iff.mp h
    rw [PlanInput.plan, htarget]
  refine ⟨undone_plan hP h hvalid.2 hderived hnodup, ?_⟩
  intro isForbidden binding report pods hnamespace hpods
  obtain ⟨chosen, hsublist, hchosen, hmatched⟩ := matchedPods_inspectMatchedPods hP h hvalid.2
    hderived hnodup isForbidden hselector pods hnamespace report
  have hsorted := pairwise_matched (fun pod hpod => ((hchosen pod).mp hpod).2.1)
    (hpods.sublist (hsublist.map _))
  simp only [hmatched]
  refine ⟨fun x => ?_, hsorted.imp fun hlt heq => ?_, hsorted⟩
  · rw [List.mem_insertionSort, List.mem_map]
    simp only [hchosen, and_assoc, eq_comm]
  · exact absurd (congrArg matchedPodSortKey heq) hlt.ne

/-- Of two pods of the pool, the one with the variant's label is reported. -/
theorem inspectMatchedPods_exact_small :
    ⟨str "n", str "q", []⟩ ∈ (Inspector.inspectMatchedPods
      ⟨smallReconciler.platform, fun _ => false⟩
      (servePods [⟨str "n", str "q", str "s", [(str "a", str "b"), (variantLabelKey, str "v")], []⟩,
        ⟨str "n", str "r", str "s", [(str "a", str "b")], []⟩])
      (smallBinding "x" "v") (some (labelledInput (str "a") (str "b")).plan) {}).matchedPods := by
  have hpool : (labelledPool (str "a") (str "b")).WellFormed := by
    rintro spec ⟨⟩
    decide +kernel
  have hplan : planIdentity smallReconciler.platform (labelledInput (str "a") (str "b")) =
      .ok (labelledInput (str "a") (str "b")).plan := planIdentity_labelled (by decide +kernel)
  obtain ⟨-, hexact⟩ := inspectMatchedPods_exact smallReconciler_documented hpool
    (labelledPool_declares (str "a") (str "b"))
    (labelledPool_resolves (by decide) (by decide) (by decide)) hplan
  refine ((hexact _ (smallBinding "x" "v") {} _ rfl (by decide +kernel)).1 _).mpr
    ⟨_, List.mem_cons_self, ⟨rfl, rfl, ?_, by decide +kernel⟩, rfl⟩
  intro key value hfield
  rw [List.mem_singleton, Prod.mk.injEq, Json.string.injEq] at hfield
  rw [hfield.1, hfield.2]
  decide +kernel

end Kleym
