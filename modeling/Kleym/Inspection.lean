import Kleym.Reconcile

/-!
# `kleym inspect binding` (`internal/inspection`)

The CLI renders a binding on its own, without the operator: it reads the pool,
calls the planner and copies the outcome into a report, and then decodes the
planned selectors again to list the pods they match. This module has the part of
the inspection that starts from a binding in hand, `inspectRenderedIdentity` and
`inspectMatchedPods`, with the part of the report the two write.

Pools are read through the same client calls as the operator's. Pods are read by
one list call whose answer is a parameter.
-/

namespace Kleym

open GoString Prog

/-! ## The report -/

/-- `BindingInspectionCapability`, the empty string included. -/
inductive InspectionCapability : Type where
  | unset
  | full
  | partial_
  | skipped
  | unknown
  deriving DecidableEq

/-- `BindingInspectionFindingSeverity`. -/
inductive FindingSeverity : Type where
  | info
  | warning
  | error
  deriving DecidableEq

/-- `BindingInspectionTargetRef`. -/
structure InspectionTargetRef where
  name : GoString
  namespace_ : GoString
  group : GoString
  version : GoString
  kind : GoString
  deriving DecidableEq

/-- `BindingInspectionFinding`. -/
structure InspectionFinding where
  id : GoString
  severity : FindingSeverity
  reason : GoString
  message : GoString
  affectedRefs : List InspectionTargetRef
  deriving DecidableEq

/-- `BindingInspectionSelectorProvenance`. -/
structure SelectorProvenance where
  poolDerivedSelectors : List GoString
  safetySelectors : List GoString
  deriving DecidableEq

/-- `BindingInspectionRenderedIdentity`. -/
structure InspectedIdentity where
  spiffeID : GoString := []
  podSelector : Option Json := none
  workloadSelectors : List GoString := []
  selectorProvenance : Option SelectorProvenance := none

/-- `BindingInspectionRenderedClusterSPIFFEID`. A class name that is empty is left
out of the report's JSON. -/
structure InspectedClusterSPIFFEID where
  name : GoString := []
  spiffeID : GoString := []
  podSelector : Option Json := none
  workloadSelectors : List GoString := []
  hint : GoString := []
  className : GoString := []
  fallback : Option Bool := none

/-- `BindingInspectionMatchedPod`. -/
structure MatchedPod where
  namespace_ : GoString
  pod : GoString
  container : GoString
  deriving DecidableEq

/-- `BindingInspectionReport`, as far as the two steps write it. -/
structure InspectionReport where
  poolRef : Option InspectionTargetRef := none
  poolSelector : Option Json := none
  selectorProvenance : Option SelectorProvenance := none
  renderedIdentity : InspectedIdentity := {}
  renderedClusterSPIFFEID : InspectedClusterSPIFFEID := {}
  matchedPods : List MatchedPod := []
  findings : List InspectionFinding := []
  gaieResources : InspectionCapability := .unset
  pods : InspectionCapability := .unset

/-! ## Findings -/

/-- An error as the findings tell errors apart: by the package of its state-error
type, if it has one. -/
inductive InspectionError : Type where
  | identity (err : StateError)
  | gaie (err : StateError)
  | other (err : GoError)

/-- An error of `ResolveInferencePool`: its state errors are those of `gaie`. -/
def InspectionError.ofPool (err : GoError) : InspectionError :=
  match errorsAsStateError err with
  | some stateErr => .gaie stateErr
  | none => .other err

/-- A reason that says a CRD is missing. -/
def isCRDMissing (reason : Reason) : Bool := decide (str "CRDMissing" <:+ reason.text)

/-- The ID to fall back to, with the default that stands for none. -/
def fallbackFindingID (fallbackID : GoString) : GoString :=
  if fallbackID ≠ [] then fallbackID else str "dependency-missing"

/-- `findingIDForStateError`. -/
def findingIDForStateError (err : StateError) (fallbackID : GoString) : GoString :=
  if isCRDMissing err.reason then str "dependency-missing"
  else
    match err.conditionType with
    | .unsafeSelector => str "unsafe-selector"
    | .renderFailure => str "render-failure"
    | _ => fallbackFindingID fallbackID

/-- `findingIDForGAIEStateError`. -/
def findingIDForGAIEStateError (err : StateError) (fallbackID : GoString) : GoString :=
  if isCRDMissing err.reason then str "dependency-missing"
  else
    match err.conditionType with
    | .invalidRef => str "invalid-ref"
    | _ => fallbackFindingID fallbackID

/-- `bindingInspector`: what an inspection is set up with. -/
structure Inspector where
  platform : Platform
  /-- `apierrors.IsForbidden` -/
  isForbidden : GoError → Bool

/-- `resolvedIdentityConfig`, without where its values come from. -/
structure ResolvedIdentityConfig where
  trustDomain : GoString
  clusterSPIFFEIDClassName : GoString
  deriving DecidableEq

/-- The reference to the binding itself. -/
def bindingInspectionBindingTargetRef (binding : Binding) : InspectionTargetRef where
  name := binding.key.name
  namespace_ := binding.key.namespace_
  group := str "kleym.sonda.red"
  version := str "v1alpha1"
  kind := str "InferenceIdentityBinding"

/-- The reference to the pods of a namespace. -/
def podResourceTargetRef (namespace_ : GoString) : InspectionTargetRef where
  name := str "pods"
  namespace_ := namespace_
  group := []
  version := str "v1"
  kind := str "Pod"

/-- `firstNonEmpty` of two values. -/
def firstNonEmpty (first second : GoString) : GoString := if first ≠ [] then first else second

/-- `poolRefToReportRef`. -/
def poolRefToReportRef (ref : PoolRef) (gvk : GroupVersionKind) : InspectionTargetRef where
  name := ref.name
  namespace_ := ref.namespace_
  group := firstNonEmpty gvk.group ref.group
  version := gvk.version
  kind := firstNonEmpty gvk.kind (str "InferencePool")

/-- `findingForError`. -/
def Inspector.findingForError (i : Inspector) (err : InspectionError) (ref : InspectionTargetRef)
    (fallbackID : GoString) : InspectionFinding :=
  match err with
  | .identity err =>
    ⟨findingIDForStateError err fallbackID, .error, err.reason.text, err.message, [ref]⟩
  | .gaie err =>
    ⟨findingIDForGAIEStateError err fallbackID, .error, err.reason.text, err.message, [ref]⟩
  | .other err =>
    if i.isForbidden err then
      ⟨str "rbac-limited", .error, str "Forbidden", err.message, [ref]⟩
    else
      ⟨fallbackFindingID fallbackID, .error, str "InspectionFailed", err.message, [ref]⟩

/-- `addFindingForError`. -/
def Inspector.addFindingForError (i : Inspector) (report : InspectionReport)
    (err : InspectionError) (ref : InspectionTargetRef) (fallbackID : GoString) :
    InspectionReport :=
  { report with findings := report.findings ++ [i.findingForError err ref fallbackID] }

/-! ## Rendering -/

/-- `gaie.ResolveInferencePool`, the function both the operator and the CLI call;
the operator's configuration plays no part in it. -/
def resolveInferencePool (P : Platform) (availablePoolGVKs : List GroupVersionKind)
    (poolRef : PoolRef) : Op (Except GoError InferencePool) :=
  Reconciler.resolveInferencePool ⟨P, ⟨[], []⟩, availablePoolGVKs⟩ poolRef

/-- `RenderFallback`. -/
def renderFallback : Bool := false

/-- `selectorProvenance`: which of the plan's selectors come from the pool, and which
are the namespace's and the service account's. -/
def selectorProvenance (rendered : Plan) (poolDerivedSelectors : List GoString) :
    SelectorProvenance where
  poolDerivedSelectors := poolDerivedSelectors.insertionSort (· ≤ ·)
  safetySelectors :=
    (rendered.selectors.filter fun selector =>
      !poolDerivedSelectors.elem selector &&
        (selector.hasPrefix nsPrefix || selector.hasPrefix saPrefix)).insertionSort (· ≤ ·)

/-- What the CLI gives `PlanIdentity`. -/
def inspectionPlanInput (config : ResolvedIdentityConfig) (binding : Binding)
    (target : ResolvedInferenceTarget) : PlanInput where
  namespace_ := binding.key.namespace_
  serviceAccountName := binding.spec.serviceAccountName
  trustDomain := config.trustDomain
  variant := binding.spec.variant
  target := target

/-- The report of a rendered identity. -/
def reportRendered (P : Platform) (binding : Binding) (config : ResolvedIdentityConfig)
    (target : ResolvedInferenceTarget) (rendered : Plan) (report : InspectionReport) :
    InspectionReport :=
  { report with
    poolSelector := some target.podSelector
    selectorProvenance := some (selectorProvenance rendered target.derivedSelectors)
    renderedIdentity :=
      { spiffeID := rendered.spiffeID
        podSelector := some rendered.podSelector
        workloadSelectors := rendered.selectors
        selectorProvenance := some (selectorProvenance rendered target.derivedSelectors) }
    renderedClusterSPIFFEID :=
      { name := buildClusterSPIFFEIDName P binding.key.namespace_ binding.key.name
          rendered.identityAnchor.kind rendered.spiffeID
        spiffeID := rendered.spiffeID
        podSelector := some rendered.podSelector
        workloadSelectors := rendered.selectors
        hint := buildClusterSPIFFEIDHint binding.key
        className := config.clusterSPIFFEIDClassName
        fallback := some renderFallback }
    gaieResources := .full }

/-- `inspectRenderedIdentity`: the report, and the plan when there is one. -/
def Inspector.inspectRenderedIdentity (i : Inspector) (binding : Binding)
    (availablePoolGVKs : List GroupVersionKind) (config : ResolvedIdentityConfig)
    (report : InspectionReport) : Op (InspectionReport × Option Plan) :=
  match bindingPoolRef i.platform binding.key.namespace_ binding.spec.poolRef with
  | .error message =>
    ret (i.addFindingForError { report with gaieResources := .partial_ }
      (.other (plainError message)) (bindingInspectionBindingTargetRef binding)
      (str "invalid-ref"), none)
  | .ok poolRef => do
    let ref := poolRefToReportRef poolRef ⟨[], [], str "InferencePool"⟩
    match ← resolveInferencePool i.platform availablePoolGVKs poolRef with
    | .error err =>
      ret (i.addFindingForError { report with poolRef := some ref, gaieResources := .partial_ }
        (.ofPool err) ref [], none)
    | .ok pool =>
      let ref := poolRefToReportRef poolRef pool.gvk
      let report := { report with poolRef := some ref }
      match resolveInferenceTarget i.platform pool with
      | .error message =>
        ret (i.addFindingForError { report with gaieResources := .full }
          (.identity ⟨.unsafeSelector, .invalidPoolSelector, message⟩) ref [], none)
      | .ok target =>
        match planIdentity i.platform (inspectionPlanInput config binding target) with
        | .error err =>
          ret (i.addFindingForError { report with gaieResources := .full } (.identity err)
            (bindingInspectionBindingTargetRef binding) [], none)
        | .ok rendered =>
          ret (reportRendered i.platform binding config target rendered report, some rendered)

/-! ## Decoding selectors -/

/-- `workloadSelection`. -/
structure WorkloadSelection where
  namespace_ : GoString := []
  serviceAccount : GoString := []
  podLabels : List (GoString × GoString) := []
  containerSelectorType : GoString := []
  containerValue : GoString := []
  unsupportedSelectors : List GoString := []
  deriving DecidableEq

/-- Prefix of a container selector. -/
def containerNamePrefix : GoString := str "k8s:container-name:"

/-- One round of the loop of `workloadSelectionFromSelectors`. -/
def selectWorkload (selection : WorkloadSelection) (selector : GoString) : WorkloadSelection :=
  if selector.hasPrefix nsPrefix then
    { selection with namespace_ := selector.trimPrefix nsPrefix }
  else if selector.hasPrefix saPrefix then
    { selection with serviceAccount := selector.trimPrefix saPrefix }
  else if selector.hasPrefix containerNamePrefix then
    { selection with
      containerSelectorType := str "name"
      containerValue := selector.trimPrefix containerNamePrefix }
  else if selector.hasPrefix podLabelPrefix then
    match cut 58 (selector.trimPrefix podLabelPrefix) with
    | some (key, value) =>
      if key ≠ [] then { selection with podLabels := setEntry key value selection.podLabels }
      else { selection with unsupportedSelectors := selection.unsupportedSelectors ++ [selector] }
    | none =>
      { selection with unsupportedSelectors := selection.unsupportedSelectors ++ [selector] }
  else { selection with unsupportedSelectors := selection.unsupportedSelectors ++ [selector] }

/-- `workloadSelectionFromSelectors`. -/
def workloadSelectionFromSelectors (selectors : List GoString) : WorkloadSelection :=
  selectors.foldl selectWorkload {}

/-! ## Pods -/

/-- `corev1.Pod`, as far as it is read. -/
structure CorePod where
  namespace_ : GoString
  name : GoString
  serviceAccountName : GoString
  labels : List (GoString × GoString)
  /-- the names of the containers -/
  containers : List GoString
  deriving DecidableEq

/-- `podMatchesSelection`. A label that is not there reads as the empty string. -/
def podMatchesSelection (pod : CorePod) (selection : WorkloadSelection) : Bool :=
  if selection.namespace_ ≠ [] ∧ pod.namespace_ ≠ selection.namespace_ then false
  else if selection.serviceAccount ≠ [] ∧ pod.serviceAccountName ≠ selection.serviceAccount then
    false
  else selection.podLabels.all fun entry => entryOf (some pod.labels) entry.1 == entry.2

/-- `matchingPodContainers`: the names of the selected containers. -/
def matchingPodContainers (pod : CorePod) (selection : WorkloadSelection) : List GoString :=
  if selection.containerSelectorType = [] then []
  else if selection.containerSelectorType = str "name" then
    pod.containers.filter (· == selection.containerValue)
  else []

/-- `matchedPodsFromPods`. -/
def matchedPodsFromPods (pods : List CorePod) (selection : WorkloadSelection) : List MatchedPod :=
  pods.flatMap fun pod =>
    if !podMatchesSelection pod selection then []
    else if selection.containerSelectorType = [] then [⟨pod.namespace_, pod.name, []⟩]
    else (matchingPodContainers pod selection).map fun container =>
      ⟨pod.namespace_, pod.name, container⟩

/-- `matchedPodSortKey`. -/
def matchedPodSortKey (workload : MatchedPod) : GoString :=
  workload.namespace_ ++ str "/" ++ workload.pod ++ str "/" ++ workload.container

/-- The loop of `podSelectorMatchLabels`. -/
def matchLabelTexts (P : Platform) :
    List (GoString × Json) → Except GoString (List (GoString × GoString))
  | [] => .ok []
  | (key, value) :: rest =>
    match value.asString with
    | none => .error (str "rendered pod selector matchLabels[" ++ P.quote key ++
        str "] must be a string")
    | some text =>
      match matchLabelTexts P rest with
      | .error message => .error message
      | .ok labels => .ok ((key, text) :: labels)

/-- `podSelectorMatchLabels`, for a selector that is an object. -/
def podSelectorMatchLabels (P : Platform) (selector : Json) :
    Except GoString (List (GoString × GoString)) :=
  let fields := (selector.asObject).getD []
  match ((fields.lookup (str "matchLabels")).getD selector).asObject with
  | none => .error (str "rendered pod selector matchLabels must be an object")
  | some matchLabels => matchLabelTexts P matchLabels

/-- A list of pods by namespace and labels. -/
abbrev PodLister : Type := GoString → List (GoString × GoString) → Except GoError (List CorePod)

/-- `listMatchingPods`. -/
def listMatchingPods (P : Platform) (list : PodLister) (binding : Binding) (rendered : Plan) :
    Except GoError (List CorePod) :=
  match podSelectorMatchLabels P rendered.podSelector with
  | .error message => .error (plainError message)
  | .ok matchLabels => list binding.key.namespace_ matchLabels

/-- `unsupportedSelectorFinding`. -/
def unsupportedSelectorFinding (binding : Binding) (selectors : List GoString) :
    InspectionFinding :=
  ⟨str "unsupported-selector", .warning, str "UnsupportedSelector",
    str "matched pods cannot be fully evaluated because rendered selectors are unsupported by " ++
      str "CLI pod inspection: " ++ join (str ", ") selectors,
    [bindingInspectionBindingTargetRef binding]⟩

/-- `zeroMatchedPodsFinding`. -/
def zeroMatchedPodsFinding (binding : Binding) : InspectionFinding :=
  ⟨str "zero-matched-pods", .info, str "ZeroMatchedPods",
    str "no currently readable pods match the rendered identity selectors",
    [bindingInspectionBindingTargetRef binding]⟩

/-- What an inspection reports when the pods cannot be listed. -/
def Inspector.reportUnlisted (i : Inspector) (binding : Binding) (err : GoError)
    (report : InspectionReport) : InspectionReport :=
  if i.isForbidden err then
    { report with
      pods := .partial_
      findings := report.findings ++ [⟨str "rbac-limited", .warning, str "Forbidden",
        str "pods are not readable", [podResourceTargetRef binding.key.namespace_]⟩] }
  else
    { report with
      pods := .unknown
      findings := report.findings ++ [⟨str "dependency-missing", .warning, str "PodListFailed",
        err.message, [podResourceTargetRef binding.key.namespace_]⟩] }

/-- What an inspection reports about the listed pods. The source sorts with an
unstable sort; pods have distinct keys, so there is one sorted order. -/
def reportMatched (binding : Binding) (pods : List CorePod) (selection : WorkloadSelection)
    (report : InspectionReport) : InspectionReport :=
  let matched := (matchedPodsFromPods pods selection).insertionSort fun a b =>
    matchedPodSortKey a ≤ matchedPodSortKey b
  { report with
    pods := .full
    matchedPods := matched
    findings :=
      if matched.length = 0 then report.findings ++ [zeroMatchedPodsFinding binding]
      else report.findings }

/-- `inspectMatchedPods`, for the plan `inspectRenderedIdentity` returned. -/
def Inspector.inspectMatchedPods (i : Inspector) (list : PodLister) (binding : Binding)
    (rendered : Option Plan) (report : InspectionReport) : InspectionReport :=
  match rendered with
  | none => report
  | some rendered =>
    let selection := workloadSelectionFromSelectors rendered.selectors
    if selection.unsupportedSelectors.length > 0 then
      { report with
        pods := .partial_
        findings := report.findings ++
          [unsupportedSelectorFinding binding selection.unsupportedSelectors] }
    else
      match listMatchingPods i.platform list binding rendered with
      | .error err => i.reportUnlisted binding err report
      | .ok pods => reportMatched binding pods selection report

end Kleym
