import Kleym.StatusReport
import Kleym.Reporting

/-!
# The report of one binding (`internal/inspection`)

`InspectBinding` around the two steps of `Inspection`: which kinds are served, the binding itself,
and the configuration it is rendered with, which comes from flags, from the status of the binding
or from the defaults of the CLI. Then the text of the report.

What a report says about the cluster comes down to a few facts, and `Inspected` has them: the
severities of the findings follow from whether the binding can be rendered, whether its status has
the configuration, and whether the pods can be listed. Rendering here is that of the operator, with
the configuration that was resolved.
-/

namespace Kleym

open GoString Prog

/-! ## The configuration -/

/-- Where a setting comes from, the empty string included. -/
inductive ConfigSource : Type where
  | unset
  | bindingStatus
  | default_
  | flag
  deriving DecidableEq

/-- `inspectionIdentityConfig`: the two settings, and whether a flag gave them. -/
structure InspectionIdentityConfig where
  trustDomain : GoString
  trustDomainOverride : Bool
  clusterSPIFFEIDClassName : GoString
  clusterSPIFFEIDClassNameOverride : Bool
  deriving DecidableEq

/-- `DefaultTrustDomain`. -/
def defaultTrustDomain : GoString := str "kleym.sonda.red"

/-- `ValidateOperatorIdentityConfig`. -/
def validateOperatorIdentityConfig (trustDomain clusterSPIFFEIDClassName : GoString) :
    Except GoString Unit :=
  if trimSpace trustDomain = [] then
    .error (str "trustDomain must be configured before Kleym can render SPIFFE IDs")
  else if trustDomain ≠ trimSpace trustDomain then
    .error (str "trustDomain must not include leading or trailing whitespace")
  else if trustDomain.hasPrefix (str "spiffe://") then
    .error (str "trustDomain must not include spiffe://")
  else if trustDomain.contains (str "/") then .error (str "trustDomain must not contain /")
  else if clusterSPIFFEIDClassName ≠ trimSpace clusterSPIFFEIDClassName then
    .error (str "clusterspiffeidClassName must not include leading or trailing whitespace")
  else .ok ()

/-- `normalizedInspectionIdentityConfig`. -/
def normalizedInspectionIdentityConfig (config : InspectionIdentityConfig) :
    Except GoString InspectionIdentityConfig :=
  let config := { config with
    trustDomain := if config.trustDomain = [] then defaultTrustDomain else config.trustDomain }
  match validateOperatorIdentityConfig config.trustDomain config.clusterSPIFFEIDClassName with
  | .error message => .error message
  | .ok () => .ok config

/-- `resolvedIdentityConfig`, with where its values come from. -/
structure SourcedIdentityConfig extends ResolvedIdentityConfig where
  trustDomainSource : ConfigSource
  clusterSPIFFEIDClassNameSource : ConfigSource
  discovered : Bool
  deriving DecidableEq

/-- `BindingInspectionIdentityConfig`. -/
structure InspectedIdentityConfig where
  trustDomain : GoString := []
  trustDomainSource : ConfigSource := .unset
  clusterSPIFFEIDClassName : GoString := []
  clusterSPIFFEIDClassNameSource : ConfigSource := .unset
  deriving DecidableEq

/-- `BindingInspectionBindingRef`. -/
structure InspectionBindingRef where
  namespace_ : GoString := []
  name : GoString := []
  generation : ℕ := 0
  poolRef : Option InspectionTargetRef := none
  conditions : List Condition := []

/-- `BindingInspectionReport` as a whole. The lists start out empty and not nil. -/
structure BindingInspectionReport extends InspectionReport where
  schemaVersion : GoString := []
  kind : GoString := []
  generatedAt : GoString := []
  identityConfig : InspectedIdentityConfig := {}
  bindingRef : InspectionBindingRef := {}
  servedGVKs : List GroupVersionKind := []
  /-- `capabilities.binding` -/
  bindingCapability : InspectionCapability := .unset
  peerBindings : InspectionCapability := .unset
  exitCode : Option ℕ := none

/-- `normalizeBindingInspectionReport`. -/
def normalizeBindingInspectionReport (report : BindingInspectionReport) : BindingInspectionReport :=
  { report with
    schemaVersion := if report.schemaVersion = [] then str "v1alpha1" else report.schemaVersion
    kind := if report.kind = [] then str "BindingInspectionReport" else report.kind }

/-- `NewBindingInspectionReport`. -/
def newBindingInspectionReport : BindingInspectionReport := normalizeBindingInspectionReport {}

/-- The settings, by the order in which they count: a flag, the status, the default. -/
def sourcedIdentityConfig (config : InspectionIdentityConfig) (binding : Binding) :
    SourcedIdentityConfig :=
  let resolved : SourcedIdentityConfig :=
    if binding.status.trustDomain ≠ [] then
      ⟨⟨binding.status.trustDomain, binding.status.clusterSPIFFEIDClassName⟩, .bindingStatus,
        .bindingStatus, true⟩
    else ⟨⟨config.trustDomain, config.clusterSPIFFEIDClassName⟩, .default_, .default_, false⟩
  let resolved :=
    if config.trustDomainOverride then
      { resolved with trustDomain := config.trustDomain, trustDomainSource := .flag }
    else resolved
  if config.clusterSPIFFEIDClassNameOverride then
    { resolved with
      clusterSPIFFEIDClassName := config.clusterSPIFFEIDClassName
      clusterSPIFFEIDClassNameSource := .flag }
  else resolved

/-- `identityConfigUndiscoveredFinding`. -/
def identityConfigUndiscoveredFinding (binding : Binding) (config : SourcedIdentityConfig) :
    InspectionFinding :=
  let summary :=
    if config.trustDomainSource = .flag ∧ config.clusterSPIFFEIDClassNameSource = .flag then
      str "CLI flags"
    else if config.trustDomainSource = .flag ∨ config.clusterSPIFFEIDClassNameSource = .flag then
      str "CLI flags and defaults"
    else str "CLI defaults"
  ⟨str "identity-config-undiscovered", .warning, str "IdentityConfigUndiscovered",
    str "operator config was not discovered from InferenceIdentityBinding status; using " ++ summary,
    [bindingInspectionBindingTargetRef binding]⟩

/-- `resolveIdentityConfig`. -/
def resolveIdentityConfig (config : InspectionIdentityConfig) (binding : Binding)
    (report : BindingInspectionReport) : SourcedIdentityConfig × BindingInspectionReport :=
  let resolved := sourcedIdentityConfig config binding
  let report := { report with
    identityConfig := ⟨resolved.trustDomain, resolved.trustDomainSource,
      resolved.clusterSPIFFEIDClassName, resolved.clusterSPIFFEIDClassNameSource⟩ }
  if resolved.discovered then (resolved, report)
  else
    (resolved, { report with
      findings := report.findings ++ [identityConfigUndiscoveredFinding binding resolved] })

/-! ## The inspection -/

/-- `bindingInspector`: besides `Inspector`, the answers of the REST mapper and of the pod list,
the time, and the configuration. -/
structure BindingInspector extends Inspector where
  restMapping : GroupVersionKind → Except GoError Unit
  listPods : PodLister
  /-- the time as it is put in a report -/
  now : GoString
  identityConfig : InspectionIdentityConfig

/-- How an inspection ends that is not a success. -/
inductive InspectionFailure : Type where
  /-- `ErrBindingInspectionNotFound` -/
  | notFound
  /-- `ErrBindingInspectionErrorFindings` -/
  | errorFindings
  | failed (message : GoString)
  deriving DecidableEq

/-- The message of a failure. -/
def InspectionFailure.message : InspectionFailure → GoString
  | .notFound => str "binding not found"
  | .errorFindings => str "binding inspection report contains error findings"
  | .failed message => message

/-- `filterAvailableInspectionGVKs`: a kind that is not served is left out, any other error ends
it. -/
def filterAvailableInspectionGVKs (restMapping : GroupVersionKind → Except GoError Unit) :
    List GroupVersionKind → Except GoString (List GroupVersionKind)
  | [] => .ok []
  | gvk :: gvks =>
    match restMapping gvk with
    | .ok () => (filterAvailableInspectionGVKs restMapping gvks).map (gvk :: ·)
    | .error err =>
      if err.kind = .noMatch then filterAvailableInspectionGVKs restMapping gvks
      else .error (str "resolve REST mapping for " ++ gvk.text ++ str ": " ++ err.message)

/-- `NamespacedBindingKey`. -/
def namespacedBindingKey (key : NamespacedName) : GoString :=
  key.namespace_ ++ str "/" ++ key.name

/-- The finding of a binding that is not there. -/
def bindingNotFoundFinding (P : Platform) (key : NamespacedName) : InspectionFinding :=
  ⟨str "binding-not-found", .error, str "NotFound",
    str "InferenceIdentityBinding " ++ P.quote (namespacedBindingKey key) ++ str " was not found",
    [⟨key.name, key.namespace_, str "kleym.sonda.red", str "v1alpha1",
      str "InferenceIdentityBinding"⟩]⟩

/-- `bindingInspectionBindingRef`. -/
def bindingInspectionBindingRef (binding : Binding) : InspectionBindingRef where
  namespace_ := binding.key.namespace_
  name := binding.key.name
  generation := binding.generation
  poolRef := some ⟨binding.spec.poolRef.name, binding.key.namespace_, binding.spec.poolRef.group, [],
    str "InferencePool"⟩
  conditions := binding.status.conditions

/-- The report of a binding that was read, to begin with. -/
def BindingInspectionReport.found (report : BindingInspectionReport) (binding : Binding) :
    BindingInspectionReport :=
  { report with
    bindingCapability := .full
    peerBindings := .partial_
    bindingRef := bindingInspectionBindingRef binding }

/-- The end of `InspectBinding`. -/
def concludeInspection (report : BindingInspectionReport) :
    BindingInspectionReport × Option InspectionFailure :=
  let report := normalizeBindingInspectionReport report
  (report, if hasErrorSeverityFinding report.findings then some .errorFindings else none)

/-- The part of `InspectBinding` that has the binding. -/
def BindingInspector.inspectFound (i : BindingInspector) (available : List GroupVersionKind)
    (binding : Binding) (report : BindingInspectionReport) :
    Op (BindingInspectionReport × Option InspectionFailure) :=
  match resolveIdentityConfig i.identityConfig binding (report.found binding) with
  | (config, report) => do
    match ← i.inspectRenderedIdentity binding available config.toResolvedIdentityConfig
        report.toInspectionReport with
    | (rendered, plan) =>
      ret (concludeInspection { report with
        toInspectionReport := i.inspectMatchedPods i.listPods binding plan rendered })

/-- `InspectBinding`. -/
def BindingInspector.inspectBinding (i : BindingInspector) (key : NamespacedName) :
    Op (BindingInspectionReport × Option InspectionFailure) :=
  let report := { newBindingInspectionReport with
    generatedAt := i.now
    bindingRef := { namespace_ := key.namespace_, name := key.name }
    pods := .skipped }
  match filterAvailableInspectionGVKs i.restMapping inferencePoolGVKs with
  | .error message =>
    ret (report, some (.failed (str "discover served GAIE resources: " ++ message)))
  | .ok available => do
    let report := { report with servedGVKs := available }
    match ← getBinding key with
    | .error err =>
      if err.kind = .notFound then
        ret (normalizeBindingInspectionReport { report with
          bindingCapability := .full
          findings := report.findings ++ [bindingNotFoundFinding i.platform key] }, some .notFound)
      else
        ret (report, some (.failed (str "read InferenceIdentityBinding " ++
          i.platform.quote (namespacedBindingKey key) ++ str ": " ++ err.message)))
    | .ok binding => i.inspectFound available binding report

/-! ## The text of a report -/

/-- `%d`. -/
def decimal (n : ℕ) : GoString := str (toString n)

/-- `textString`. -/
def textString (value : GoString) : GoString := if value = [] then str "(none)" else value

/-- `textNamespacedName`. -/
def textNamespacedName (namespace_ name : GoString) : GoString :=
  if namespace_ = [] then textString name
  else if name = [] then namespace_ ++ str "/(none)"
  else namespace_ ++ str "/" ++ name

/-- `textShortTargetRef`. -/
def textShortTargetRef (ref : Option InspectionTargetRef) (fallbackKind : GoString) : GoString :=
  match ref with
  | none => str "(missing)"
  | some ref =>
    trimSpace (firstNonEmpty ref.kind fallbackKind ++ str " " ++
      textNamespacedName ref.namespace_ ref.name)

/-- `leadingSpaces`. -/
def leadingSpaces (value : GoString) : ℕ := (value.takeWhile (· == 32)).length

/-- `appendTextStringList`. -/
def textStringList (label : GoString) (values : List GoString) : List GoString :=
  let itemIndent := List.replicate (leadingSpaces label + 2) (32 : UInt8)
  (label ++ str ":") ::
    if values.length = 0 then [itemIndent ++ str "none"]
    else values.map fun value => itemIndent ++ str "- " ++ value

/-- `appendTextPodLabels`. -/
def textPodLabels (labels : List (GoString × GoString)) : List GoString :=
  if labels.length = 0 then []
  else
    let keys := (labels.map Prod.fst).insertionSort (· ≤ ·)
    [str "    podLabels: " ++ join (str ", ")
      (keys.map fun key => key ++ str "=" ++ entryOf (some labels) key)]

/-- A line, where there is something to say. -/
def textField (label value : GoString) : List GoString :=
  if value ≠ [] then [label ++ value] else []

/-- `appendTextSelectorSummary`. -/
def textSelectorSummary (selectors : List GoString) : List GoString :=
  let selection := workloadSelectionFromSelectors selectors
  str "  Selectors:" ::
    (textField (str "    namespace: ") selection.namespace_ ++
      textField (str "    serviceAccount: ") selection.serviceAccount ++
      textPodLabels selection.podLabels ++
      (if selection.containerSelectorType = str "name" then
        [str "    container: " ++ selection.containerValue] else []) ++
      if selection.unsupportedSelectors.length > 0 then
        textStringList (str "    unsupported") selection.unsupportedSelectors else [])

/-- `appendTextIdentity`. -/
def textIdentity (identity : InspectedIdentity) : List GoString :=
  if identity.spiffeID = [] then [str "  not rendered"]
  else (str "  SPIFFE ID: " ++ identity.spiffeID) :: textSelectorSummary identity.workloadSelectors

/-- `appendTextClusterSPIFFEID`. -/
def textClusterSPIFFEID (object : InspectedClusterSPIFFEID) : List GoString :=
  if object.name = [] then [str "  not rendered"]
  else
    [str "  Name: " ++ object.name, str "  ClassName: " ++ textString object.className,
      str "  Hint: " ++ textString object.hint] ++
      if object.fallback = some true then [str "  Fallback: true"] else []

/-- The text of a condition type. -/
def ConditionType.text : ConditionType → GoString
  | .ready => str "Ready"
  | .invalidRef => str "InvalidRef"
  | .unsafeSelector => str "UnsafeSelector"
  | .conflict => str "Conflict"
  | .renderFailure => str "RenderFailure"

/-- The text of a condition status. -/
def ConditionStatus.text : ConditionStatus → GoString
  | .true_ => str "True"
  | .false_ => str "False"
  | .unknown => str "Unknown"

/-- `textConditionNeedsDetail`. Conflict is none of the failure conditions that it knows, so it
has details when it is not True. -/
def textConditionNeedsDetail (condition : Condition) : Bool :=
  if condition.status = .unknown then true
  else
    match condition.type with
    | .ready => condition.status ≠ .true_
    | .invalidRef | .unsafeSelector | .renderFailure => condition.status = .true_
    | .conflict => condition.status ≠ .true_

/-- The lines of one condition. -/
def textCondition (indent : GoString) (condition : Condition) : List GoString :=
  (indent ++ condition.type.text ++ str "=" ++ condition.status.text) ::
    if !textConditionNeedsDetail condition then []
    else
      [indent ++ str "    Reason: " ++ textString condition.reason.text,
        indent ++ str "    Message: " ++ textString condition.message]

/-- `appendTextConditionList`. -/
def textConditionList (indent : GoString) (conditions : List Condition) : List GoString :=
  if conditions.length = 0 then [indent ++ str "none"]
  else conditions.flatMap (textCondition indent)

/-- `appendTextMatchedPods`. -/
def textMatchedPods (report : InspectionReport) : List GoString :=
  if report.renderedIdentity.spiffeID = [] then [str "  skipped"]
  else if report.pods = .partial_ ∨ report.pods = .unknown then [str "  unknown"]
  else if report.pods = .skipped then [str "  skipped"]
  else if report.matchedPods.length = 0 then [str "  none"]
  else report.matchedPods.map fun workload =>
    str "  " ++ textNamespacedName workload.namespace_ workload.pod ++
      if workload.container ≠ [] then str " container=" ++ workload.container else []

/-- `textFindingSeverity`. -/
def textFindingSeverity : FindingSeverity → GoString
  | .error => str "Error"
  | .warning => str "Warning"
  | .info => str "Info"

/-- `appendTextFindings`. -/
def textFindings (findings : List InspectionFinding) : List GoString :=
  if findings.length = 0 then [str "Findings: none"]
  else
    str "Findings:" :: findings.flatMap fun finding =>
      (str "  " ++ textFindingSeverity finding.severity ++ str " " ++ textString finding.reason) ::
        textField (str "    ") finding.message

/-- `textExitCode`. -/
def textExitCode (report : BindingInspectionReport) : ℕ :=
  match report.exitCode with
  | some code => code
  | none => if hasErrorSeverityFinding report.findings then 2 else 0

/-- The lines in front of the exit code. -/
def bindingInspectionReportLines (report : BindingInspectionReport) : List GoString :=
  [str "Binding: " ++ textNamespacedName report.bindingRef.namespace_ report.bindingRef.name,
    str "Source: " ++ textShortTargetRef (report.poolRef.or report.bindingRef.poolRef)
      (str "InferencePool"), [], str "Identity:"] ++
  textIdentity report.renderedIdentity ++ [[], str "ClusterSPIFFEID:"] ++
  textClusterSPIFFEID report.renderedClusterSPIFFEID ++ [[], str "Conditions:"] ++
  textConditionList (str "  ") report.bindingRef.conditions ++ [[], str "Matched pods:"] ++
  textMatchedPods report.toInspectionReport ++ [[]] ++ textFindings report.findings

/-- `appendTextLine`, for a list of lines. -/
def textLines (lines : List GoString) : GoString := lines.flatMap fun line => line ++ [10]

/-- `writeBindingInspectionReportText`, without the writing. -/
def bindingInspectionReportText (report : BindingInspectionReport) : GoString :=
  let report := normalizeBindingInspectionReport report
  textLines (bindingInspectionReportLines report ++
    [str "Exit code: " ++ decimal (textExitCode report)])

/-! ## What the findings come from -/

theorem hasErrorSeverityFinding_append (findings more : List InspectionFinding) :
    hasErrorSeverityFinding (findings ++ more) =
      (hasErrorSeverityFinding findings || hasErrorSeverityFinding more) :=
  List.any_append

theorem hasWarningSeverityFinding_append (findings more : List InspectionFinding) :
    hasWarningSeverityFinding (findings ++ more) =
      (hasWarningSeverityFinding findings || hasWarningSeverityFinding more) :=
  List.any_append

theorem severity_findingForError (i : Inspector) (err : InspectionError) (ref : InspectionTargetRef)
    (fallbackID : GoString) : (i.findingForError err ref fallbackID).severity = .error := by
  cases err with
  | identity err => rfl
  | gaie err => rfl
  | other err =>
    rw [Inspector.findingForError]
    split_ifs <;> rfl

/-- The operator that an inspection stands in for. -/
def ResolvedIdentityConfig.reconciler (config : ResolvedIdentityConfig) (P : Platform)
    (available : List GroupVersionKind) : Reconciler :=
  ⟨P, ⟨config.trustDomain, config.clusterSPIFFEIDClassName⟩, available⟩

/-- What `inspectRenderedIdentity` leaves: a finding, or the report of a plan for a pool. -/
inductive RenderingReported (i : Inspector) (binding : Binding) (config : ResolvedIdentityConfig)
    (report : InspectionReport) : InspectionReport × Option Plan → Prop
  | refused {report' : InspectionReport} {finding : InspectionFinding}
      (hfindings : report'.findings = report.findings ++ [finding])
      (hseverity : finding.severity = .error)
      (hidentity : report'.renderedIdentity = report.renderedIdentity)
      (houtput : report'.renderedClusterSPIFFEID = report.renderedClusterSPIFFEID) :
      RenderingReported i binding config report (report', none)
  | planned {pool : InferencePool} {target : ResolvedInferenceTarget} {plan : Plan}
      {ref : InspectionTargetRef} (htarget : resolveInferenceTarget i.platform pool = .ok target)
      (hplan : planIdentity i.platform (inspectionPlanInput config binding target) = .ok plan) :
      RenderingReported i binding config report
        (reportRendered i.platform binding config target plan { report with poolRef := some ref },
          some plan)

theorem rendered_inspectRenderedIdentity (i : Inspector) (binding : Binding)
    (available : List GroupVersionKind) (config : ResolvedIdentityConfig)
    (report : InspectionReport) :
    Always (fun _ => True) (RenderingReported i binding config report)
      (i.inspectRenderedIdentity binding available config report) := by
  rw [Inspector.inspectRenderedIdentity]
  split
  · exact .refused rfl (severity_findingForError ..) rfl rfl
  refine (Always.trivial _).bind ?_
  rintro (err | pool) -
  · exact .refused rfl (severity_findingForError ..) rfl rfl
  dsimp only
  split
  · exact .refused rfl (severity_findingForError ..) rfl rfl
  · split
    · exact .refused rfl (severity_findingForError ..) rfl rfl
    · exact .planned ‹_› ‹_›

/-- An inspection has a plan exactly where the operator has one. -/
theorem plan_inspectRenderedIdentity {σ : Type} (answer : (c : Call) → σ → Answer c × σ) (s : σ)
    (i : Inspector) (binding : Binding) (available : List GroupVersionKind)
    (config : ResolvedIdentityConfig) (report : InspectionReport) :
    (exec answer (i.inspectRenderedIdentity binding available config report) s).1.2 =
      (exec answer ((config.reconciler i.platform available).renderDesired binding) s).1.toOption := by
  rw [Reconciler.renderDesired]
  rcases hvariant : (config.reconciler i.platform available).bindingIdentityVariant binding with
    err | ⟨⟩
  · -- a plan is for a variant that is valid
    have hrendered := (rendered_inspectRenderedIdentity i binding available config report).of_exec
      answer s
    generalize (exec answer (i.inspectRenderedIdentity binding available config report) s).1 = x
      at hrendered
    cases hrendered with
    | refused => rfl
    | planned _ hplan => cases hvariant.symm.trans (accepted_of_planIdentity hplan).variant
  · simp only [Inspector.inspectRenderedIdentity, Reconciler.computeDesiredState]
    rw [show (config.reconciler i.platform available).platform = i.platform from rfl]
    rcases bindingPoolRef i.platform binding.key.namespace_ binding.spec.poolRef with message | ref
    · rfl
    simp only [Reconciler.renderFromPool, exec_bind]
    -- the pool is read by the same function, so by the same calls
    rw [show resolveInferencePool i.platform available ref =
      (config.reconciler i.platform available).resolveInferencePool ref from rfl]
    rcases (exec answer ((config.reconciler i.platform available).resolveInferencePool ref) s).1 with
      err | pool
    · rfl
    simp only [Reconciler.renderIdentity]
    rw [show (config.reconciler i.platform available).platform = i.platform from rfl]
    rcases resolveInferenceTarget i.platform pool with message | target
    · rfl
    have hinput : (config.reconciler i.platform available).planInput binding target =
      inspectionPlanInput config binding target := rfl
    simp only [hinput]
    rcases planIdentity i.platform (inspectionPlanInput config binding target) with err | plan <;> rfl

/-- Selectors of the three kinds that a plan has are all evaluated. -/
theorem unsupportedSelectors_foldl {ns sa : GoString} {l : List GoString}
    (hl : ∀ s ∈ l, PlainSelector ns sa s) (before : WorkloadSelection) :
    (l.foldl selectWorkload before).unsupportedSelectors = before.unsupportedSelectors := by
  induction l generalizing before with
  | nil => rfl
  | cons s l ih =>
    rw [List.forall_mem_cons] at hl
    rw [List.foldl_cons, ih hl.2]
    rcases hl.1 with rfl | rfl | ⟨key, value, rfl, hkey, hne⟩
    · rw [selectWorkload_ns]
    · rw [selectWorkload_sa]
    · rw [selectWorkload_podLabel hkey hne]

theorem unsupportedSelectors_plan {P : Platform} (hP : P.Documented) {pool : InferencePool}
    {input : PlanInput} {plan : Plan} (htarget : resolveInferenceTarget P pool = .ok input.target)
    (hplan : planIdentity P input = .ok plan) :
    (workloadSelectionFromSelectors plan.selectors).unsupportedSelectors = [] := by
  obtain ⟨m, -, hvalid, heq⟩ := (resolveInferenceTarget_eq_ok_iff hP).mp htarget
  have hderived : input.target.derivedSelectors = m.map fieldSelector := by rw [heq]
  exact unsupportedSelectors_foldl (fun _ => plainSelector_of_mem hP hplan hvalid.2 hderived) {}

/-- What `inspectMatchedPods` finds is a warning where the pods cannot be listed, and never an
error. -/
theorem findings_inspectMatchedPods (i : Inspector) (list : PodLister) (binding : Binding)
    {plan : Plan} (report : InspectionReport)
    (hsupported : (workloadSelectionFromSelectors plan.selectors).unsupportedSelectors = []) :
    hasErrorSeverityFinding (i.inspectMatchedPods list binding (some plan) report).findings =
        hasErrorSeverityFinding report.findings ∧
      hasWarningSeverityFinding (i.inspectMatchedPods list binding (some plan) report).findings =
        (hasWarningSeverityFinding report.findings ||
          !(listMatchingPods i.platform list binding plan).isOk) := by
  rw [Inspector.inspectMatchedPods]
  simp only [hsupported, List.length_nil, gt_iff_lt, lt_irrefl, if_false]
  rcases listMatchingPods i.platform list binding plan with err | pods
  · simp only [Inspector.reportUnlisted]
    split_ifs
    · rw [hasErrorSeverityFinding_append, hasWarningSeverityFinding_append]
      exact ⟨Bool.or_false _, rfl⟩
    · rw [hasErrorSeverityFinding_append, hasWarningSeverityFinding_append]
      exact ⟨Bool.or_false _, rfl⟩
  · simp only [reportMatched]
    split_ifs
    · rw [hasErrorSeverityFinding_append, hasWarningSeverityFinding_append]
      exact ⟨Bool.or_false _, rfl⟩
    · exact ⟨rfl, (Bool.or_false _).symm⟩

/-- The pods are no part of what is rendered. -/
theorem rendered_inspectMatchedPods (i : Inspector) (list : PodLister) (binding : Binding)
    (plan : Option Plan) (report : InspectionReport) :
    (i.inspectMatchedPods list binding plan report).renderedIdentity = report.renderedIdentity ∧
      (i.inspectMatchedPods list binding plan report).renderedClusterSPIFFEID =
        report.renderedClusterSPIFFEID := by
  cases plan with
  | none => exact ⟨rfl, rfl⟩
  | some plan =>
    rw [Inspector.inspectMatchedPods]
    split_ifs
    · exact ⟨rfl, rfl⟩
    split
    · rw [Inspector.reportUnlisted]
      split_ifs <;> exact ⟨rfl, rfl⟩
    · exact ⟨rfl, rfl⟩

theorem InspectionReport.Describes.congr {report report' : InspectionReport}
    {object : ClusterSPIFFEID} (h : report.Describes object)
    (hidentity : report'.renderedIdentity = report.renderedIdentity)
    (houtput : report'.renderedClusterSPIFFEID = report.renderedClusterSPIFFEID) :
    report'.Describes object := by
  obtain ⟨h₁, h₂, h₃, h₄, h₅, h₆, h₇, h₈, h₉, h₁₀⟩ := h
  rw [← hidentity] at h₁ h₂ h₃
  rw [← houtput] at h₄ h₅ h₆ h₇ h₈ h₉ h₁₀
  exact ⟨h₁, h₂, h₃, h₄, h₅, h₆, h₇, h₈, h₉, h₁₀⟩

/-- A status with a trust domain has the configuration. -/
theorem discovered_sourcedIdentityConfig (config : InspectionIdentityConfig) (binding : Binding) :
    (sourcedIdentityConfig config binding).discovered = decide (binding.status.trustDomain ≠ []) := by
  rw [sourcedIdentityConfig]
  by_cases htrust : binding.status.trustDomain = [] <;>
    cases config.trustDomainOverride <;> cases config.clusterSPIFFEIDClassNameOverride <;>
      simp [htrust]

/-- What `resolveIdentityConfig` leaves in a report: a warning where the configuration is not
there. -/
theorem resolveIdentityConfig_spec (config : InspectionIdentityConfig) (binding : Binding)
    (report : BindingInspectionReport) :
    ∃ report' : BindingInspectionReport, resolveIdentityConfig config binding report =
        (sourcedIdentityConfig config binding, report') ∧
      hasErrorSeverityFinding report'.findings = hasErrorSeverityFinding report.findings ∧
      (hasWarningSeverityFinding report'.findings = true ↔
        hasWarningSeverityFinding report.findings = true ∨ binding.status.trustDomain = []) ∧
      report'.renderedIdentity = report.renderedIdentity ∧
      report'.renderedClusterSPIFFEID = report.renderedClusterSPIFFEID := by
  rw [resolveIdentityConfig]
  dsimp only
  split_ifs with hdiscovered <;> rw [discovered_sourcedIdentityConfig, decide_eq_true_eq] at hdiscovered
  · exact ⟨_, rfl, rfl, by simp [hdiscovered], rfl, rfl⟩
  · refine ⟨_, rfl, ?_, ?_, rfl, rfl⟩
    · rw [hasErrorSeverityFinding_append]
      exact Bool.or_false _
    · rw [hasWarningSeverityFinding_append, not_not.mp hdiscovered]
      simp [hasWarningSeverityFinding, identityConfigUndiscoveredFinding]

/-- What an inspection says about a binding that it has read, next to what the operator would do
with it. -/
inductive Inspected (i : BindingInspector) (binding : Binding) (config : ResolvedIdentityConfig)
    (rendering : Except GoError Plan) : BindingInspectionReport × Option InspectionFailure → Prop
  | unrendered {err : GoError} {report : BindingInspectionReport} (hfails : rendering = .error err)
      (hidentity : report.renderedIdentity = {}) (houtput : report.renderedClusterSPIFFEID = {}) :
      Inspected i binding config rendering (report, some .errorFindings)
  | rendered {plan : Plan} {report : BindingInspectionReport} (hplan : rendering = .ok plan)
      (hdescribes : report.Describes (desiredClusterSPIFFEID i.platform binding.key plan
        config.clusterSPIFFEIDClassName))
      (herror : hasErrorSeverityFinding report.findings = false)
      (hwarning : hasWarningSeverityFinding report.findings = true ↔
        binding.status.trustDomain = [] ∨
          (listMatchingPods i.platform i.listPods binding plan).isOk = false) :
      Inspected i binding config rendering (report, none)

theorem concludeInspection_of_error {report : BindingInspectionReport}
    (h : hasErrorSeverityFinding report.findings = true) : concludeInspection report =
      (normalizeBindingInspectionReport report, some .errorFindings) :=
  Prod.ext rfl (if_pos h)

theorem concludeInspection_of_clean {report : BindingInspectionReport}
    (h : hasErrorSeverityFinding report.findings = false) : concludeInspection report =
      (normalizeBindingInspectionReport report, none) :=
  Prod.ext rfl (if_neg (Bool.eq_false_iff.mp h))

/-- **One inspection.** An inspection that has the binding reports an error exactly where an
operator with the resolved configuration, against the same cluster, would not render it; otherwise
it describes the object of that operator, and warns where the status has no configuration and where
the pods cannot be listed. -/
theorem inspected_inspectFound {σ : Type} (answer : (c : Call) → σ → Answer c × σ) (s : σ)
    (i : BindingInspector) (hP : i.platform.Documented) (available : List GroupVersionKind)
    (binding : Binding) {report : BindingInspectionReport} (hfindings : report.findings = [])
    (hidentity : report.renderedIdentity = {}) (houtput : report.renderedClusterSPIFFEID = {}) :
    let config := (sourcedIdentityConfig i.identityConfig binding).toResolvedIdentityConfig
    Inspected i binding config
      (exec answer ((config.reconciler i.platform available).renderDesired binding) s).1
      (exec answer (i.inspectFound available binding report) s).1 := by
  intro config
  obtain ⟨report₁, hresolve, herror₁, hwarning₁, hidentity₁, houtput₁⟩ :=
    resolveIdentityConfig_spec i.identityConfig binding (report.found binding)
  replace herror₁ : hasErrorSeverityFinding report₁.findings = false :=
    herror₁.trans (congrArg hasErrorSeverityFinding hfindings)
  replace hwarning₁ : hasWarningSeverityFinding report₁.findings = true ↔
      binding.status.trustDomain = [] := by
    rw [hwarning₁]
    simp [BindingInspectionReport.found, hfindings, hasWarningSeverityFinding]
  have hplan := plan_inspectRenderedIdentity answer s i.toInspector binding available config
    report₁.toInspectionReport
  have hrendered := (rendered_inspectRenderedIdentity i.toInspector binding available config
    report₁.toInspectionReport).of_exec answer s
  rw [BindingInspector.inspectFound, hresolve]
  dsimp only
  rw [exec_bind]
  generalize (exec answer (i.inspectRenderedIdentity binding available config
    report₁.toInspectionReport) s).1 = x at hplan hrendered ⊢
  generalize (exec answer ((config.reconciler i.platform available).renderDesired binding) s).1 =
    rendering at hplan ⊢
  cases hrendered with
  | @refused report₂ finding hfindings₂ hseverity hidentity₂ houtput₂ =>
    rcases rendering with err | plan
    · have herror : hasErrorSeverityFinding report₂.findings = true := by
        rw [hfindings₂, hasErrorSeverityFinding_append]
        simp [hasErrorSeverityFinding, hseverity]
      rw [exec_ret, concludeInspection_of_error herror]
      exact .unrendered rfl (hidentity₂.trans (hidentity₁.trans hidentity))
        (houtput₂.trans (houtput₁.trans houtput))
    · cases hplan
  | @planned pool target plan ref htarget hplanned =>
    rcases rendering with err | plan
    · cases hplan
    · cases hplan
      let report₂ := reportRendered i.platform binding config target plan
        { report₁.toInspectionReport with poolRef := some ref }
      obtain ⟨herror, hwarning⟩ := findings_inspectMatchedPods i.toInspector i.listPods binding
        report₂ (unsupportedSelectors_plan hP htarget hplanned)
      obtain ⟨hidentity₃, houtput₃⟩ :=
        rendered_inspectMatchedPods i.toInspector i.listPods binding (some plan) report₂
      have hdescribes : report₂.Describes (desiredClusterSPIFFEID i.platform binding.key plan
          config.clusterSPIFFEIDClassName) := reportRendered_describes i.platform binding config
        target plan _
      have hclean : hasErrorSeverityFinding (i.inspectMatchedPods i.listPods binding (some plan)
        report₂).findings = false := herror.trans herror₁
      rw [exec_ret, concludeInspection_of_clean hclean]
      refine .rendered rfl (hdescribes.congr hidentity₃ houtput₃) hclean ?_
      change hasWarningSeverityFinding (i.inspectMatchedPods i.listPods binding (some plan)
        report₂).findings = true ↔ _
      rw [hwarning, Bool.or_eq_true, Bool.not_eq_true']
      exact or_congr_left hwarning₁

/-- How an inspection comes out, by what the cluster answers. -/
inductive InspectionOutcome {σ : Type} (answer : (c : Call) → σ → Answer c × σ) (s : σ)
    (i : BindingInspector) (key : NamespacedName) :
    BindingInspectionReport × Option InspectionFailure → Prop
  | undiscovered {message why : GoString} {report : BindingInspectionReport}
      (hserved : filterAvailableInspectionGVKs i.restMapping inferencePoolGVKs = .error message) :
      InspectionOutcome answer s i key (report, some (.failed why))
  | unread {available : List GroupVersionKind} {err : GoError} {why : GoString}
      {report : BindingInspectionReport}
      (hserved : filterAvailableInspectionGVKs i.restMapping inferencePoolGVKs = .ok available)
      (hread : (answer (.getBinding key) s).1 = (.error err : Except GoError Binding))
      (hkind : err.kind ≠ .notFound) :
      InspectionOutcome answer s i key (report, some (.failed why))
  | absent {available : List GroupVersionKind} {err : GoError} {report : BindingInspectionReport}
      (hserved : filterAvailableInspectionGVKs i.restMapping inferencePoolGVKs = .ok available)
      (hread : (answer (.getBinding key) s).1 = (.error err : Except GoError Binding))
      (hkind : err.kind = .notFound) : InspectionOutcome answer s i key (report, some .notFound)
  | found {available : List GroupVersionKind} {binding : Binding}
      {x : BindingInspectionReport × Option InspectionFailure}
      (hserved : filterAvailableInspectionGVKs i.restMapping inferencePoolGVKs = .ok available)
      (hread : (answer (.getBinding key) s).1 = (.ok binding : Except GoError Binding))
      (hinspected : Inspected i binding
        (sourcedIdentityConfig i.identityConfig binding).toResolvedIdentityConfig
        (exec answer (((sourcedIdentityConfig i.identityConfig
          binding).toResolvedIdentityConfig.reconciler i.platform available).renderDesired binding)
          (answer (.getBinding key) s).2).1 x) : InspectionOutcome answer s i key x

theorem outcome_inspectBinding {σ : Type} (answer : (c : Call) → σ → Answer c × σ) (s : σ)
    (i : BindingInspector) (hP : i.platform.Documented) (key : NamespacedName) :
    InspectionOutcome answer s i key (exec answer (i.inspectBinding key) s).1 := by
  rw [BindingInspector.inspectBinding]
  dsimp only
  split
  · exact .undiscovered ‹_›
  · rename_i available hserved
    rw [exec_bind, show exec answer (getBinding key) s = answer (.getBinding key) s from rfl]
    rcases hread : (answer (.getBinding key) s).1 with err | binding
    · dsimp only
      split_ifs with hkind
      · exact .absent hserved hread hkind
      · exact .unread hserved hread hkind
    · exact .found hserved hread
        (inspected_inspectFound answer _ i hP available binding rfl rfl rfl)

end Kleym
