import Kleym.Inspection

/-!
# `kleym status` (`internal/inspection/status.go`)

The report of an installation: which CRDs are served, the operator's Deployment, the
configuration, and the bindings with their conditions. The report is filled in field by field
as the cluster is read, so a step is a function from the report so far to the report after it,
and a step that can fail has the report as it stands besides its error.

The cluster is read through one REST mapping lookup and two list calls whose answers are
parameters. The time of the report, its schema version and the version of the CLI are not in
it: nothing here reads them.
-/

namespace Kleym

open GoString

/-! ## The report -/

/-- `StatusResult`, the empty string included. -/
inductive StatusResult : Type where
  | unset
  | ok
  | warning
  | error
  | unknown
  deriving DecidableEq

/-- `ComponentStatus`. -/
structure ComponentStatus where
  status : StatusResult := .unset
  message : GoString := []
  deriving DecidableEq

/-- `OperatorStatus`. -/
structure OperatorStatus extends ComponentStatus where
  deployment : GoString := []
  readyReplicas : ℤ := 0
  replicas : ℤ := 0
  version : GoString := []
  deriving DecidableEq

/-- `KleymAPIStatus`. -/
structure KleymAPIStatus extends ComponentStatus where
  inferenceIdentityBinding : GoString := []
  deriving DecidableEq

/-- `SPIRECRDStatus`. -/
structure SPIRECRDStatus extends ComponentStatus where
  clusterSPIFFEID : GoString := []
  deriving DecidableEq

/-- `GAIEStatus`. -/
structure GAIEStatus extends ComponentStatus where
  inferencePool : GoString := []
  deriving DecidableEq

/-- `StatusComponents`. -/
structure StatusComponents where
  kleym : ComponentStatus := {}
  operator : OperatorStatus := {}
  kleymCRDs : KleymAPIStatus := {}
  spireCRDs : SPIRECRDStatus := {}
  gaieCRDs : GAIEStatus := {}
  deriving DecidableEq

/-- `StatusConfig`. -/
structure StatusConfig where
  trustDomain : GoString := []
  clusterSPIFFEIDClassName : GoString := []
  clusterSPIFFEIDClassNameKnown : Bool := false
  deriving DecidableEq

/-- `BindingConditionSummary`. -/
structure BindingConditionSummary where
  ready : ℕ := 0
  invalidRef : ℕ := 0
  unsafeSelector : ℕ := 0
  renderFailure : ℕ := 0
  deriving DecidableEq

/-- `BindingStatusSummary`. -/
structure BindingStatusSummary where
  ok : ℕ := 0
  warning : ℕ := 0
  error : ℕ := 0
  total : ℕ := 0
  conditions : BindingConditionSummary := {}
  deriving DecidableEq

/-- `StatusReport`. The fields start out as `NewStatusReport` has them. -/
structure StatusReport where
  status : StatusResult := .unknown
  cliVersion : GoString := []
  components : StatusComponents := {}
  config : StatusConfig := {}
  /-- `summary.bindings` -/
  bindings : BindingStatusSummary := {}
  findings : List InspectionFinding := []
  deriving DecidableEq

/-- `HasErrorSeverityFinding`. -/
def hasErrorSeverityFinding (findings : List InspectionFinding) : Bool :=
  findings.any fun finding => finding.severity = .error

/-- `HasWarningSeverityFinding`. -/
def hasWarningSeverityFinding (findings : List InspectionFinding) : Bool :=
  findings.any fun finding => finding.severity = .warning

/-- Append a finding. -/
def StatusReport.addFinding (report : StatusReport) (finding : InspectionFinding) : StatusReport :=
  { report with findings := report.findings ++ [finding] }

/-! ## What is read -/

/-- A container of a pod template. -/
structure Container where
  name : GoString
  image : GoString
  args : List GoString
  deriving DecidableEq

/-- `appsv1.Deployment`, as far as the report reads it. -/
structure Deployment where
  namespace_ : GoString
  name : GoString
  /-- `spec.replicas` -/
  replicas : Option ℤ
  containers : List Container
  /-- `status.readyReplicas` -/
  readyReplicas : ℤ
  deriving DecidableEq

/-- `statusInspector`: the answers of the REST mapper, and of the two list calls. -/
structure StatusInspector where
  restMapping : GroupVersionKind → Except GoError Unit
  /-- the Deployments with these labels -/
  listDeployments : List (GoString × GoString) → Except GoError (List Deployment)
  listBindings : Except GoError (List Binding)

/-! ## CRDs -/

/-- `GroupVersionKind.String`. -/
def GroupVersionKind.text (gvk : GroupVersionKind) : GoString :=
  gvk.group ++ str "/" ++ gvk.version ++ str ", Kind=" ++ gvk.kind

/-- The kind of bindings. -/
def bindingGVK : GroupVersionKind :=
  ⟨str "kleym.sonda.red", str "v1alpha1", str "InferenceIdentityBinding"⟩

/-- `clusterSPIFFEIDGVK`. -/
def clusterSPIFFEIDGVK : GroupVersionKind :=
  ⟨str "spire.spiffe.io", str "v1alpha1", str "ClusterSPIFFEID"⟩

/-- `crdAvailable`. -/
def StatusInspector.crdAvailable (i : StatusInspector) (gvk : GroupVersionKind) :
    Except GoError Bool :=
  match i.restMapping gvk with
  | .ok () => .ok true
  | .error err =>
    if err.kind = .noMatch then .ok false
    else .error ⟨err.kind, str "resolve REST mapping for " ++ gvk.text ++ str ": " ++ err.message⟩

/-- `availableVersions`. -/
def StatusInspector.availableVersions (i : StatusInspector) :
    List GroupVersionKind → Except GoError (List GoString)
  | [] => .ok []
  | gvk :: gvks => do
    let available ← i.crdAvailable gvk
    let versions ← i.availableVersions gvks
    return if available then gvk.version :: versions else versions

/-- `crdMissingFinding`. -/
def crdMissingFinding (reason message : GoString) : InspectionFinding :=
  ⟨str "crd-missing", .error, reason, message, []⟩

/-- The report of the binding CRD. -/
def reportKleymCRDs (available : Bool) (report : StatusReport) : StatusReport :=
  if available then
    { report with
      components.kleymCRDs :=
        { status := .ok, inferenceIdentityBinding := bindingGVK.version } }
  else
    { report with
      components.kleymCRDs :=
        { status := .error, message := str "missing InferenceIdentityBinding" } }.addFinding
      (crdMissingFinding (str "InferenceIdentityBindingCRDMissing")
        (str "InferenceIdentityBinding CRD is not installed"))

/-- The report of the `ClusterSPIFFEID` CRD. -/
def reportSPIRECRDs (available : Bool) (report : StatusReport) : StatusReport :=
  if available then
    { report with
      components.spireCRDs :=
        { status := .ok, clusterSPIFFEID := clusterSPIFFEIDGVK.version } }
  else
    { report with
      components.spireCRDs :=
        { status := .error, message := str "missing ClusterSPIFFEID" } }.addFinding
      (crdMissingFinding (str "ClusterSPIFFEIDCRDMissing")
        (str "ClusterSPIFFEID CRD is not installed"))

/-- The report of the pool CRDs. -/
def reportGAIECRDs (versions : List GoString) (report : StatusReport) : StatusReport :=
  if versions.length > 0 then
    { report with
      components.gaieCRDs :=
        { status := .ok, inferencePool := join (str ",") versions } }
  else
    { report with
      components.gaieCRDs :=
        { status := .error, message := str "missing InferencePool"
          inferencePool := str "unavailable" } }.addFinding
      (crdMissingFinding (str "GAIECRDMissing") (str "InferencePool CRD is not installed"))

/-- `inspectCRDs`. -/
def StatusInspector.inspectCRDs (i : StatusInspector) (report : StatusReport) :
    StatusReport × Option GoError :=
  match i.crdAvailable bindingGVK with
  | .error err => (report, some err)
  | .ok available =>
    let report := reportKleymCRDs available report
    match i.crdAvailable clusterSPIFFEIDGVK with
    | .error err => (report, some err)
    | .ok available =>
      let report := reportSPIRECRDs available report
      match i.availableVersions inferencePoolGVKs with
      | .error err => (report, some err)
      | .ok versions => (reportGAIECRDs versions report, none)

/-! ## The operator -/

/-- `strings.LastIndex` of a byte, and what comes after it. -/
def afterLast (b : UInt8) : GoString → Option GoString
  | [] => none
  | c :: s => (afterLast b s).or (if c = b then some s else none)

/-- `imageTag`: the digest, or else what follows the last colon unless a slash comes after
it. -/
def imageTag (image : GoString) : GoString :=
  match afterLast 64 image with
  | some digest => digest
  | none =>
    match afterLast 58 image with
    | some tag => if tag.contains (str "/") then [] else tag
    | none => []

/-- The container called `operator`, or else the first one. -/
def Deployment.operatorContainer (deployment : Deployment) : Option Container :=
  (deployment.containers.find? fun container => container.name = str "operator").or
    deployment.containers.head?

/-- `operatorVersion`. -/
def operatorVersion (deployment : Deployment) : GoString :=
  match deployment.operatorContainer with
  | some container => imageTag container.image
  | none => []

/-- `operatorStatusFromDeployment`. -/
def operatorStatusFromDeployment (deployment : Deployment) (status : StatusResult)
    (message : GoString) : OperatorStatus where
  status := status
  message := message
  deployment := deployment.namespace_ ++ str "/" ++ deployment.name
  readyReplicas := deployment.readyReplicas
  replicas := max (deployment.replicas.getD 1) deployment.readyReplicas
  version := operatorVersion deployment

/-- The loop of `fillConfigFromArgs`: the trust domain so far, whether a flag gave one, and
the last class name. -/
structure ArgsScan where
  trustDomain : GoString
  trustDomainFound : Bool := false
  className : GoString := []
  classNameFound : Bool := false
  deriving DecidableEq

/-- One argument. A trust domain counts while there is none; a class name always. -/
def scanArg (scan : ArgsScan) (arg : GoString) : ArgsScan :=
  match arg.cutPrefix (str "--trust-domain="), scan.trustDomain with
  | some value, [] => { scan with trustDomain := value, trustDomainFound := true }
  | _, _ =>
    match arg.cutPrefix (str "--clusterspiffeid-class-name=") with
    | some value => { scan with className := value, classNameFound := true }
    | none => scan

/-- `fillConfigFromArgs`. -/
def fillConfigFromArgs (args : List GoString) (report : StatusReport) : StatusReport :=
  let scan := args.foldl scanArg { trustDomain := report.config.trustDomain }
  let report := { report with config.trustDomain := scan.trustDomain }
  if !report.config.clusterSPIFFEIDClassNameKnown &&
      (scan.trustDomainFound || scan.classNameFound) then
    { report with
      config.clusterSPIFFEIDClassName := scan.className
      config.clusterSPIFFEIDClassNameKnown := true }
  else report

/-- `fillConfigFromDeployment`. -/
def fillConfigFromDeployment (deployment : Deployment) (report : StatusReport) : StatusReport :=
  match deployment.operatorContainer with
  | some container => fillConfigFromArgs container.args report
  | none => report

/-- The finding of an operator that is not there, or not ready. -/
def operatorUnavailableFinding (reason message : GoString) : InspectionFinding :=
  ⟨str "operator-unavailable", .error, reason, message, []⟩

/-- The labels of the operator's Deployment. -/
def operatorLabels : List (GoString × GoString) :=
  [(str "app.kubernetes.io/name", str "kleym"),
    (str "app.kubernetes.io/component", str "operator")]

/-- `inspectOperator` on the Deployments: the first one that is ready counts. -/
def reportOperator (deployments : List Deployment) (report : StatusReport) : StatusReport :=
  match deployments with
  | [] =>
    { report with
      components.operator := { status := .error, message := str "not found" } }.addFinding
      (operatorUnavailableFinding (str "OperatorNotFound")
        (str "Kleym operator Deployment was not found"))
  | first :: _ =>
    match deployments.find? fun deployment => deployment.readyReplicas > 0 with
    | some deployment =>
      fillConfigFromDeployment deployment
        { report with
          components.operator := operatorStatusFromDeployment deployment .ok [] }
    | none =>
      { report with
        components.operator :=
          operatorStatusFromDeployment first .error (str "no ready replicas") }.addFinding
        (operatorUnavailableFinding (str "OperatorUnavailable")
          (str "Kleym operator Deployment has no ready replicas"))

/-- `inspectOperator`. -/
def StatusInspector.inspectOperator (i : StatusInspector) (report : StatusReport) :
    StatusReport × Option GoError :=
  match i.listDeployments operatorLabels with
  | .error err =>
    (report, some ⟨err.kind, str "list Kleym operator deployments: " ++ err.message⟩)
  | .ok deployments => (reportOperator deployments report, none)

/-! ## Bindings -/

/-- `conditionIsTrue`. -/
def conditionIsTrue (binding : Binding) (type : ConditionType) : Bool :=
  (findStatusCondition binding.status.conditions type).any fun c => c.status = .true_

/-- One more, if the condition is true. -/
def countCondition (binding : Binding) (type : ConditionType) (count : ℕ) : ℕ :=
  if conditionIsTrue binding type then count + 1 else count

/-- `addBindingConditionCounts`. -/
def addBindingConditionCounts (binding : Binding) (summary : BindingConditionSummary) :
    BindingConditionSummary where
  ready := countCondition binding .ready summary.ready
  invalidRef := countCondition binding .invalidRef summary.invalidRef
  unsafeSelector := countCondition binding .unsafeSelector summary.unsafeSelector
  renderFailure := countCondition binding .renderFailure summary.renderFailure

/-- `bindingResult`. -/
def bindingResult (binding : Binding) : StatusResult :=
  match findStatusCondition binding.status.conditions .ready with
  | none => .warning
  | some ready =>
    match ready.status with
    | .unknown => .warning
    | .true_ => .ok
    | .false_ => .error

/-- `bindingUnhealthyFinding`. -/
def bindingUnhealthyFinding (binding : Binding) : InspectionFinding :=
  match findStatusCondition binding.status.conditions .ready with
  | some ready => ⟨str "binding-unhealthy", .error, ready.reason.text, ready.message,
      [bindingInspectionBindingTargetRef binding]⟩
  | none => ⟨str "binding-unhealthy", .error, str "BindingNotReady", str "binding is not ready",
      [bindingInspectionBindingTargetRef binding]⟩

/-- `statusConfigObservations`: two sets of strings. -/
structure StatusConfigObservations where
  trustDomains : List GoString := []
  classNames : List GoString := []
  deriving DecidableEq

/-- `addBinding`: a binding without a trust domain has published nothing. -/
def StatusConfigObservations.addBinding (o : StatusConfigObservations) (binding : Binding) :
    StatusConfigObservations :=
  if binding.status.trustDomain = [] then o
  else
    { trustDomains := o.trustDomains.insert binding.status.trustDomain
      classNames := o.classNames.insert binding.status.clusterSPIFFEIDClassName }

/-- `observedConfigValue`. -/
def observedConfigValue : List GoString → Option GoString
  | [] => none
  | [value] => some value
  | _ => some (str "mixed")

/-- `fillConfigFromBindingObservations`. -/
def fillConfigFromBindingObservations (o : StatusConfigObservations) (report : StatusReport) :
    StatusReport :=
  let report :=
    match report.config.trustDomain, observedConfigValue o.trustDomains with
    | [], some value => { report with config.trustDomain := value }
    | _, _ => report
  match report.config.clusterSPIFFEIDClassNameKnown, observedConfigValue o.classNames with
  | false, some value =>
    { report with
      config.clusterSPIFFEIDClassName := value
      config.clusterSPIFFEIDClassNameKnown := true }
  | _, _ => report

/-- Count a binding by its result. -/
def countBinding (binding : Binding) (report : StatusReport) : StatusReport :=
  let report :=
    { report with
      bindings.total := report.bindings.total + 1
      bindings.conditions := addBindingConditionCounts binding report.bindings.conditions }
  match bindingResult binding with
  | .ok => { report with bindings.ok := report.bindings.ok + 1 }
  | .warning => { report with bindings.warning := report.bindings.warning + 1 }
  | _ =>
    { report with bindings.error := report.bindings.error + 1 }.addFinding
      (bindingUnhealthyFinding binding)

/-- The loop of `inspectBindings`. -/
def scanBindings (bindings : List Binding) (report : StatusReport)
    (o : StatusConfigObservations) : StatusReport × StatusConfigObservations :=
  match bindings with
  | [] => (report, o)
  | binding :: bindings => scanBindings bindings (countBinding binding report) (o.addBinding binding)

/-- `inspectBindings`. -/
def inspectBindings (bindings : List Binding) (report : StatusReport) : StatusReport :=
  let (report, observations) := scanBindings bindings report {}
  fillConfigFromBindingObservations observations report

/-! ## The report as a whole -/

/-- `finishStatusReport`. -/
def finishStatusReport (report : StatusReport) : StatusReport :=
  let result : StatusResult :=
    if hasErrorSeverityFinding report.findings then .error
    else if hasWarningSeverityFinding report.findings || report.bindings.warning > 0 then .warning
    else .ok
  { report with status := result, components.kleym := { status := result } }

/-- `ErrStatusReportErrorFindings`. -/
def errStatusReportErrorFindings : GoError :=
  plainError (str "status report contains error findings")

/-- `Status`. -/
def StatusInspector.status (i : StatusInspector) : StatusReport × Option GoError :=
  match i.inspectCRDs {} with
  | (report, some err) => (report, some err)
  | (report, none) =>
    match i.inspectOperator report with
    | (report, some err) => (report, some err)
    | (report, none) =>
      if report.components.kleymCRDs.status = .error then
        (finishStatusReport report, some errStatusReportErrorFindings)
      else
        match i.listBindings with
        | .error err =>
          (report, some ⟨err.kind, str "list InferenceIdentityBindings: " ++ err.message⟩)
        | .ok bindings =>
          let report := finishStatusReport (inspectBindings bindings report)
          if hasErrorSeverityFinding report.findings then
            (report, some errStatusReportErrorFindings)
          else (report, none)

end Kleym
