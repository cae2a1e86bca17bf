import Kleym.BindingInspection
import Kleym.Isolation

/-!
# The commands of the CLI (`internal/cli`)

`kleym inspect binding` and `kleym status` behind their flags: the options are validated, a client
is made, the report is computed and written, and the process exits with a code. The flags are
parsed by cobra, so a command line comes in as an `Invocation`: what cobra has made of it.

The exit code is the contract of the CLI. `InspectVerdict` says for every code what it means, in terms
of the cluster and of the operator that the inspection stands in for.
-/

namespace Kleym

open GoString Prog

/-! ## Exit codes -/

/-- `exitOK`. -/
def exitOK : ℕ := 0

/-- `exitGeneric`. -/
def exitGeneric : ℕ := 1

/-- `exitInspectionIssue`. -/
def exitInspectionIssue : ℕ := 2

/-- `exitBindingNotFound`. -/
def exitBindingNotFound : ℕ := 3

/-- `exitUsage`. -/
def exitUsage : ℕ := 4

/-- `exitInternal`. -/
def exitInternal : ℕ := 5

/-- An error of a command, with the code of an `exitError` if it is one. -/
structure CommandError where
  code : Option ℕ
  message : GoString
  deriving DecidableEq

/-- `withExitCode`. -/
def withExitCode (code : ℕ) (message : Option GoString) : Option CommandError :=
  message.map fun message => ⟨some code, message⟩

/-- `codeForError`. -/
def codeForError (err : CommandError) : ℕ :=
  match err.code with
  | some code => code
  | none => if err.message.hasPrefix (str "unknown command ") then exitUsage else exitGeneric

/-! ## Options -/

/-- The flags of a command line, where they are given. -/
structure CliFlags where
  namespace_ : Option GoString := none
  output : Option GoString := none
  strict : Option Bool := none
  context : Option GoString := none
  kubeconfig : Option GoString := none
  /-- in nanoseconds -/
  timeout : Option ℤ := none
  trustDomain : Option GoString := none
  clusterSPIFFEIDClassName : Option GoString := none
  deriving DecidableEq

/-- `Options`. -/
structure CliOptions where
  namespace_ : GoString
  output : GoString
  strict : Bool
  context : GoString
  kubeconfig : GoString
  timeout : ℤ
  trustDomain : GoString
  trustDomainOverride : Bool
  clusterSPIFFEIDClassName : GoString
  clusterSPIFFEIDClassNameOverride : Bool
  deriving DecidableEq

/-- The options of a command line: the defaults of the flags, and
`captureIdentityConfigFlagSources`. -/
def CliFlags.options (flags : CliFlags) : CliOptions where
  namespace_ := flags.namespace_.getD (str "default")
  output := flags.output.getD (str "text")
  strict := flags.strict.getD false
  context := flags.context.getD []
  kubeconfig := flags.kubeconfig.getD []
  timeout := flags.timeout.getD 30000000000
  trustDomain := flags.trustDomain.getD defaultTrustDomain
  trustDomainOverride := flags.trustDomain.isSome
  clusterSPIFFEIDClassName := flags.clusterSPIFFEIDClassName.getD []
  clusterSPIFFEIDClassNameOverride := flags.clusterSPIFFEIDClassName.isSome

/-- The configuration among the options. -/
def CliOptions.identityConfig (opts : CliOptions) : InspectionIdentityConfig where
  trustDomain := opts.trustDomain
  trustDomainOverride := opts.trustDomainOverride
  clusterSPIFFEIDClassName := opts.clusterSPIFFEIDClassName
  clusterSPIFFEIDClassNameOverride := opts.clusterSPIFFEIDClassNameOverride

/-- `validOutputFormats`. -/
def validOutputFormats : List GoString := [str "text", str "json"]

/-- `isValidOutputFormat`. -/
def isValidOutputFormat (output : GoString) : Bool := validOutputFormats.elem output

/-- What a command finds outside: the cluster, and where its output goes. -/
structure CliHost extends StatusInspector where
  platform : Platform
  /-- `apierrors.IsForbidden` -/
  isForbidden : GoError → Bool
  listPods : PodLister
  /-- the time as it is put in a report -/
  now : GoString
  /-- `version.Version` -/
  version : GoString
  /-- `Duration.String` -/
  durationText : ℤ → GoString
  /-- why no client can be made, if so -/
  connect : CliOptions → Option GoString
  /-- `json.Encoder.Encode` of a report of a binding, and of a status report -/
  encodeBinding : BindingInspectionReport → Except GoString GoString
  encodeStatus : StatusReport → Except GoString GoString
  /-- `io.WriteString` to the standard output: the error, if there is one -/
  write : GoString → Option GoString

namespace CliHost

variable (h : CliHost)

/-- `validateStatusOptions`. -/
def validateStatusOptions (opts : CliOptions) : Option GoString :=
  if !isValidOutputFormat opts.output then
    some (str "invalid --output " ++ h.platform.quote opts.output ++ str ": must be one of " ++
      join (str "|") validOutputFormats)
  else if opts.timeout ≤ 0 then
    some (str "invalid --timeout " ++ h.durationText opts.timeout ++
      str ": must be greater than 0")
  else none

/-- `validateRunnableOptions`: the same, and the configuration. -/
def validateRunnableOptions (opts : CliOptions) : Option GoString :=
  match h.validateStatusOptions opts with
  | some message => some message
  | none =>
    match validateOperatorIdentityConfig opts.trustDomain opts.clusterSPIFFEIDClassName with
    | .error message => some message
    | .ok () => none

/-- Write to the standard output. -/
def put (body : GoString) : Except GoString GoString :=
  match h.write body with
  | some message => .error message
  | none => .ok body

/-- Write a report as `WriteBindingInspectionReport` and `WriteStatusReport` do: what was written,
or the error. -/
def writeReport (what output text : GoString) (json : Except GoString GoString) :
    Except GoString GoString :=
  if output = str "text" then h.put text
  else if output = str "json" then json >>= h.put
  else .error (str "invalid " ++ what ++ str " output " ++ h.platform.quote output)

end CliHost

/-- What a command has written, and its error. -/
structure CommandResult where
  stdout : GoString
  err : Option CommandError
  deriving DecidableEq

/-- A command that ends with an error and without output. -/
def CommandResult.fails (code : ℕ) (message : GoString) : CommandResult :=
  ⟨[], some ⟨some code, message⟩⟩

/-! ## `kleym inspect binding` -/

/-- `shouldWriteBindingInspectionReport`. -/
def shouldWriteBindingInspectionReport : Option InspectionFailure → Bool
  | none | some .notFound | some .errorFindings => true
  | some (.failed _) => false

/-- `inspectionExitCode`. -/
def inspectionExitCode (report : BindingInspectionReport) (failure : Option InspectionFailure)
    (strict : Bool) : ℕ × Option GoString :=
  match failure with
  | some .notFound => (exitBindingNotFound, some InspectionFailure.notFound.message)
  | some .errorFindings =>
    (exitInspectionIssue, some (str "binding inspection completed with error findings"))
  | some (.failed message) => (exitUsage, some message)
  | none =>
    if hasErrorSeverityFinding report.findings then
      (exitInspectionIssue, some (str "binding inspection completed with error findings"))
    else if strict && hasWarningSeverityFinding report.findings then
      (exitInspectionIssue,
        some (str "binding inspection completed with warning findings in strict mode"))
    else (exitOK, none)

namespace CliHost

variable (h : CliHost)

/-- An inspector with this configuration. -/
def inspector (config : InspectionIdentityConfig) : BindingInspector where
  platform := h.platform
  isForbidden := h.isForbidden
  restMapping := h.restMapping
  listPods := h.listPods
  now := h.now
  identityConfig := config

/-- `newBindingInspectionRunner`, with `NewKubernetesBindingInspector`. -/
def newBindingInspector (opts : CliOptions) : Except GoString BindingInspector :=
  match normalizedInspectionIdentityConfig opts.identityConfig with
  | .error message => .error message
  | .ok config =>
    match h.connect opts with
    | some message => .error message
    | none => .ok (h.inspector config)

/-- What is done with the outcome of an inspection. -/
def finishInspection (opts : CliOptions) (report : BindingInspectionReport)
    (failure : Option InspectionFailure) : CommandResult :=
  let (code, err) := inspectionExitCode report failure opts.strict
  let report := { report with exitCode := some code }
  if !shouldWriteBindingInspectionReport failure then ⟨[], withExitCode code err⟩
  else
    match h.writeReport (str "binding inspection") opts.output (bindingInspectionReportText report)
        (h.encodeBinding (normalizeBindingInspectionReport report)) with
    | .error message => .fails exitInternal message
    | .ok written => ⟨written, withExitCode code err⟩

/-- The command `kleym inspect binding`: its arguments, options, and `RunE`. -/
def inspectBinding (opts : CliOptions) (args : List GoString) : Op CommandResult :=
  match args with
  | [name] =>
    match h.validateRunnableOptions opts with
    | some message => ret (.fails exitUsage message)
    | none =>
      match h.newBindingInspector opts with
      | .error message => ret (.fails exitUsage message)
      | .ok inspector => do
        let outcome ← inspector.inspectBinding ⟨opts.namespace_, name⟩
        ret (h.finishInspection opts outcome.1 outcome.2)
  | args =>
    ret (.fails exitUsage (str "accepts 1 arg(s), received " ++ decimal args.length))

end CliHost

/-! ## `kleym status` -/

/-- `availabilityStatus`. -/
def availabilityStatus : StatusResult → GoString
  | .unset => str "unknown"
  | .ok => str "Available"
  | .warning => str "Warning"
  | .error => str "Unavailable"
  | .unknown => str "unknown"

/-- `textConfigValue`. -/
def textConfigValue (value : GoString) : GoString := if value = [] then str "unknown" else value

/-- `textClassName`. -/
def textClassName (className : GoString) (known : Bool) : GoString :=
  if !known then str "unknown"
  else if className = [] then str "classless"
  else className

/-- `writeStatusReportText`, without the writing. -/
def statusReportText (report : StatusReport) : GoString :=
  let operator := report.components.operator
  let conditions := report.bindings.conditions
  textLines
    ([str "Kleym", str "  CLI: " ++ textString report.cliVersion,
      str "  Operator: " ++ availabilityStatus operator.status,
      str "    Deployment: " ++ textString operator.deployment,
      str "    Ready: " ++ str (toString operator.readyReplicas) ++ str "/" ++
        str (toString operator.replicas),
      str "    Version: " ++ textString operator.version, str "  Config:",
      str "    trustDomain: " ++ textConfigValue report.config.trustDomain,
      str "    clusterSPIFFEIDClass: " ++ textClassName report.config.clusterSPIFFEIDClassName
        report.config.clusterSPIFFEIDClassNameKnown,
      str "  API:", str "    InferenceIdentityBinding: " ++
        textString report.components.kleymCRDs.inferenceIdentityBinding,
      [], str "Bindings", str "  Total: " ++ decimal report.bindings.total, str "  Conditions:",
      str "    Ready: " ++ decimal conditions.ready,
      str "    InvalidRef: " ++ decimal conditions.invalidRef,
      str "    UnsafeSelector: " ++ decimal conditions.unsafeSelector,
      str "    RenderFailure: " ++ decimal conditions.renderFailure,
      [], str "Dependencies",
      str "  GAIE: " ++ availabilityStatus report.components.gaieCRDs.status,
      str "    InferencePool: " ++ textString report.components.gaieCRDs.inferencePool,
      str "  SPIRE: " ++ availabilityStatus report.components.spireCRDs.status,
      str "    ClusterSPIFFEID: " ++ textString report.components.spireCRDs.clusterSPIFFEID] ++
      if report.findings.length > 0 then [] :: textFindings report.findings else [])

/-- `shouldWriteStatusReport`. -/
def shouldWriteStatusReport (err : Option GoError) : Bool :=
  match err with
  | none => true
  | some err => err = errStatusReportErrorFindings

/-- `statusExitCode`. -/
def statusExitCode (err : Option GoError) : ℕ × Option GoString :=
  match err with
  | none => (exitOK, none)
  | some err =>
    if err = errStatusReportErrorFindings then
      (exitInspectionIssue, some (str "status completed with error findings"))
    else (exitUsage, some err.message)

namespace CliHost

variable (h : CliHost)

/-- What is done with the outcome of a status report. -/
def finishStatus (opts : CliOptions) (report : StatusReport) (err : Option GoError) :
    CommandResult :=
  let report := { report with cliVersion := h.version }
  let (code, message) := statusExitCode err
  if !shouldWriteStatusReport err then ⟨[], withExitCode code message⟩
  else
    match h.writeReport (str "status") opts.output (statusReportText report)
        (h.encodeStatus report) with
    | .error message => .fails exitInternal message
    | .ok written => ⟨written, withExitCode code message⟩

/-- The command `kleym status`. -/
def statusCommand (opts : CliOptions) (args : List GoString) : CommandResult :=
  match args with
  | [] =>
    match h.validateStatusOptions opts with
    | some message => .fails exitUsage message
    | none =>
      match h.connect opts with
      | some message => .fails exitUsage message
      | none =>
        let (report, err) := h.toStatusInspector.status
        h.finishStatus opts report err
  | arg :: _ =>
    .fails exitUsage (str "unknown command " ++ h.platform.quote arg ++ str " for " ++
      h.platform.quote (str "kleym status"))

end CliHost

/-! ## The process -/

/-- A command line, as cobra hands it on. -/
inductive Invocation : Type where
  /-- a flag that cannot be parsed, through `SetFlagErrorFunc` -/
  | flagError (message : GoString)
  /-- what cobra refuses by itself -/
  | rejected (message : GoString)
  /-- help and the version -/
  | printed (text : GoString)
  | status (flags : CliFlags) (args : List GoString)
  | inspectBinding (flags : CliFlags) (args : List GoString)

/-- How a process ends. -/
structure Exit where
  code : ℕ
  stdout : GoString
  stderr : GoString
  deriving DecidableEq

/-- `Execute`, from the result of the command. -/
def CommandResult.exit (result : CommandResult) : Exit :=
  match result.err with
  | none => ⟨exitOK, result.stdout, []⟩
  | some err => ⟨codeForError err, result.stdout, str "Error: " ++ err.message ++ [10]⟩

/-- `Execute`. -/
def CliHost.execute (h : CliHost) : Invocation → Op Exit
  | .flagError message => ret (CommandResult.fails exitUsage message).exit
  | .rejected message => ret (CommandResult.mk [] (some ⟨none, message⟩)).exit
  | .printed text => ret (CommandResult.mk text none).exit
  | .status flags args => ret (h.statusCommand flags.options args).exit
  | .inspectBinding flags args => do
    let result ← h.inspectBinding flags.options args
    ret result.exit

/-! ## What the exit code of an inspection means -/

section InspectExit

variable {h : CliHost} {opts : CliOptions} {args : List GoString} {name : GoString}

/-- A command line that leads to an inspection. -/
structure CliHost.Accepts (h : CliHost) (opts : CliOptions) (args : List GoString)
    (name : GoString) : Prop where
  args : args = [name]
  options : h.validateRunnableOptions opts = none
  client : h.connect opts = none

/-- Valid options have a trust domain, so none is filled in. -/
theorem normalized_of_valid (hvalid : h.validateRunnableOptions opts = none) :
    normalizedInspectionIdentityConfig opts.identityConfig = .ok opts.identityConfig := by
  rw [CliHost.validateRunnableOptions] at hvalid
  split at hvalid
  · cases hvalid
  split at hvalid
  · cases hvalid
  rename_i hconfig
  have hne : opts.trustDomain ≠ [] := by
    rintro hnil
    rw [hnil] at hconfig
    cases hconfig
  simp [normalizedInspectionIdentityConfig, CliOptions.identityConfig, hne, hconfig]

theorem CliHost.Accepts.inspectBinding_eq (haccepts : h.Accepts opts args name) :
    h.inspectBinding opts args =
      (h.inspector opts.identityConfig).inspectBinding ⟨opts.namespace_, name⟩ >>= fun outcome =>
        ret (h.finishInspection opts outcome.1 outcome.2) := by
  obtain ⟨rfl, hvalid, hclient⟩ := haccepts
  simp only [CliHost.inspectBinding, hvalid, CliHost.newBindingInspector,
    normalized_of_valid hvalid, hclient]

/-- A command line is accepted, or refused without a call. -/
theorem accepts_or_refused (h : CliHost) (opts : CliOptions) (args : List GoString) :
    (∃ name, h.Accepts opts args name) ∨
      ((∀ name, ¬h.Accepts opts args name) ∧ ∃ message,
        h.inspectBinding opts args = ret (.fails exitUsage message)) := by
  by_cases hargs : ∃ name, args = [name]
  · obtain ⟨name, rfl⟩ := hargs
    rcases hvalid : h.validateRunnableOptions opts with _ | message
    · rcases hclient : h.connect opts with _ | message
      · exact Or.inl ⟨name, rfl, hvalid, hclient⟩
      · refine Or.inr ⟨fun _ haccepts => ?_, message, ?_⟩
        · cases hclient.symm.trans haccepts.client
        · simp only [CliHost.inspectBinding, hvalid, CliHost.newBindingInspector,
            normalized_of_valid hvalid, hclient]
    · refine Or.inr ⟨fun _ haccepts => ?_, message, ?_⟩
      · cases hvalid.symm.trans haccepts.options
      · simp only [CliHost.inspectBinding, hvalid]
  · refine Or.inr ⟨fun name haccepts => hargs ⟨name, haccepts.args⟩,
      str "accepts 1 arg(s), received " ++ decimal args.length, ?_⟩
    rw [CliHost.inspectBinding]
    exact fun name hname => hargs ⟨name, hname⟩

/-- The exit code of a command is the one that goes with its error. -/
theorem code_exit {stdout : GoString} {code : ℕ} {message : Option GoString}
    (hnone : message = none → code = exitOK) :
    (CommandResult.mk stdout (withExitCode code message)).exit.code = code := by
  cases message with
  | none => exact (hnone rfl).symm
  | some message => rfl

theorem stdout_exit (result : CommandResult) : result.exit.stdout = result.stdout := by
  rw [CommandResult.exit]
  split <;> rfl

theorem inspectionExitCode_none {report : BindingInspectionReport}
    {failure : Option InspectionFailure} {strict : Bool}
    (hnone : (inspectionExitCode report failure strict).2 = none) :
    (inspectionExitCode report failure strict).1 = exitOK := by
  rcases failure with _ | _ | _ | message
  · rw [inspectionExitCode] at hnone ⊢
    split_ifs at hnone ⊢
    rfl
  all_goals cases hnone

/-- The codes that go with a report, and the one that goes without. -/
theorem inspectionExitCode_cases (report : BindingInspectionReport)
    (failure : Option InspectionFailure) (strict : Bool) :
    let code := (inspectionExitCode report failure strict).1
    (shouldWriteBindingInspectionReport failure = true → code ≠ exitUsage ∧ code ≠ exitInternal) ∧
      (shouldWriteBindingInspectionReport failure = false → code = exitUsage) := by
  rcases failure with _ | _ | _ | message
  · refine ⟨fun _ => ?_, (by rintro ⟨⟩)⟩
    rw [inspectionExitCode]
    split_ifs <;> decide
  · exact ⟨fun _ => (by decide : exitBindingNotFound ≠ exitUsage ∧ exitBindingNotFound ≠ exitInternal),
      (by rintro ⟨⟩)⟩
  · exact ⟨fun _ => (by decide : exitInspectionIssue ≠ exitUsage ∧ exitInspectionIssue ≠ exitInternal),
      (by rintro ⟨⟩)⟩
  · exact ⟨(by rintro ⟨⟩), fun _ => rfl⟩

/-- The text of a report ends with its exit code. -/
theorem bindingInspectionReportText_eq (report : BindingInspectionReport) (code : ℕ) : ∃ body,
    bindingInspectionReportText { report with exitCode := some code } =
      body ++ (str "Exit code: " ++ decimal code ++ [10]) := by
  let report' := normalizeBindingInspectionReport { report with exitCode := some code }
  refine ⟨textLines (bindingInspectionReportLines report'), ?_⟩
  rw [bindingInspectionReportText, textLines, List.flatMap_append, List.flatMap_singleton]
  rfl

/-- A report in the format that was asked for: its text, or its encoding. -/
def formatted (output text : GoString) (json : Except GoString GoString) : Except GoString GoString :=
  if output = str "text" then .ok text else json

/-- This very output is there and can be written. -/
def CliHost.Writable (h : CliHost) (output : Except GoString GoString) : Prop :=
  ∃ body, output = .ok body ∧ h.write body = none

/-- A report is written in the format that was asked for, unless it cannot be. -/
theorem writeReport_cases (what text : GoString) {output : GoString} {json : Except GoString GoString}
    (hvalid : isValidOutputFormat output = true) :
    (∃ written, h.writeReport what output text json = .ok written ∧
      formatted output text json = .ok written ∧ h.write written = none) ∨
    (∃ message, h.writeReport what output text json = .error message) ∧
      ¬h.Writable (formatted output text json) := by
  have hput : ∀ body, (h.put body = .ok body ∧ h.write body = none) ∨
      (∃ message, h.put body = .error message) ∧ ¬h.Writable (.ok body) := by
    intro body
    rw [CliHost.put]
    rcases hwrite : h.write body with _ | message
    · exact Or.inl ⟨rfl, rfl⟩
    · refine Or.inr ⟨⟨message, rfl⟩, ?_⟩
      rintro ⟨_, ⟨⟩, hnone⟩
      cases hwrite.symm.trans hnone
  rw [CliHost.writeReport, formatted]
  by_cases htext : output = str "text"
  · rw [if_pos htext, if_pos htext]
    exact (hput text).imp (fun hwritten => ⟨text, hwritten.1, rfl, hwritten.2⟩) id
  · have houtput : output = str "json" :=
      List.mem_singleton.mp ((List.mem_cons.mp (List.elem_iff.mp hvalid)).resolve_left htext)
    rw [if_neg htext, if_neg htext, if_pos houtput]
    rcases json with message | body
    · refine Or.inr ⟨⟨message, rfl⟩, ?_⟩
      rintro ⟨_, ⟨⟩, -⟩
    · exact (hput body).imp (fun hwritten => ⟨body, hwritten.1, rfl, hwritten.2⟩) id

/-- The report of an inspection as it is put out, with the exit code in it. -/
def CliHost.inspectionOutput (h : CliHost) (opts : CliOptions)
    (x : BindingInspectionReport × Option InspectionFailure) : Except GoString GoString :=
  let report := { x.1 with exitCode := some (inspectionExitCode x.1 x.2 opts.strict).1 }
  formatted opts.output (bindingInspectionReportText report)
    (h.encodeBinding (normalizeBindingInspectionReport report))

/-- How a process ends that inspects: with the code of the inspection and its report, unless
nothing is to be written or it cannot be. -/
theorem finishInspection_cases (hvalid : isValidOutputFormat opts.output = true)
    (x : BindingInspectionReport × Option InspectionFailure) :
    let code := (inspectionExitCode x.1 x.2 opts.strict).1
    let exit := (h.finishInspection opts x.1 x.2).exit
    (shouldWriteBindingInspectionReport x.2 = false ∧ exit.code = code ∧ exit.stdout = []) ∨
    (shouldWriteBindingInspectionReport x.2 = true ∧ exit.code = exitInternal ∧
      exit.stdout = [] ∧ ¬h.Writable (h.inspectionOutput opts x)) ∨
    (shouldWriteBindingInspectionReport x.2 = true ∧ exit.code = code ∧
      h.inspectionOutput opts x = .ok exit.stdout ∧ h.write exit.stdout = none) := by
  intro code exit
  have hcode : ∀ stdout, (CommandResult.mk stdout (withExitCode code
      (inspectionExitCode x.1 x.2 opts.strict).2)).exit.code = code :=
    fun stdout => code_exit inspectionExitCode_none
  simp only [exit, CliHost.finishInspection]
  cases hwrite : shouldWriteBindingInspectionReport x.2 with
  | false => exact Or.inl ⟨rfl, hcode [], stdout_exit _⟩
  | true =>
    simp only [Bool.not_true, Bool.false_eq_true, if_false]
    rcases writeReport_cases (h := h) (str "binding inspection")
      (bindingInspectionReportText { x.1 with exitCode := some code }) hvalid with
      ⟨written, hwritten, houtput, hnone⟩ | ⟨⟨message, hfails⟩, hunwritable⟩
    · rw [hwritten]
      refine Or.inr (Or.inr ⟨trivial, hcode written, ?_⟩)
      rw [stdout_exit]
      exact ⟨houtput, hnone⟩
    · rw [hfails]
      exact Or.inr (Or.inl ⟨trivial, rfl, rfl, hunwritable⟩)

/-- The operator that an inspection of a binding stands in for: it has the configuration that
counts for that binding. -/
def CliOptions.reconciler (opts : CliOptions) (P : Platform) (available : List GroupVersionKind)
    (binding : Binding) : Reconciler :=
  (sourcedIdentityConfig opts.identityConfig binding).toResolvedIdentityConfig.reconciler P available

/-- What an accepted command line finds: the binding with what that operator renders for it, or why
it cannot be read. -/
structure CliHost.Finds {σ : Type} (answer : (c : Call) → σ → Answer c × σ) (s : σ) (h : CliHost)
    (opts : CliOptions) (args : List GoString)
    (result : Except GoError (Binding × Except GoError Plan)) : Prop where
  found : ∃ name available, h.Accepts opts args name ∧
    filterAvailableInspectionGVKs h.restMapping inferencePoolGVKs = .ok available ∧
    result = Except.map (fun binding => (binding,
      (exec answer ((opts.reconciler h.platform available binding).renderDesired binding)
        (answer (.getBinding ⟨opts.namespace_, name⟩) s).2).1))
      (answer (.getBinding ⟨opts.namespace_, name⟩) s).1

/-- What the codes mean that an inspection ends with. -/
inductive InspectVerdict {σ : Type} (answer : (c : Call) → σ → Answer c × σ) (s : σ) (h : CliHost)
    (opts : CliOptions) (args : List GoString) : ℕ → Prop
  | refused (hrefused : ∀ name, ¬h.Accepts opts args name) :
      InspectVerdict answer s h opts args exitUsage
  | undiscovered {name message : GoString} (haccepts : h.Accepts opts args name)
      (hserved : filterAvailableInspectionGVKs h.restMapping inferencePoolGVKs = .error message) :
      InspectVerdict answer s h opts args exitUsage
  | unread {err : GoError} (hfinds : h.Finds answer s opts args (.error err))
      (hkind : err.kind ≠ .notFound) : InspectVerdict answer s h opts args exitUsage
  | absent {err : GoError} (hfinds : h.Finds answer s opts args (.error err))
      (hkind : err.kind = .notFound) : InspectVerdict answer s h opts args exitBindingNotFound
  | unrenderable {binding : Binding} {err : GoError}
      (hfinds : h.Finds answer s opts args (.ok (binding, .error err))) :
      InspectVerdict answer s h opts args exitInspectionIssue
  | doubtful {binding : Binding} {plan : Plan}
      (hfinds : h.Finds answer s opts args (.ok (binding, .ok plan))) (hstrict : opts.strict = true)
      (hdoubt : binding.status.trustDomain = [] ∨
        (listMatchingPods h.platform h.listPods binding plan).isOk = false) :
      InspectVerdict answer s h opts args exitInspectionIssue
  | sound {binding : Binding} {plan : Plan}
      (hfinds : h.Finds answer s opts args (.ok (binding, .ok plan)))
      (hsound : opts.strict = true → binding.status.trustDomain ≠ [] ∧
        (listMatchingPods h.platform h.listPods binding plan).isOk = true) :
      InspectVerdict answer s h opts args exitOK

section Verdict

variable {σ : Type} {answer : (c : Call) → σ → Answer c × σ} {s : σ}

theorem CliHost.Accepts.unique {name' : GoString} (haccepts : h.Accepts opts args name)
    (haccepts' : h.Accepts opts args name') : name = name' := by
  cases haccepts.args.symm.trans haccepts'.args
  rfl

theorem CliHost.Finds.accepts {result : Except GoError (Binding × Except GoError Plan)}
    (hfinds : h.Finds answer s opts args result) : ∃ name, h.Accepts opts args name := by
  obtain ⟨name, _, haccepts, -⟩ := hfinds.found
  exact ⟨name, haccepts⟩

theorem CliHost.Finds.unique {result result' : Except GoError (Binding × Except GoError Plan)}
    (hfinds : h.Finds answer s opts args result) (hfinds' : h.Finds answer s opts args result') :
    result = result' := by
  obtain ⟨name, available, haccepts, hserved, rfl⟩ := hfinds.found
  obtain ⟨name', available', haccepts', hserved', rfl⟩ := hfinds'.found
  cases haccepts.unique haccepts'
  cases hserved.symm.trans hserved'
  rfl

/-- What an accepted command line finds excludes the reasons for which it finds nothing. -/
theorem CliHost.Finds.discovers {result : Except GoError (Binding × Except GoError Plan)}
    (hfinds : h.Finds answer s opts args result) {message : GoString} :
    filterAvailableInspectionGVKs h.restMapping inferencePoolGVKs ≠ .error message := by
  obtain ⟨_, available, -, hserved, -⟩ := hfinds.found
  rw [hserved]
  rintro ⟨⟩

/-- A command line has one code only. -/
theorem InspectVerdict.unique {code code' : ℕ} (hverdict : InspectVerdict answer s h opts args code)
    (hverdict' : InspectVerdict answer s h opts args code') : code = code' := by
  cases hverdict with
  | refused hrefused =>
    cases hverdict' with
    | refused | undiscovered | unread => rfl
    | absent hfinds | unrenderable hfinds | doubtful hfinds | sound hfinds =>
      exact absurd hfinds.accepts (not_exists.mpr hrefused)
  | undiscovered haccepts hserved =>
    cases hverdict' with
    | refused | undiscovered | unread => rfl
    | absent hfinds | unrenderable hfinds | doubtful hfinds | sound hfinds =>
      exact absurd hserved hfinds.discovers
  | unread hfinds hkind =>
    cases hverdict' with
    | refused | undiscovered | unread => rfl
    | absent hfinds' hkind' =>
      cases hfinds.unique hfinds'
      exact absurd hkind' hkind
    | unrenderable hfinds' | doubtful hfinds' | sound hfinds' => cases hfinds.unique hfinds'
  | absent hfinds hkind =>
    cases hverdict' with
    | refused hrefused => exact absurd hfinds.accepts (not_exists.mpr hrefused)
    | undiscovered _ hserved => exact absurd hserved hfinds.discovers
    | unread hfinds' hkind' =>
      cases hfinds.unique hfinds'
      exact absurd hkind hkind'
    | absent => rfl
    | unrenderable hfinds' | doubtful hfinds' | sound hfinds' => cases hfinds.unique hfinds'
  | unrenderable hfinds =>
    cases hverdict' with
    | refused hrefused => exact absurd hfinds.accepts (not_exists.mpr hrefused)
    | undiscovered _ hserved => exact absurd hserved hfinds.discovers
    | unrenderable | doubtful => rfl
    | unread hfinds' | absent hfinds' | sound hfinds' => cases hfinds.unique hfinds'
  | doubtful hfinds hstrict hdoubt =>
    cases hverdict' with
    | refused hrefused => exact absurd hfinds.accepts (not_exists.mpr hrefused)
    | undiscovered _ hserved => exact absurd hserved hfinds.discovers
    | unrenderable | doubtful => rfl
    | unread hfinds' | absent hfinds' => cases hfinds.unique hfinds'
    | sound hfinds' hsound =>
      cases hfinds.unique hfinds'
      obtain ⟨htrust, hpods⟩ := hsound hstrict
      rcases hdoubt with hnil | hfails
      · exact absurd hnil htrust
      · cases hfails.symm.trans hpods
  | sound hfinds hsound =>
    cases hverdict' with
    | refused hrefused => exact absurd hfinds.accepts (not_exists.mpr hrefused)
    | undiscovered _ hserved => exact absurd hserved hfinds.discovers
    | sound => rfl
    | unread hfinds' | absent hfinds' | unrenderable hfinds' => cases hfinds.unique hfinds'
    | doubtful hfinds' hstrict hdoubt =>
      cases hfinds.unique hfinds'
      obtain ⟨htrust, hpods⟩ := hsound hstrict
      rcases hdoubt with hnil | hfails
      · exact absurd hnil htrust
      · cases hfails.symm.trans hpods

end Verdict

/-- The inspection that a command line asks for: its report, and how it failed. -/
def CliHost.inspection {σ : Type} (answer : (c : Call) → σ → Answer c × σ) (s : σ) (h : CliHost)
    (opts : CliOptions) (name : GoString) : BindingInspectionReport × Option InspectionFailure :=
  (exec answer ((h.inspector opts.identityConfig).inspectBinding ⟨opts.namespace_, name⟩) s).1

/-- A command line that leads to a report: the served kinds can be discovered, and the binding is
read or is not there. -/
structure CliHost.Reports {σ : Type} (answer : (c : Call) → σ → Answer c × σ) (s : σ) (h : CliHost)
    (opts : CliOptions) (args : List GoString) (name : GoString) : Prop where
  accepts : h.Accepts opts args name
  discovers : ∃ available,
    filterAvailableInspectionGVKs h.restMapping inferencePoolGVKs = .ok available
  reads : ∀ err, (answer (.getBinding ⟨opts.namespace_, name⟩) s).1 =
    (.error err : Except GoError Binding) → err.kind = .notFound

theorem CliHost.Accepts.validOutput (haccepts : h.Accepts opts args name) :
    isValidOutputFormat opts.output = true := by
  have hvalid := haccepts.options
  rw [CliHost.validateRunnableOptions, CliHost.validateStatusOptions] at hvalid
  by_contra hnot
  rw [if_pos (by simpa using hnot)] at hvalid
  cases hvalid

section Outcome

variable {σ : Type} {answer : (c : Call) → σ → Answer c × σ} {s : σ}
  {x : BindingInspectionReport × Option InspectionFailure}

/-- The code that an inspection chooses means what it should. -/
theorem InspectionOutcome.means
    (houtcome : InspectionOutcome answer s (h.inspector opts.identityConfig)
      ⟨opts.namespace_, name⟩ x) (haccepts : h.Accepts opts args name) :
    InspectVerdict answer s h opts args (inspectionExitCode x.1 x.2 opts.strict).1 := by
  cases houtcome with
  | undiscovered hserved => exact .undiscovered haccepts hserved
  | @unread available err _ _ hserved hread hkind =>
    exact .unread ⟨name, available, haccepts, hserved, by rw [hread]; rfl⟩ hkind
  | @absent available err _ hserved hread hkind =>
    exact .absent ⟨name, available, haccepts, hserved, by rw [hread]; rfl⟩ hkind
  | @found available binding x hserved hread hinspected =>
    cases hinspected with
    | @unrendered err _ hfails =>
      exact .unrenderable ⟨name, available, haccepts, hserved, by rw [hread, ← hfails]; rfl⟩
    | @rendered plan report hplan _ herror hwarning =>
      have hfinds : h.Finds answer s opts args (.ok (binding, .ok plan)) :=
        ⟨name, available, haccepts, hserved, by rw [hread, ← hplan]; rfl⟩
      rw [inspectionExitCode, herror]
      simp only [Bool.false_eq_true, if_false, Bool.and_eq_true]
      split_ifs with hstrict
      · exact .doubtful hfinds hstrict.1 (hwarning.mp hstrict.2)
      · refine .sound hfinds fun hopts => ?_
        have hnone := not_or.mp fun hdoubt => hstrict ⟨hopts, hwarning.mpr hdoubt⟩
        exact ⟨hnone.1, Bool.eq_true_of_not_eq_false hnone.2⟩

/-- A report is to be written exactly where the command line leads to one. -/
theorem InspectionOutcome.reports_iff
    (houtcome : InspectionOutcome answer s (h.inspector opts.identityConfig)
      ⟨opts.namespace_, name⟩ x) (haccepts : h.Accepts opts args name) :
    h.Reports answer s opts args name ↔ shouldWriteBindingInspectionReport x.2 = true := by
  cases houtcome with
  | undiscovered hserved =>
    refine ⟨fun hreports => ?_, (by rintro ⟨⟩)⟩
    obtain ⟨available, hok⟩ := hreports.discovers
    cases hok.symm.trans hserved
  | unread hserved hread hkind =>
    exact ⟨fun hreports => absurd (hreports.reads _ hread) hkind, (by rintro ⟨⟩)⟩
  | absent hserved hread hkind =>
    refine ⟨fun _ => rfl, fun _ => ⟨haccepts, ⟨_, hserved⟩, fun err herr => ?_⟩⟩
    cases hread.symm.trans herr
    exact hkind
  | found hserved hread hinspected =>
    have hreports : h.Reports answer s opts args name := by
      refine ⟨haccepts, ⟨_, hserved⟩, fun err herr => ?_⟩
      cases hread.symm.trans herr
    refine ⟨fun _ => ?_, fun _ => hreports⟩
    cases hinspected <;> rfl

end Outcome

/-- **The exit code of `kleym inspect binding`.** Whatever the cluster answers, the process exits
with 5 exactly where there is a report and it cannot be written, and otherwise with the one code
that says what happened. With an error of usage or output nothing is written; with every other code
the report is, in the format that was asked for, and a text report ends with that very code. -/
theorem inspect_exit_code {σ : Type} (answer : (c : Call) → σ → Answer c × σ) (s : σ) (h : CliHost)
    (hP : h.platform.Documented) (flags : CliFlags) (args : List GoString) :
    let opts := flags.options
    let exit := (exec answer (h.execute (.inspectBinding flags args)) s).1
    (exit.code = exitInternal ↔ ∃ name, h.Reports answer s opts args name ∧
      ¬h.Writable (h.inspectionOutput opts (h.inspection answer s opts name))) ∧
    (exit.code ≠ exitInternal →
      ∀ code, InspectVerdict answer s h opts args code ↔ code = exit.code) ∧
    (exit.code = exitUsage ∨ exit.code = exitInternal → exit.stdout = []) ∧
    (exit.code ≠ exitUsage → exit.code ≠ exitInternal → ∃ name, h.Reports answer s opts args name ∧
      h.inspectionOutput opts (h.inspection answer s opts name) = .ok exit.stdout ∧
      h.write exit.stdout = none ∧ (opts.output = str "text" →
        ∃ body, exit.stdout = body ++ (str "Exit code: " ++ decimal exit.code ++ [10]))) := by
  intro opts exit
  have hexit : exit = (exec answer (h.inspectBinding opts args) s).1.exit := by
    simp only [exit, opts, CliHost.execute, exec_bind, exec_ret]
  have honly : ∀ {code}, InspectVerdict answer s h opts args code →
      ∀ code', InspectVerdict answer s h opts args code' ↔ code' = code :=
    fun hverdict code' => ⟨fun h' => h'.unique hverdict, fun h' => h' ▸ hverdict⟩
  rcases accepts_or_refused h opts args with ⟨name, haccepts⟩ | ⟨hrefused, message, hfails⟩
  · rw [haccepts.inspectBinding_eq, exec_bind, exec_ret] at hexit
    have houtcome := outcome_inspectBinding answer s (h.inspector opts.identityConfig) hP
      ⟨opts.namespace_, name⟩
    change exit = (h.finishInspection opts (h.inspection answer s opts name).1
      (h.inspection answer s opts name).2).exit at hexit
    change InspectionOutcome answer s _ _ (h.inspection answer s opts name) at houtcome
    have hname : ∀ {name'}, h.Reports answer s opts args name' → name' = name :=
      fun hreports => hreports.accepts.unique haccepts
    generalize hx : h.inspection answer s opts name = x at hexit houtcome
    have hreports := houtcome.reports_iff haccepts
    obtain ⟨hreported, hunreported⟩ := inspectionExitCode_cases x.1 x.2 opts.strict
    have hmeans := houtcome.means haccepts
    rcases finishInspection_cases (h := h) haccepts.validOutput x with
      ⟨hsilent, hcode, hempty⟩ | ⟨hwrites, hcode, hempty, hunwritable⟩ |
      ⟨hwrites, hcode, houtput, hwritten⟩
    · rw [hexit, hcode, hunreported hsilent]
      rw [hunreported hsilent] at hmeans
      refine ⟨⟨(by rintro ⟨⟩), ?_⟩, fun _ => honly hmeans, fun _ => hempty, fun hne => absurd rfl hne⟩
      rintro ⟨name', hreports', -⟩
      cases hname hreports'
      cases hsilent.symm.trans (hreports.mp hreports')
    · rw [hexit, hcode]
      exact ⟨⟨fun _ => ⟨name, hreports.mpr hwrites, hx ▸ hunwritable⟩, fun _ => rfl⟩,
        fun hne => absurd rfl hne, fun _ => hempty, fun _ hne => absurd rfl hne⟩
    · obtain ⟨husage, hinternal⟩ := hreported hwrites
      rw [hexit, hcode]
      refine ⟨⟨fun heq => absurd heq hinternal, ?_⟩, fun _ => honly hmeans,
        fun hor => absurd hor (not_or.mpr ⟨husage, hinternal⟩),
        fun _ _ => ⟨name, hreports.mpr hwrites, hx.symm ▸ houtput, hwritten, fun htext => ?_⟩⟩
      · rintro ⟨name', hreports', hunwritable⟩
        cases hname hreports'
        rw [hx] at hunwritable
        exact absurd ⟨_, houtput, hwritten⟩ hunwritable
      · rw [CliHost.inspectionOutput, formatted, if_pos htext] at houtput
        rw [← Except.ok.inj houtput]
        exact bindingInspectionReportText_eq x.1 _
  · rw [hfails] at hexit
    rw [hexit]
    refine ⟨⟨(by rintro ⟨⟩), ?_⟩, fun _ => honly (.refused hrefused), fun _ => rfl,
      fun hne => absurd rfl hne⟩
    rintro ⟨name, hreports, -⟩
    exact absurd hreports.accepts (hrefused name)

/-- A host where everything works. -/
def quietHost : CliHost where
  restMapping _ := .ok ()
  listDeployments _ := .ok []
  listBindings := .ok []
  platform := smallReconciler.platform
  isForbidden _ := false
  listPods _ _ := .ok []
  now := []
  version := str "dev"
  durationText _ := []
  connect _ := none
  encodeBinding _ := .ok [10]
  encodeStatus _ := .ok [10]
  write _ := none

/-- A host whose standard output is closed. -/
def closedHost : CliHost := { quietHost with write := fun _ => some (str "broken pipe") }

/-- The flags `-n n`. -/
def smallFlags : CliFlags := { namespace_ := some (str "n") }

/-- How `kleym inspect binding NAME -n n` ends in the small cluster. -/
def smallInspection (h : CliHost) (name : String) : Exit :=
  (exec (respond {}) (h.execute (.inspectBinding smallFlags [str name])) (smallCluster "q")).1

/-- A binding that is rendered, one whose pool is not there, one that is not there itself, and a
report that cannot be written. -/
theorem inspect_exit_code_small :
    (∀ code, InspectVerdict (respond {}) (smallCluster "q") quietHost smallFlags.options [str "x"]
      code ↔ code = exitOK) ∧
    (∀ code, InspectVerdict (respond {}) (smallCluster "q") quietHost smallFlags.options [str "y"]
      code ↔ code = exitInspectionIssue) ∧
    (∀ code, InspectVerdict (respond {}) (smallCluster "q") quietHost smallFlags.options [str "z"]
      code ↔ code = exitBindingNotFound) ∧
    (∃ body, (smallInspection quietHost "y").stdout =
      body ++ (str "Exit code: " ++ decimal exitInspectionIssue ++ [10])) ∧
    (smallInspection closedHost "x").stdout = [] ∧
    ∃ name, closedHost.Reports (respond {}) (smallCluster "q") smallFlags.options [str "x"] name ∧
      ¬closedHost.Writable (closedHost.inspectionOutput smallFlags.options
        (closedHost.inspection (respond {}) (smallCluster "q") smallFlags.options name)) := by
  have hx : (smallInspection quietHost "x").code = exitOK := by decide +kernel
  have hy : (smallInspection quietHost "y").code = exitInspectionIssue := by decide +kernel
  have hz : (smallInspection quietHost "z").code = exitBindingNotFound := by decide +kernel
  have hclosed : (smallInspection closedHost "x").code = exitInternal := by decide +kernel
  have hquiet := inspect_exit_code (respond {}) (smallCluster "q") quietHost
    smallReconciler_documented smallFlags
  obtain ⟨hinternal, -, hempty, -⟩ := inspect_exit_code (respond {}) (smallCluster "q") closedHost
    smallReconciler_documented smallFlags [str "x"]
  refine ⟨?_, ?_, ?_, ?_, hempty (Or.inr hclosed), hinternal.mp hclosed⟩
  · exact hx ▸ (hquiet [str "x"]).2.1 (hx ▸ (by decide : exitOK ≠ exitInternal))
  · exact hy ▸ (hquiet [str "y"]).2.1 (hy ▸ (by decide : exitInspectionIssue ≠ exitInternal))
  · exact hz ▸ (hquiet [str "z"]).2.1 (hz ▸ (by decide : exitBindingNotFound ≠ exitInternal))
  · obtain ⟨_, -, -, -, htext⟩ := (hquiet [str "y"]).2.2.2
      (hy ▸ (by decide : exitInspectionIssue ≠ exitUsage))
      (hy ▸ (by decide : exitInspectionIssue ≠ exitInternal))
    exact hy ▸ htext rfl

end InspectExit

end Kleym
