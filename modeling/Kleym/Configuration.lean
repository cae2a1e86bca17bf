import Kleym.Flags
import Kleym.StatusReport

/-!
# The configuration, as the operator takes it and as the CLI shows it

The operator has two settings, the trust domain and the class of its `ClusterSPIFFEID`s. It
takes them from its flags, with the environment as fallback, and publishes them in the status of
the bindings it reconciles. `kleym status` shows them from two places: the arguments of the
first ready Deployment, which it looks for by itself and does not parse as flags, and the status
of the bindings.

The arguments are read first and the bindings only fill what is empty after that, so the report
is `argsConfig` with gaps filled in, and not what the bindings were rendered with. Among the
arguments it is the first trust domain that counts, where the flag package has the last one.
-/

namespace Kleym

open GoString

/-! ## The flags of the operator (`cmd/kleym-operator/main.go`) -/

/-- The flags that `main` registers, next to those that its libraries do. -/
def operatorFlags (others : FlagSet) : FlagSet := fun name =>
  if [str "metrics-bind-address", str "health-probe-bind-address", str "metrics-cert-path",
      str "metrics-cert-name", str "metrics-cert-key", str "trust-domain",
      str "clusterspiffeid-class-name"].elem name then some .string
  else if [str "leader-elect", str "metrics-secure", str "enable-http2"].elem name then some .bool
  else others name

/-- The configuration that the flags give. -/
def flagConfig (assignments : List (GoString × GoString)) : OperatorConfig where
  trustDomain := flagValue (str "trust-domain") [] assignments
  clusterSPIFFEIDClassName := flagValue (str "clusterspiffeid-class-name") [] assignments

/-! ## The arguments -/

/-- The values that arguments give after a prefix, in order. -/
def valuesAfter (pre : GoString) (args : List GoString) : List GoString :=
  args.filterMap fun arg => arg.cutPrefix pre

/-- The values of `--trust-domain=`. -/
def trustDomainArgs (args : List GoString) : List GoString :=
  valuesAfter (str "--trust-domain=") args

/-- The values of `--clusterspiffeid-class-name=`. -/
def classNameArgs (args : List GoString) : List GoString :=
  valuesAfter (str "--clusterspiffeid-class-name=") args

/-- The first value that is not empty, the empty string if there is none. -/
def firstGiven (values : List GoString) : GoString := (values.find? (· ≠ [])).getD []

/-- The last value, the empty string if there is none. -/
def lastGiven (values : List GoString) : GoString := values.getLast?.getD []

theorem valuesAfter_cons (pre arg : GoString) (args : List GoString) :
    valuesAfter pre (arg :: args) = (arg.cutPrefix pre).toList ++ valuesAfter pre args := by
  rw [valuesAfter, List.filterMap_cons]
  cases arg.cutPrefix pre <;> rfl

theorem firstGiven_cons (value : GoString) (values : List GoString) :
    firstGiven (value :: values) = if value = [] then firstGiven values else value := by
  rw [firstGiven, List.find?_cons]
  split_ifs with h <;> simp [h, firstGiven]

/-- What arguments say, to a report without a configuration. -/
def argsConfig (args : List GoString) : StatusConfig where
  trustDomain := firstGiven (trustDomainArgs args)
  clusterSPIFFEIDClassName := lastGiven (classNameArgs args)
  clusterSPIFFEIDClassNameKnown := !((trustDomainArgs args).isEmpty && (classNameArgs args).isEmpty)

/-- An argument does not start with both flags. -/
theorem cutPrefix_className {arg value : GoString}
    (h : arg.cutPrefix (str "--trust-domain=") = some value) :
    arg.cutPrefix (str "--clusterspiffeid-class-name=") = none := by
  rw [cutPrefix_eq_some] at h
  have hfalse := hasPrefix_eq_false (h ▸ hasPrefix_append (str "--trust-domain=") value)
    (b := str "--clusterspiffeid-class-name=") (by decide) (by decide)
  rw [cutPrefix, hfalse]
  rfl

/-- The loop over the arguments. -/
theorem foldl_scanArg (args : List GoString) (scan : ArgsScan) :
    args.foldl scanArg scan =
      { trustDomain :=
          if scan.trustDomain = [] then firstGiven (trustDomainArgs args) else scan.trustDomain
        trustDomainFound :=
          scan.trustDomainFound || (scan.trustDomain.isEmpty && !(trustDomainArgs args).isEmpty)
        className := (classNameArgs args).getLast?.getD scan.className
        classNameFound := scan.classNameFound || !(classNameArgs args).isEmpty } := by
  induction args generalizing scan with
  | nil =>
    obtain ⟨trustDomain, found, className, classFound⟩ := scan
    cases trustDomain <;> simp [trustDomainArgs, classNameArgs, valuesAfter, firstGiven]
  | cons arg args ih =>
    rw [List.foldl_cons, ih, scanArg]
    simp only [trustDomainArgs, classNameArgs, valuesAfter_cons]
    obtain ⟨trustDomain, found, className, classFound⟩ := scan
    cases htrust : arg.cutPrefix (str "--trust-domain=") with
    | none =>
      cases arg.cutPrefix (str "--clusterspiffeid-class-name=") with
      | none => rfl
      | some value => simp [List.getLast?_cons]
    | some value =>
      rw [cutPrefix_className htrust]
      cases trustDomain with
      | nil => simp [firstGiven_cons]
      | cons c trustDomain => simp

/-- The report of arguments has what they say, and nothing else changes. -/
theorem fillConfigFromArgs_eq (args : List GoString) {report : StatusReport}
    (h : report.config = {}) :
    fillConfigFromArgs args report = { report with config := argsConfig args } := by
  rw [fillConfigFromArgs, foldl_scanArg, h]
  cases htrust : trustDomainArgs args <;> cases hclass : classNameArgs args <;>
    simp [argsConfig, firstGiven, lastGiven, htrust, hclass]

/-! ## The arguments as flags -/

theorem valuesAfter_tokens (name : GoString) (hname : 61 ∉ name) (tokens : List Token) :
    valuesAfter ([45, 45] ++ name ++ [61]) (tokens.map Token.text) = valuesOf name tokens := by
  induction tokens with
  | nil => rfl
  | cons token tokens ih =>
    rw [List.map_cons, valuesAfter_cons, token.cutPrefix_text hname, ih, valuesOf_cons]
    split_ifs <;> rfl

theorem trustDomainArgs_tokens (tokens : List Token) :
    trustDomainArgs (tokens.map Token.text) = valuesOf (str "trust-domain") tokens :=
  valuesAfter_tokens (str "trust-domain") (by decide) tokens

theorem classNameArgs_tokens (tokens : List Token) :
    classNameArgs (tokens.map Token.text) = valuesOf (str "clusterspiffeid-class-name") tokens :=
  valuesAfter_tokens (str "clusterspiffeid-class-name") (by decide) tokens

/-- **The CLI reads flags as the operator does, up to repetition**: on arguments that the
operator starts with, the two settings that `fillConfigFromArgs` finds are those of the flags
exactly when the first trust domain that is not empty is also the last one. -/
theorem fillConfigFromArgs_agrees_iff (others : FlagSet) {tokens : List Token}
    {assignments : List (GoString × GoString)}
    (hparse : parseFlags (operatorFlags others) (tokens.map Token.text) = .ok assignments) :
    let config := (fillConfigFromArgs (tokens.map Token.text) {}).config
    ((valuesOf (str "trust-domain") tokens ≠ [] →
        config.trustDomain = (flagConfig assignments).trustDomain) ∧
      (valuesOf (str "clusterspiffeid-class-name") tokens ≠ [] →
        config.clusterSPIFFEIDClassName = (flagConfig assignments).clusterSPIFFEIDClassName)) ↔
    firstGiven (valuesOf (str "trust-domain") tokens) =
      lastGiven (valuesOf (str "trust-domain") tokens) := by
  obtain ⟨-, rfl⟩ := parseFlags_tokens.mp hparse
  dsimp only
  rw [fillConfigFromArgs_eq _ rfl, flagConfig]
  simp only [argsConfig, trustDomainArgs_tokens, classNameArgs_tokens, flagValue_tokens, lastGiven,
    implies_true, and_true]
  constructor
  · intro h
    by_cases hnil : valuesOf (str "trust-domain") tokens = []
    · rw [hnil]
      rfl
    · exact h hnil
  · exact fun h _ => h

/-- A token for the trust domain. -/
def trustDomainToken (value : GoString) : Token where
  name := str "trust-domain"
  value := value
  name_ne_nil := by decide
  hyphen_ne := by decide
  equals_notMem := by decide

theorem fillConfigFromArgs_agrees_iff_repeated :
    (fillConfigFromArgs ([trustDomainToken [], trustDomainToken (str "a")].map Token.text)
      {}).config.trustDomain = str "a" := by
  have hparse : parseFlags (operatorFlags fun _ => none)
      ([trustDomainToken [], trustDomainToken (str "a")].map Token.text) =
        .ok [(str "trust-domain", []), (str "trust-domain", str "a")] := by decide +kernel
  exact ((fillConfigFromArgs_agrees_iff _ hparse).mpr (by decide +kernel)).1 (by decide +kernel)

/-- With the trust domain given twice, the CLI shows the first and the operator has the
second. -/
theorem fillConfigFromArgs_overridden :
    let args := [str "--trust-domain=a", str "--trust-domain=b"]
    (fillConfigFromArgs args {}).config.trustDomain = str "a" ∧
      ∃ assignments, parseFlags (operatorFlags fun _ => none) args = .ok assignments ∧
        (flagConfig assignments).trustDomain = str "b" := by
  refine ⟨by decide +kernel, [(str "trust-domain", str "a"), (str "trust-domain", str "b")], ?_, ?_⟩ <;>
    decide +kernel

/-! ## What bindings publish -/

/-- The bindings that have published their configuration. -/
def published (bindings : List Binding) : List Binding :=
  bindings.filter fun binding => binding.status.trustDomain ≠ []

/-- The one value of a list, or `mixed`. -/
def agreedValue : List GoString → GoString
  | [] => []
  | value :: values => if ∀ v ∈ values, v = value then value else str "mixed"

/-- The configuration that bindings were rendered with, as they publish it. -/
def publishedConfig (bindings : List Binding) : StatusConfig where
  trustDomain := agreedValue ((published bindings).map fun b => b.status.trustDomain)
  clusterSPIFFEIDClassName :=
    agreedValue ((published bindings).map fun b => b.status.clusterSPIFFEIDClassName)
  clusterSPIFFEIDClassNameKnown := true

/-- A set has one value when all that were put into it agree. -/
theorem observedConfigValue_eq {set values : List GoString} (hnodup : set.Nodup)
    (hmem : ∀ v, v ∈ set ↔ v ∈ values) (hne : values ≠ []) :
    observedConfigValue set = some (agreedValue values) := by
  obtain ⟨value, values, rfl⟩ := List.exists_cons_of_ne_nil hne
  rcases set with _ | ⟨first, _ | ⟨second, set⟩⟩
  · exact absurd ((hmem value).mpr List.mem_cons_self) List.not_mem_nil
  · have hall : ∀ v ∈ value :: values, v = first := fun v hv => List.mem_singleton.mp ((hmem v).mpr hv)
    have hvalue := hall value List.mem_cons_self
    rw [agreedValue, if_pos fun v hv => (hall v (List.mem_cons_of_mem value hv)).trans hvalue.symm,
      hvalue]
    rfl
  · rw [agreedValue, if_neg]
    · rfl
    · intro hall
      have heq : ∀ v ∈ first :: second :: set, v = value := fun v hv => by
        rcases List.mem_cons.mp ((hmem v).mp hv) with rfl | hv
        · rfl
        · exact hall v hv
      have hfirst := heq first List.mem_cons_self
      have hsecond := heq second (List.mem_cons_of_mem first List.mem_cons_self)
      exact (List.nodup_cons.mp hnodup).1 (by rw [hfirst, ← hsecond]; exact List.mem_cons_self)

/-- The observations are the sets of what the bindings have published. -/
structure StatusConfigObservations.Of (o : StatusConfigObservations) (bindings : List Binding) :
    Prop where
  trustDomains_nodup : o.trustDomains.Nodup
  classNames_nodup : o.classNames.Nodup
  mem_trustDomains : ∀ v, v ∈ o.trustDomains ↔
    v ∈ (published bindings).map fun b => b.status.trustDomain
  mem_classNames : ∀ v, v ∈ o.classNames ↔
    v ∈ (published bindings).map fun b => b.status.clusterSPIFFEIDClassName

theorem StatusConfigObservations.Of.addBinding {o : StatusConfigObservations}
    {bindings : List Binding} (h : o.Of bindings) (binding : Binding) :
    (o.addBinding binding).Of (bindings ++ [binding]) := by
  rw [StatusConfigObservations.addBinding]
  split_ifs with hpublished
  · have hsame : published (bindings ++ [binding]) = published bindings := by
      simp [published, hpublished]
    exact ⟨h.1, h.2, hsame ▸ h.3, hsame ▸ h.4⟩
  · have hmore : published (bindings ++ [binding]) = published bindings ++ [binding] := by
      simp [published, hpublished]
    refine ⟨h.1.insert, h.2.insert, fun v => ?_, fun v => ?_⟩
    · rw [List.mem_insert_iff, h.3, hmore, List.map_append, List.mem_append, or_comm]
      simp
    · rw [List.mem_insert_iff, h.4, hmore, List.map_append, List.mem_append, or_comm]
      simp

/-- The loop over the bindings counts them and collects what they have published; the
configuration of the report stays as it is. -/
theorem scanBindings_spec {o : StatusConfigObservations} {seen : List Binding} (h : o.Of seen)
    (bindings : List Binding) (report : StatusReport) :
    (scanBindings bindings report o).1.config = report.config ∧
      (scanBindings bindings report o).2.Of (seen ++ bindings) := by
  induction bindings generalizing o seen report with
  | nil => exact ⟨rfl, (List.append_nil seen).symm ▸ h⟩
  | cons binding bindings ih =>
    have hcount : (countBinding binding report).config = report.config := by
      rw [countBinding]
      cases bindingResult binding <;> rfl
    obtain ⟨hconfig, hof⟩ := ih (h.addBinding binding) (countBinding binding report)
    rw [List.append_assoc, List.singleton_append] at hof
    exact ⟨hconfig.trans hcount, hof⟩

/-- A configuration whose gaps are filled in from bindings, if any has published its own. -/
def StatusConfig.fill (config : StatusConfig) (bindings : List Binding) : StatusConfig :=
  if published bindings = [] then config
  else
    { trustDomain :=
        if config.trustDomain = [] then (publishedConfig bindings).trustDomain
        else config.trustDomain
      clusterSPIFFEIDClassName :=
        if config.clusterSPIFFEIDClassNameKnown then config.clusterSPIFFEIDClassName
        else (publishedConfig bindings).clusterSPIFFEIDClassName
      clusterSPIFFEIDClassNameKnown := true }

/-- Filling in the gaps gives what is published when nothing else was there before. -/
theorem StatusConfig.fill_eq_published_iff (config : StatusConfig) {bindings : List Binding}
    (h : published bindings ≠ []) :
    config.fill bindings = publishedConfig bindings ↔
      (config.trustDomain = [] ∨ config.trustDomain = (publishedConfig bindings).trustDomain) ∧
      (config.clusterSPIFFEIDClassNameKnown = false ∨
        config.clusterSPIFFEIDClassName = (publishedConfig bindings).clusterSPIFFEIDClassName) := by
  rw [StatusConfig.fill, if_neg h]
  constructor
  · intro heq
    have htrust := congrArg StatusConfig.trustDomain heq
    have hclass := congrArg StatusConfig.clusterSPIFFEIDClassName heq
    dsimp only at htrust hclass
    refine ⟨?_, ?_⟩
    · by_cases hnil : config.trustDomain = []
      · exact Or.inl hnil
      · exact Or.inr ((if_neg hnil).symm.trans htrust)
    · cases hknown : config.clusterSPIFFEIDClassNameKnown with
      | false => exact Or.inl rfl
      | true => exact Or.inr ((if_pos hknown).symm.trans hclass)
  · rintro ⟨htrust, hclass⟩
    rw [publishedConfig, StatusConfig.mk.injEq]
    refine ⟨?_, ?_, rfl⟩
    · rcases htrust with hnil | heq
      · exact if_pos hnil
      · exact (ite_eq_left_iff.mpr fun _ => heq)
    · rcases hclass with hunknown | heq
      · rw [hunknown]
        rfl
      · exact ite_eq_right_iff.mpr fun _ => heq

theorem config_fillConfigFromBindingObservations {o : StatusConfigObservations}
    {bindings : List Binding} (h : o.Of bindings) (report : StatusReport) :
    (fillConfigFromBindingObservations o report).config = report.config.fill bindings := by
  obtain ⟨status, version, components, ⟨trustDomain, className, known⟩, summary, findings⟩ := report
  rw [fillConfigFromBindingObservations, StatusConfig.fill]
  by_cases hnone : published bindings = []
  · have htrust : o.trustDomains = [] := by
      rw [List.eq_nil_iff_forall_not_mem]
      exact fun v hv => by simpa [hnone] using (h.3 v).mp hv
    have hclass : o.classNames = [] := by
      rw [List.eq_nil_iff_forall_not_mem]
      exact fun v hv => by simpa [hnone] using (h.4 v).mp hv
    rw [htrust, hclass, if_pos hnone]
    cases trustDomain <;> cases known <;> rfl
  · rw [observedConfigValue_eq h.1 h.3 (by simpa using hnone),
      observedConfigValue_eq h.2 h.4 (by simpa using hnone), if_neg hnone]
    cases trustDomain <;> cases known <;> rfl

theorem config_inspectBindings (bindings : List Binding) (report : StatusReport) :
    (inspectBindings bindings report).config = report.config.fill bindings := by
  have hstart : StatusConfigObservations.Of {} [] :=
    ⟨List.nodup_nil, List.nodup_nil, fun _ => Iff.rfl, fun _ => Iff.rfl⟩
  obtain ⟨hconfig, hof⟩ := scanBindings_spec hstart bindings report
  rw [List.nil_append] at hof
  rw [inspectBindings, config_fillConfigFromBindingObservations hof, hconfig]

/-! ## The report -/

/-- The cluster answers: no lookup fails, bindings are served, and these are the operator's
Deployments and the bindings. -/
structure StatusInspector.Answers (i : StatusInspector) (deployments : List Deployment)
    (bindings : List Binding) : Prop where
  mapping : ∀ gvk err, i.restMapping gvk = .error err → err.kind = .noMatch
  served : i.restMapping bindingGVK = .ok ()
  deployments : i.listDeployments operatorLabels = .ok deployments
  bindings : i.listBindings = .ok bindings

/-- The arguments that the report looks at: those of the operator's container in the first
ready Deployment. -/
def operatorArgs (deployments : List Deployment) : List GoString :=
  match (deployments.find? fun d => d.readyReplicas > 0).bind Deployment.operatorContainer with
  | some container => container.args
  | none => []

theorem config_reportOperator (deployments : List Deployment) {report : StatusReport}
    (h : report.config = {}) :
    (reportOperator deployments report).config = argsConfig (operatorArgs deployments) := by
  have hnone : argsConfig [] = {} := rfl
  cases deployments with
  | nil => exact h.trans hnone.symm
  | cons first rest =>
    rw [reportOperator, operatorArgs]
    cases (first :: rest).find? fun d => d.readyReplicas > 0 with
    | none => exact h.trans hnone.symm
    | some deployment =>
      dsimp only [Option.bind_some]
      rw [fillConfigFromDeployment]
      cases deployment.operatorContainer with
      | none => exact h.trans hnone.symm
      | some container =>
        dsimp only
        refine (congrArg StatusReport.config (fillConfigFromArgs_eq container.args ?_)).trans rfl
        exact h

theorem StatusInspector.Answers.crdAvailable {i : StatusInspector} {deployments : List Deployment}
    {bindings : List Binding} (h : i.Answers deployments bindings) (gvk : GroupVersionKind) :
    ∃ available, i.crdAvailable gvk = .ok available := by
  rw [StatusInspector.crdAvailable]
  cases hmapping : i.restMapping gvk with
  | ok => exact ⟨true, rfl⟩
  | error err =>
    dsimp only
    rw [if_pos (h.mapping gvk err hmapping)]
    exact ⟨false, rfl⟩

theorem StatusInspector.Answers.availableVersions {i : StatusInspector}
    {deployments : List Deployment} {bindings : List Binding} (h : i.Answers deployments bindings)
    (gvks : List GroupVersionKind) : ∃ versions, i.availableVersions gvks = .ok versions := by
  induction gvks with
  | nil => exact ⟨[], rfl⟩
  | cons gvk gvks ih =>
    obtain ⟨available, havailable⟩ := h.crdAvailable gvk
    obtain ⟨versions, hversions⟩ := ih
    rw [StatusInspector.availableVersions, havailable, hversions]
    exact ⟨_, rfl⟩

/-- The CRDs are reported without an error and without a configuration, bindings as served. -/
theorem StatusInspector.Answers.inspectCRDs {i : StatusInspector} {deployments : List Deployment}
    {bindings : List Binding} (h : i.Answers deployments bindings) :
    ∃ report, i.inspectCRDs {} = (report, none) ∧ report.config = {} ∧
      report.components.kleymCRDs.status = .ok := by
  have hserved : i.crdAvailable bindingGVK = .ok true := by
    rw [StatusInspector.crdAvailable, h.served]
  obtain ⟨spire, hspire⟩ := h.crdAvailable clusterSPIFFEIDGVK
  obtain ⟨versions, hversions⟩ := h.availableVersions inferencePoolGVKs
  rw [StatusInspector.inspectCRDs, hserved, hspire, hversions]
  refine ⟨_, rfl, ?_⟩
  rw [reportGAIECRDs, reportSPIRECRDs]
  cases spire <;> split_ifs <;> exact ⟨rfl, rfl⟩

theorem components_fillConfigFromArgs (args : List GoString) (report : StatusReport) :
    (fillConfigFromArgs args report).components = report.components := by
  rw [fillConfigFromArgs]
  dsimp only
  split_ifs <;> rfl

/-- The operator's Deployments leave the report of the CRDs alone. -/
theorem kleymCRDs_reportOperator (deployments : List Deployment) (report : StatusReport) :
    (reportOperator deployments report).components.kleymCRDs = report.components.kleymCRDs := by
  cases deployments with
  | nil => rfl
  | cons first rest =>
    rw [reportOperator]
    cases (first :: rest).find? fun d => d.readyReplicas > 0 with
    | none => rfl
    | some deployment =>
      dsimp only
      rw [fillConfigFromDeployment]
      cases deployment.operatorContainer with
      | none => rfl
      | some container =>
        dsimp only
        rw [components_fillConfigFromArgs]

/-- The configuration in the report is that of the arguments, with its gaps filled in from the
bindings. -/
theorem config_status {i : StatusInspector} {deployments : List Deployment}
    {bindings : List Binding} (h : i.Answers deployments bindings) :
    i.status.1.config = (argsConfig (operatorArgs deployments)).fill bindings := by
  obtain ⟨report, hreport, hconfig, hserved⟩ := h.inspectCRDs
  have hoperator : i.inspectOperator report = (reportOperator deployments report, none) := by
    rw [StatusInspector.inspectOperator, h.deployments]
  have hserved' : (reportOperator deployments report).components.kleymCRDs.status ≠ .error := by
    rw [kleymCRDs_reportOperator, hserved]
    decide
  rw [StatusInspector.status, hreport]
  dsimp only
  rw [hoperator]
  dsimp only
  rw [if_neg hserved', h.bindings]
  dsimp only
  split_ifs <;> rw [← config_reportOperator deployments hconfig, ← config_inspectBindings] <;> rfl

/-- **`kleym status` and the bindings**: once a binding has published its configuration, the
report shows what the bindings have published exactly when the arguments of the operator give no
trust domain or the published one, and neither setting or the published class. Without such a
binding it shows the arguments. -/
theorem status_config_published_iff {i : StatusInspector} {deployments : List Deployment}
    {bindings : List Binding} (h : i.Answers deployments bindings) :
    let args := operatorArgs deployments
    ((∃ b ∈ bindings, b.status.trustDomain ≠ []) →
      (i.status.1.config = publishedConfig bindings ↔
        (firstGiven (trustDomainArgs args) = [] ∨
          firstGiven (trustDomainArgs args) = (publishedConfig bindings).trustDomain) ∧
        (trustDomainArgs args = [] ∧ classNameArgs args = [] ∨
          lastGiven (classNameArgs args) = (publishedConfig bindings).clusterSPIFFEIDClassName))) ∧
    ((∀ b ∈ bindings, b.status.trustDomain = []) → i.status.1.config = argsConfig args) := by
  dsimp only
  rw [config_status h]
  generalize operatorArgs deployments = args
  constructor
  · rintro ⟨b, hb, hpublished⟩
    have hne : published bindings ≠ [] :=
      List.ne_nil_of_mem (List.mem_filter.mpr ⟨hb, decide_eq_true hpublished⟩)
    have hunknown : (argsConfig args).clusterSPIFFEIDClassNameKnown = false ↔
        trustDomainArgs args = [] ∧ classNameArgs args = [] := by
      simp [argsConfig]
    rw [StatusConfig.fill_eq_published_iff _ hne, hunknown]
    rfl
  · intro hall
    have hnil : published bindings = [] := by
      rw [published, List.filter_eq_nil_iff]
      exact fun b hb => by simp [hall b hb]
    rw [StatusConfig.fill, if_pos hnil]

/-- A binding that was rendered with a trust domain. -/
def renderedBinding (trustDomain : GoString) : Binding where
  key := ⟨str "n", str "b"⟩
  uid := str "u"
  resourceVersion := 1
  generation := 1
  deleting := false
  finalizers := []
  spec := ⟨⟨str "p", []⟩, str "s", str "v"⟩
  status := { trustDomain := trustDomain }

/-- A cluster with all CRDs, one ready operator with arguments, and one binding. -/
def publishedCluster (args : List GoString) (trustDomain : GoString) : StatusInspector where
  restMapping _ := .ok ()
  listDeployments _ := .ok [⟨str "s", str "o", none, [⟨str "operator", [], args⟩], 1⟩]
  listBindings := .ok [renderedBinding trustDomain]

theorem answers_publishedCluster (args : List GoString) (trustDomain : GoString) :
    (publishedCluster args trustDomain).Answers
      [⟨str "s", str "o", none, [⟨str "operator", [], args⟩], 1⟩] [renderedBinding trustDomain] :=
  ⟨fun _ _ h => (by cases h), rfl, rfl, rfl⟩

theorem status_config_published_iff_unset :
    (publishedCluster [str "--leader-elect"] (str "t")).status.1.config = ⟨str "t", [], true⟩ :=
  ((status_config_published_iff (answers_publishedCluster [str "--leader-elect"] (str "t"))).1
    ⟨renderedBinding (str "t"), List.mem_singleton_self _, by decide⟩).mpr
    (by decide +kernel)

/-- A binding has been rendered with one trust domain, and the report shows the other. -/
theorem status_config_misleading :
    (publishedCluster [str "--trust-domain=a"] (str "b")).Answers
        [⟨str "s", str "o", none, [⟨str "operator", [], [str "--trust-domain=a"]⟩], 1⟩]
        [renderedBinding (str "b")] ∧
      (publishedConfig [renderedBinding (str "b")]).trustDomain = str "b" ∧
      (publishedCluster [str "--trust-domain=a"] (str "b")).status.1.config.trustDomain = str "a" :=
  ⟨answers_publishedCluster _ _, by decide +kernel, by decide +kernel⟩

end Kleym
