import Kleym.Commands
import Kleym.Configuration
import Kleym.Outcomes

/-!
# What `kleym status` adds up

`kleym status` counts the bindings of a cluster by their conditions, and so does the gauge of the
operator, by another function. On statuses that the operator writes the two agree, and what the
summary has no count for, conflicts, is the rest of its errors. The findings decide the exit code:
it is 0 exactly where everything is served, the operator has a ready replica and no binding has
failed.
-/

namespace Kleym

open GoString Prog

/-! ## Counting bindings -/

/-- The counts of a list of bindings. -/
def tally (bindings : List Binding) : BindingStatusSummary where
  ok := bindings.countP fun b => bindingResult b = .ok
  warning := bindings.countP fun b => bindingResult b = .warning
  error := bindings.countP fun b => bindingResult b = .error
  total := bindings.length
  conditions :=
    { ready := bindings.countP fun b => conditionIsTrue b .ready
      invalidRef := bindings.countP fun b => conditionIsTrue b .invalidRef
      unsafeSelector := bindings.countP fun b => conditionIsTrue b .unsafeSelector
      renderFailure := bindings.countP fun b => conditionIsTrue b .renderFailure }

theorem countCondition_eq (b : Binding) (type : ConditionType) (count : ℕ) :
    countCondition b type count = count + if conditionIsTrue b type then 1 else 0 := by
  rw [countCondition]
  split_ifs <;> rfl

theorem bindingResult_cases (b : Binding) :
    bindingResult b = .ok ∨ bindingResult b = .warning ∨ bindingResult b = .error := by
  rw [bindingResult]
  rcases findStatusCondition b.status.conditions .ready with _ | ready
  · exact Or.inr (Or.inl rfl)
  · rcases hstatus : ready.status <;> simp [hstatus]

/-- Every binding is counted once. -/
theorem total_tally (bindings : List Binding) :
    (tally bindings).total =
      (tally bindings).ok + (tally bindings).warning + (tally bindings).error := by
  dsimp only [tally]
  induction bindings with
  | nil => rfl
  | cons b bindings ih =>
    rcases bindingResult_cases b with hresult | hresult | hresult <;>
      simp [hresult, ih] <;> omega

/-- One more binding. -/
theorem bindings_countBinding {bindings : List Binding} {report : StatusReport}
    (h : report.bindings = tally bindings) (b : Binding) :
    (countBinding b report).bindings = tally (bindings ++ [b]) := by
  rw [countBinding]
  rcases bindingResult_cases b with hresult | hresult | hresult <;>
    simp [hresult, h, tally, addBindingConditionCounts, countCondition_eq, List.countP_cons,
      StatusReport.addFinding, List.countP_append]

/-- The findings about bindings: one for each that has failed. -/
def unhealthyFindings (bindings : List Binding) : List InspectionFinding :=
  (bindings.filter fun b => bindingResult b = .error).map bindingUnhealthyFinding

theorem findings_countBinding (report : StatusReport) (b : Binding) :
    (countBinding b report).findings = report.findings ++ unhealthyFindings [b] := by
  rw [countBinding]
  rcases bindingResult_cases b with hresult | hresult | hresult <;>
    simp [hresult, unhealthyFindings, StatusReport.addFinding]

/-- The loop over the bindings counts them, and finds those that have failed. -/
theorem scanBindings_tally (bindings : List Binding) {seen : List Binding} {report : StatusReport}
    (h : report.bindings = tally seen) (o : StatusConfigObservations) :
    (scanBindings bindings report o).1.bindings = tally (seen ++ bindings) ∧
      (scanBindings bindings report o).1.findings =
        report.findings ++ unhealthyFindings bindings := by
  induction bindings generalizing seen report o with
  | nil => simp [scanBindings, h, unhealthyFindings]
  | cons b bindings ih =>
    obtain ⟨htally, hfindings⟩ := ih (bindings_countBinding h b) (o.addBinding b)
    refine ⟨htally.trans (by rw [List.append_assoc]; rfl), ?_⟩
    rw [scanBindings, hfindings, findings_countBinding, List.append_assoc, unhealthyFindings,
      unhealthyFindings, ← List.map_append, ← List.filter_append]
    rfl

/-- What `inspectBindings` adds to a report without bindings. -/
theorem inspectBindings_tally (bindings : List Binding) {report : StatusReport}
    (h : report.bindings = {}) :
    (inspectBindings bindings report).bindings = tally bindings ∧
      (inspectBindings bindings report).findings =
        report.findings ++ unhealthyFindings bindings := by
  have hnone : report.bindings = tally [] := h.trans rfl
  obtain ⟨htally, hfindings⟩ := scanBindings_tally bindings hnone {}
  rw [List.nil_append] at htally
  rw [← htally, ← hfindings, inspectBindings]
  dsimp only
  generalize scanBindings bindings report {} = x
  rw [fillConfigFromBindingObservations]
  dsimp only
  split <;> split <;> exact ⟨rfl, rfl⟩

/-! ## The gauge -/

/-- The sum of the gauge over labels. -/
def gaugeOf (metrics : List (OutcomeLabels × ℕ)) (p : OutcomeLabels → Bool) : ℕ :=
  ((metrics.filter fun entry => p entry.1).map Prod.snd).sum

theorem gaugeOf_increment (labels : OutcomeLabels) (metrics : List (OutcomeLabels × ℕ))
    (p : OutcomeLabels → Bool) :
    gaugeOf (increment labels metrics) p = gaugeOf metrics p + if p labels then 1 else 0 := by
  induction metrics with
  | nil => cases hp : p labels <;> simp [increment, gaugeOf, hp]
  | cons entry metrics ih =>
    obtain ⟨l, value⟩ := entry
    rw [gaugeOf] at ih
    rw [increment]
    split_ifs with hsame <;> cases hp : p l <;>
      simp_all [gaugeOf, Nat.add_assoc, Nat.add_comm, Nat.add_left_comm]

/-- The gauge counts the bindings with such labels. -/
theorem gaugeOf_collect (bindings : List Binding) (p : OutcomeLabels → Bool) :
    gaugeOf (collect (some (.ok bindings))) p =
      bindings.countP fun b => (deriveBindingOutcomeLabels b.status true).any p := by
  suffices h : ∀ metrics : List (OutcomeLabels × ℕ),
      gaugeOf (bindings.foldl aggregate metrics) p = gaugeOf metrics p +
        bindings.countP fun b => (deriveBindingOutcomeLabels b.status true).any p from
    (h []).trans (Nat.zero_add _)
  induction bindings with
  | nil => exact fun _ => rfl
  | cons b bindings ih =>
    intro metrics
    rw [List.foldl_cons, ih, aggregate, List.countP_cons]
    cases deriveBindingOutcomeLabels b.status true with
    | none => simp
    | some labels =>
      dsimp only
      rw [gaugeOf_increment]
      simp only [Option.any_some]
      omega

/-! ## Summary and gauge -/

section

variable {b : Binding}

theorem conditionIsTrue_iff {t : ConditionType} :
    conditionIsTrue b t = true ↔ b.status.Is t .true_ := by
  rw [conditionIsTrue, Status.is_iff, Option.any_eq_true]
  constructor
  · rintro ⟨c, hfind, htrue⟩
    exact ⟨c, hfind, by simpa using List.find?_some hfind, of_decide_eq_true htrue⟩
  · rintro ⟨c, hfind, -, htrue⟩
    exact ⟨c, hfind, decide_eq_true htrue⟩

/-- Ready is missing, or it is one of three. -/
theorem ready_cases (b : Binding) :
    findStatusCondition b.status.conditions .ready = none ∧ bindingResult b = .warning ∨
    b.status.Is .ready .unknown ∧ bindingResult b = .warning ∨
    b.status.Is .ready .true_ ∧ bindingResult b = .ok ∨
    b.status.Is .ready .false_ ∧ bindingResult b = .error := by
  rw [bindingResult]
  rcases hfind : findStatusCondition b.status.conditions .ready with _ | ready
  · exact Or.inl ⟨rfl, rfl⟩
  · have his : b.status.Is .ready ready.status :=
      Status.is_iff.mpr ⟨ready, hfind, by simpa using List.find?_some hfind, rfl⟩
    rcases hstatus : ready.status <;> rw [hstatus] at his <;> simp [his, hstatus]

theorem bindingResult_eq_ok : bindingResult b = .ok ↔ conditionIsTrue b .ready = true := by
  rw [bindingResult, conditionIsTrue]
  rcases findStatusCondition b.status.conditions .ready with _ | ready
  · simp
  · rcases hstatus : ready.status <;> simp [hstatus]

theorem bindingResult_eq_error : bindingResult b = .error ↔ b.status.Is .ready .false_ := by
  have hother : ∀ {value}, b.status.Is .ready value → b.status.Is .ready .false_ →
      value = .false_ := fun his his' => Option.some.inj (his.symm.trans his')
  rcases ready_cases b with ⟨hnone, hresult⟩ | ⟨hready, hresult⟩ | ⟨hready, hresult⟩ | ⟨hready, hresult⟩
  · refine iff_of_false (by simp [hresult]) fun his => ?_
    obtain ⟨c, hfind, -⟩ := Status.is_iff.mp his
    cases hfind.symm.trans hnone
  · exact iff_of_false (by simp [hresult]) fun his => by cases hother hready his
  · exact iff_of_false (by simp [hresult]) fun his => by cases hother hready his
  · exact iff_of_true hresult hready

/-- How a binding counts in the summary and how in the gauge. -/
structure Binding.CountsAlike (b : Binding) : Prop where
  ok : bindingResult b = .ok ↔
    (deriveBindingOutcomeLabels b.status true).any (· = ⟨.ready, str "Reconciled"⟩) = true
  warning : bindingResult b = .warning ↔
    (deriveBindingOutcomeLabels b.status true).any (· = ⟨.ready, str "Initializing"⟩) = true ∨
      (findStatusCondition b.status.conditions .ready).isNone = true
  error : bindingResult b = .error ↔
    (deriveBindingOutcomeLabels b.status true).any (·.condition ≠ .ready) = true
  failure : ∀ t ∈ failureConditions, conditionIsTrue b t = true ↔
    (deriveBindingOutcomeLabels b.status true).any (·.condition = t) = true
  undecided : (findStatusCondition b.status.conditions .ready).isNone = true →
    deriveBindingOutcomeLabels b.status true = none

theorem Status.Classed.countsAlike (h : b.status.Classed) : b.CountsAlike := by
  have hfound : ∀ value, b.status.Is .ready value →
      (findStatusCondition b.status.conditions .ready).isNone = false := by
    intro value his
    obtain ⟨c, hfind, -⟩ := Status.is_iff.mp his
    rw [hfind]
    rfl
  -- while Ready is not False no failure is True, and the labels are those of Ready
  have hsound : ¬b.status.Is .ready .false_ → (∀ labels ∈ deriveBindingOutcomeLabels b.status true,
      labels.condition = .ready) → ∀ t ∈ failureConditions, conditionIsTrue b t = true ↔
        (deriveBindingOutcomeLabels b.status true).any (·.condition = t) = true := by
    intro hready hlabels t ht
    refine iff_of_false (fun htrue => ?_) fun hany => ?_
    · exact hready (h.ready_false.mpr ⟨t, ht, conditionIsTrue_iff.mp htrue⟩)
    · obtain ⟨labels, hmem, hcondition⟩ := (Option.any_eq_true _ _).mp hany
      rw [← of_decide_eq_true hcondition, hlabels labels hmem] at ht
      exact absurd ht (by decide)
  have hother : ∀ {value value'}, b.status.Is .ready value → b.status.Is .ready value' →
      value = value' := fun his his' => Option.some.inj (his.symm.trans his')
  rcases ready_cases b with ⟨hnone, hresult⟩ | ⟨hready, hresult⟩ | ⟨hready, hresult⟩ | ⟨hready, hresult⟩
  · have hlabels := h.labels_none hnone true
    have hnot : ¬b.status.Is .ready .false_ := fun his => by
      have := hfound _ his
      rw [hnone] at this
      cases this
    refine ⟨?_, ?_, ?_, hsound hnot (by simp [hlabels]), fun _ => hlabels⟩ <;>
      simp [hresult, hlabels, hnone]
  · have hlabels := h.labels_initializing hready
    refine ⟨?_, ?_, ?_, hsound (fun his => ?_) (by simp [hlabels]), by simp [hfound _ hready]⟩
    · simp only [hresult, hlabels]
      decide
    · simp [hresult, hlabels]
    · simp [hresult, hlabels]
    · cases hother hready his
  · have hlabels := h.labels_ready hready true
    refine ⟨?_, ?_, ?_, hsound (fun his => ?_) (by simp [hlabels]), by simp [hfound _ hready]⟩
    · simp [hresult, hlabels]
    · simp only [hresult, hlabels, hfound _ hready]
      decide
    · simp [hresult, hlabels]
    · cases hother hready his
  · obtain ⟨t, ht, hunique, c, hfind, hlabels⟩ := h.labels_failure hready
    have htype : t ≠ .ready := by
      rintro rfl
      exact absurd ht (by decide)
    refine ⟨?_, ?_, ?_, fun t' ht' => ?_, by simp [hfound _ hready]⟩
    · simp [hresult, hlabels true, htype]
    · simp [hresult, hlabels true, htype, hfound _ hready]
    · simp [hresult, hlabels true, htype]
    · rw [conditionIsTrue_iff, hunique t' ht']
      simp [hlabels true, eq_comm]

end

/-- What is counted in two parts. -/
theorem countP_eq_add {α : Type} {p q r : α → Bool} {l : List α}
    (hp : ∀ a ∈ l, p a = true ↔ q a = true ∨ r a = true)
    (hdisjoint : ∀ a ∈ l, ¬(q a = true ∧ r a = true)) : l.countP p = l.countP q + l.countP r := by
  induction l with
  | nil => rfl
  | cons a l ih =>
    rw [List.forall_mem_cons] at hp hdisjoint
    rw [List.countP_cons, List.countP_cons, List.countP_cons, ih hp.2 hdisjoint.2]
    rcases hq : q a <;> rcases hr : r a <;> simp_all <;> omega

/-- A summary says what the gauge says: the bindings that are Ready, those that have failed, and
those that are not decided yet, among them those without a Ready condition, which the gauge does
not have. -/
structure BindingStatusSummary.Agrees (summary : BindingStatusSummary)
    (metrics : List (OutcomeLabels × ℕ)) (bindings : List Binding) : Prop where
  ok : summary.ok = gaugeOf metrics (· = ⟨.ready, str "Reconciled"⟩)
  ready : summary.conditions.ready = summary.ok
  warning : summary.warning = gaugeOf metrics (· = ⟨.ready, str "Initializing"⟩) +
    bindings.countP fun b => (findStatusCondition b.status.conditions .ready).isNone
  error : summary.error = gaugeOf metrics (·.condition ≠ .ready)
  invalidRef : summary.conditions.invalidRef = gaugeOf metrics (·.condition = .invalidRef)
  unsafeSelector :
    summary.conditions.unsafeSelector = gaugeOf metrics (·.condition = .unsafeSelector)
  renderFailure : summary.conditions.renderFailure = gaugeOf metrics (·.condition = .renderFailure)
  length : summary.total = bindings.length
  total : summary.total = summary.ok + summary.warning + summary.error
  /-- what the summary does not count -/
  conflict : summary.error = summary.conditions.invalidRef + summary.conditions.unsafeSelector +
    summary.conditions.renderFailure + gaugeOf metrics (·.condition = .conflict)

/-- Conditions other than Ready are failures. -/
theorem gaugeOf_ne_ready (metrics : List (OutcomeLabels × ℕ)) :
    gaugeOf metrics (·.condition ≠ .ready) =
      gaugeOf metrics (·.condition = .invalidRef) + gaugeOf metrics (·.condition = .unsafeSelector) +
        gaugeOf metrics (·.condition = .renderFailure) + gaugeOf metrics (·.condition = .conflict) := by
  induction metrics with
  | nil => rfl
  | cons entry metrics ih =>
    obtain ⟨⟨condition, reason⟩, value⟩ := entry
    simp only [gaugeOf] at ih
    cases condition <;> simp [gaugeOf] <;> simp at ih <;> omega

theorem tally_agrees {bindings : List Binding} (h : ∀ b ∈ bindings, b.CountsAlike) :
    (tally bindings).Agrees (collect (some (.ok bindings))) bindings := by
  have hfailure : ∀ {t}, t ∈ failureConditions → (bindings.countP fun b => conditionIsTrue b t) =
      gaugeOf (collect (some (.ok bindings))) (·.condition = t) := by
    intro t ht
    rw [gaugeOf_collect]
    exact List.countP_congr fun b hb => (h b hb).failure t ht
  have herror : (tally bindings).error =
      gaugeOf (collect (some (.ok bindings))) (·.condition ≠ .ready) := by
    rw [gaugeOf_collect]
    exact List.countP_congr fun b hb => by rw [decide_eq_true_iff, (h b hb).error]
  refine ⟨?_, ?_, ?_, herror, hfailure (by decide), hfailure (by decide), hfailure (by decide), rfl,
    total_tally bindings, ?_⟩
  · rw [gaugeOf_collect]
    exact List.countP_congr fun b hb => by rw [decide_eq_true_iff, (h b hb).ok]
  · exact List.countP_congr fun b _ => by rw [decide_eq_true_iff, bindingResult_eq_ok]
  · rw [gaugeOf_collect]
    refine countP_eq_add (fun b hb => ?_) fun b hb => ?_
    · rw [decide_eq_true_iff, (h b hb).warning]
    · rintro ⟨hlabels, hnone⟩
      rw [(h b hb).undecided hnone] at hlabels
      cases hlabels
  · rw [herror, gaugeOf_ne_ready]
    dsimp only [tally]
    rw [hfailure (by decide), hfailure (by decide), hfailure (by decide)]

/-! ## The report as it is made -/

section

variable {i : StatusInspector} {report : StatusReport}

/-- A kind is looked up without an error other than that it is not served. -/
def StatusInspector.Resolves (i : StatusInspector) (gvk : GroupVersionKind) : Prop :=
  ∀ err, i.restMapping gvk = .error err → err.kind = .noMatch

/-- A kind is served. -/
def StatusInspector.Serves (i : StatusInspector) (gvk : GroupVersionKind) : Prop :=
  i.restMapping gvk = .ok ()

/-- Everything that a report needs can be read. Bindings are listed only where they are served. -/
structure StatusInspector.Readable (i : StatusInspector) : Prop where
  mapping : ∀ gvk ∈ bindingGVK :: clusterSPIFFEIDGVK :: inferencePoolGVKs, i.Resolves gvk
  deployments : ∃ deployments, i.listDeployments operatorLabels = .ok deployments
  bindings : i.Serves bindingGVK → ∃ bindings, i.listBindings = .ok bindings

/-- An installation without a fault: every CRD is there, the operator has a ready replica, and no
binding has failed. -/
structure StatusInspector.Healthy (i : StatusInspector) : Prop where
  binding : i.Serves bindingGVK
  spire : i.Serves clusterSPIFFEIDGVK
  pool : ∃ gvk ∈ inferencePoolGVKs, i.Serves gvk
  operator : ∃ deployments, i.listDeployments operatorLabels = .ok deployments ∧
    ∃ d ∈ deployments, d.readyReplicas > 0
  bindings : ∃ bindings, i.listBindings = .ok bindings ∧
    ∀ b ∈ bindings, ¬b.status.Is .ready .false_

/-- The message of the report's own error starts with another letter than those of lookups. -/
theorem ne_errStatusReportErrorFindings {err : GoError} (h : err.message.head? ≠ some 115) :
    err ≠ errStatusReportErrorFindings := by
  rintro rfl
  exact h (by decide)

theorem crdAvailable_cases (i : StatusInspector) (gvk : GroupVersionKind) :
    (∃ available, i.crdAvailable gvk = .ok available ∧ (available = true ↔ i.Serves gvk) ∧
      i.Resolves gvk) ∨
    (∃ err, i.crdAvailable gvk = .error err ∧ err ≠ errStatusReportErrorFindings) ∧
      ¬i.Resolves gvk := by
  rw [StatusInspector.crdAvailable, StatusInspector.Serves, StatusInspector.Resolves]
  rcases i.restMapping gvk with err | ⟨⟩
  · by_cases hkind : err.kind = .noMatch
    · simp [hkind]
    · refine Or.inr ⟨⟨_, if_neg hkind, ?_⟩, fun hall => hkind (hall err rfl)⟩
      have hhead : (str "resolve REST mapping for ").head? = some 114 := by decide
      exact ne_errStatusReportErrorFindings (by simp [hhead])
  · simp

theorem availableVersions_cases (i : StatusInspector) (gvks : List GroupVersionKind) :
    (∃ versions, i.availableVersions gvks = .ok versions ∧
      (versions.length > 0 ↔ ∃ gvk ∈ gvks, i.Serves gvk) ∧ ∀ gvk ∈ gvks, i.Resolves gvk) ∨
    (∃ err, i.availableVersions gvks = .error err ∧ err ≠ errStatusReportErrorFindings) ∧
      ¬∀ gvk ∈ gvks, i.Resolves gvk := by
  induction gvks with
  | nil => exact Or.inl ⟨[], rfl, by simp, by simp⟩
  | cons gvk gvks ih =>
    rw [StatusInspector.availableVersions]
    rcases crdAvailable_cases i gvk with ⟨available, havailable, hserves, hresolves⟩ |
      ⟨⟨err, herr, hne⟩, hnot⟩
    · rw [havailable]
      rcases ih with ⟨versions, hversions, hsome, hall⟩ | ⟨⟨err, herr, hne⟩, hnot⟩
      · rw [hversions]
        refine Or.inl ⟨_, rfl, ?_, List.forall_mem_cons.mpr ⟨hresolves, hall⟩⟩
        cases available <;> simp_all
      · rw [herr]
        exact Or.inr ⟨⟨err, rfl, hne⟩, fun hall => hnot (List.forall_mem_cons.mp hall).2⟩
    · rw [herr]
      exact Or.inr ⟨⟨err, rfl, hne⟩, fun hall => hnot (List.forall_mem_cons.mp hall).1⟩

theorem errors_reportKleymCRDs (available : Bool) (report : StatusReport) :
    hasErrorSeverityFinding (reportKleymCRDs available report).findings =
      (hasErrorSeverityFinding report.findings || !available) := by
  cases available
  · exact hasErrorSeverityFinding_append _ _
  · exact (Bool.or_false _).symm

theorem errors_reportSPIRECRDs (available : Bool) (report : StatusReport) :
    hasErrorSeverityFinding (reportSPIRECRDs available report).findings =
      (hasErrorSeverityFinding report.findings || !available) := by
  cases available
  · exact hasErrorSeverityFinding_append _ _
  · exact (Bool.or_false _).symm

theorem errors_reportGAIECRDs (versions : List GoString) (report : StatusReport) :
    hasErrorSeverityFinding (reportGAIECRDs versions report).findings =
      (hasErrorSeverityFinding report.findings || !decide (versions.length > 0)) := by
  rw [reportGAIECRDs]
  split_ifs with h
  · simp [h]
  · rw [decide_eq_false h]
    exact hasErrorSeverityFinding_append _ _

/-- The other CRDs are not the bindings'. -/
theorem frame_reportSPIRECRDs (available : Bool) (report : StatusReport) :
    (reportSPIRECRDs available report).bindings = report.bindings ∧
      (reportSPIRECRDs available report).components.kleymCRDs = report.components.kleymCRDs := by
  cases available <;> exact ⟨rfl, rfl⟩

theorem frame_reportGAIECRDs (versions : List GoString) (report : StatusReport) :
    (reportGAIECRDs versions report).bindings = report.bindings ∧
      (reportGAIECRDs versions report).components.kleymCRDs = report.components.kleymCRDs := by
  rw [reportGAIECRDs]
  split_ifs <;> exact ⟨rfl, rfl⟩

theorem findings_fillConfigFromDeployment (deployment : Deployment) (report : StatusReport) :
    (fillConfigFromDeployment deployment report).findings = report.findings ∧
      (fillConfigFromDeployment deployment report).bindings = report.bindings := by
  rw [fillConfigFromDeployment]
  cases deployment.operatorContainer with
  | none => exact ⟨rfl, rfl⟩
  | some container =>
    dsimp only
    rw [fillConfigFromArgs]
    dsimp only
    split_ifs <;> exact ⟨rfl, rfl⟩

/-- The operator is found faulty unless a Deployment has a ready replica. -/
theorem errors_reportOperator (deployments : List Deployment) (report : StatusReport) :
    hasErrorSeverityFinding (reportOperator deployments report).findings =
        (hasErrorSeverityFinding report.findings ||
          !deployments.any fun d => d.readyReplicas > 0) ∧
      (reportOperator deployments report).bindings = report.bindings := by
  cases deployments with
  | nil => exact ⟨hasErrorSeverityFinding_append _ _, rfl⟩
  | cons first rest =>
    rw [reportOperator]
    cases hfind : (first :: rest).find? fun d => d.readyReplicas > 0 with
    | none =>
      have hnone : ((first :: rest).any fun d => d.readyReplicas > 0) = false := by
        rw [List.any_eq_false]
        exact List.find?_eq_none.mp hfind
      rw [hnone]
      exact ⟨hasErrorSeverityFinding_append _ _, rfl⟩
    | some deployment =>
      have hsome : ((first :: rest).any fun d => d.readyReplicas > 0) = true :=
        List.any_eq_true.mpr
          ⟨deployment, List.mem_of_find?_eq_some hfind, by have := List.find?_some hfind; exact this⟩
      obtain ⟨hfindings, hbindings⟩ := findings_fillConfigFromDeployment deployment
        { report with components.operator := operatorStatusFromDeployment deployment .ok [] }
      dsimp only
      rw [hfindings, hbindings, hsome]
      exact ⟨(Bool.or_false _).symm, rfl⟩

theorem errors_unhealthyFindings (bindings : List Binding) :
    hasErrorSeverityFinding (unhealthyFindings bindings) =
      bindings.any fun b => bindingResult b = .error := by
  have hseverity : ∀ b, (bindingUnhealthyFinding b).severity = .error := by
    intro b
    rw [bindingUnhealthyFinding]
    cases findStatusCondition b.status.conditions .ready <;> rfl
  rw [hasErrorSeverityFinding, unhealthyFindings, List.any_map, List.any_filter]
  simp [hseverity]

/-- How `kleym status` comes out: something cannot be read, bindings are not served, or they are
counted and the findings tell whether the installation is healthy. -/
inductive StatusOutcome (i : StatusInspector) : StatusReport × Option GoError → Prop
  | unread {report : StatusReport} {err : GoError} (hunread : ¬i.Readable)
      (herr : err ≠ errStatusReportErrorFindings) : StatusOutcome i (report, some err)
  | unserved {report : StatusReport} (hreadable : i.Readable) (hserves : ¬i.Serves bindingGVK) :
      StatusOutcome i (report, some errStatusReportErrorFindings)
  | unhealthy {report : StatusReport} {bindings : List Binding} (hreadable : i.Readable)
      (hlist : i.listBindings = .ok bindings) (htally : report.bindings = tally bindings)
      (hunhealthy : ¬i.Healthy) : StatusOutcome i (report, some errStatusReportErrorFindings)
  | healthy {report : StatusReport} {bindings : List Binding} (hreadable : i.Readable)
      (hlist : i.listBindings = .ok bindings) (htally : report.bindings = tally bindings)
      (hhealthy : i.Healthy) : StatusOutcome i (report, none)

/-- The report of the CRDs, with what it says about each. -/
theorem inspectCRDs_cases (i : StatusInspector) :
    ((∃ report err, i.inspectCRDs {} = (report, some err) ∧ err ≠ errStatusReportErrorFindings) ∧
      ¬i.Readable) ∨
    (∃ report, i.inspectCRDs {} = (report, none) ∧ report.bindings = {} ∧
      (report.components.kleymCRDs.status = .error ↔ ¬i.Serves bindingGVK) ∧
      (hasErrorSeverityFinding report.findings = false ↔ i.Serves bindingGVK ∧
        i.Serves clusterSPIFFEIDGVK ∧ ∃ gvk ∈ inferencePoolGVKs, i.Serves gvk)) ∧
      ∀ gvk ∈ bindingGVK :: clusterSPIFFEIDGVK :: inferencePoolGVKs, i.Resolves gvk := by
  rw [StatusInspector.inspectCRDs]
  rcases crdAvailable_cases i bindingGVK with ⟨kleym, hkleym, hkleymServes, hkleymResolves⟩ |
    ⟨⟨err, herr, hne⟩, hnot⟩
  · rcases crdAvailable_cases i clusterSPIFFEIDGVK with ⟨spire, hspire, hspireServes, hspireResolves⟩ |
      ⟨⟨err, herr, hne⟩, hnot⟩
    · rcases availableVersions_cases i inferencePoolGVKs with
        ⟨versions, hversions, hgaieServes, hgaieResolves⟩ | ⟨⟨err, herr, hne⟩, hnot⟩
      · rw [hkleym, hspire, hversions]
        refine Or.inr ⟨⟨_, rfl, ?_, ?_, ?_⟩, ?_⟩
        · rw [(frame_reportGAIECRDs _ _).1, (frame_reportSPIRECRDs _ _).1]
          cases kleym <;> rfl
        · rw [(frame_reportGAIECRDs _ _).2, (frame_reportSPIRECRDs _ _).2, ← hkleymServes]
          cases kleym <;> simp [reportKleymCRDs, StatusReport.addFinding]
        · rw [errors_reportGAIECRDs, errors_reportSPIRECRDs, errors_reportKleymCRDs, ← hkleymServes,
            ← hspireServes, ← hgaieServes]
          simp [hasErrorSeverityFinding, and_assoc]
        · exact List.forall_mem_cons.mpr ⟨hkleymResolves, List.forall_mem_cons.mpr
            ⟨hspireResolves, hgaieResolves⟩⟩
      · rw [hkleym, hspire, herr]
        refine Or.inl ⟨⟨_, err, rfl, hne⟩, fun hreadable => hnot fun gvk hgvk => ?_⟩
        exact hreadable.mapping gvk (List.mem_cons_of_mem _ (List.mem_cons_of_mem _ hgvk))
    · rw [hkleym, herr]
      exact Or.inl ⟨⟨_, err, rfl, hne⟩, fun hreadable =>
        hnot (hreadable.mapping _ (List.mem_cons_of_mem _ List.mem_cons_self))⟩
  · rw [herr]
    exact Or.inl ⟨⟨_, err, rfl, hne⟩, fun hreadable =>
      hnot (hreadable.mapping _ List.mem_cons_self)⟩

theorem outcome_status (i : StatusInspector) : StatusOutcome i i.status := by
  rw [StatusInspector.status]
  rcases inspectCRDs_cases i with ⟨⟨report, err, hcrds, hne⟩, hunread⟩ |
    ⟨⟨report, hcrds, hempty, hstatus, hserved⟩, hresolves⟩
  · rw [hcrds]
    exact .unread hunread hne
  rw [hcrds]
  dsimp only
  rw [StatusInspector.inspectOperator]
  rcases hlist : i.listDeployments operatorLabels with err | deployments
  · refine .unread (fun hreadable => ?_) ?_
    · obtain ⟨deployments, hok⟩ := hreadable.deployments
      cases hlist.symm.trans hok
    · have hhead : (str "list Kleym operator deployments: ").head? = some 108 := by decide
      exact ne_errStatusReportErrorFindings (by simp [hhead])
  dsimp only
  obtain ⟨herrors, hbindings⟩ := errors_reportOperator deployments report
  rw [kleymCRDs_reportOperator]
  split_ifs with hmissing
  · exact .unserved ⟨hresolves, ⟨deployments, hlist⟩, fun hserves =>
      absurd hserves (hstatus.mp hmissing)⟩ (hstatus.mp hmissing)
  have hserves : i.Serves bindingGVK := not_not.mp (mt hstatus.mpr hmissing)
  rcases hread : i.listBindings with err | bindings
  · refine .unread (fun hreadable => ?_) ?_
    · obtain ⟨bindings, hok⟩ := hreadable.bindings hserves
      cases hread.symm.trans hok
    · have hhead : (str "list InferenceIdentityBindings: ").head? = some 108 := by decide
      exact ne_errStatusReportErrorFindings (by simp [hhead])
  dsimp only
  have hreadable : i.Readable := ⟨hresolves, ⟨deployments, hlist⟩, fun _ => ⟨bindings, hread⟩⟩
  obtain ⟨htally, hfindings⟩ := inspectBindings_tally bindings (hbindings.trans hempty)
  have hhealthy : hasErrorSeverityFinding
      (finishStatusReport (inspectBindings bindings (reportOperator deployments report))).findings =
        false ↔ i.Healthy := by
    have hsum : hasErrorSeverityFinding (finishStatusReport
        (inspectBindings bindings (reportOperator deployments report))).findings =
          ((hasErrorSeverityFinding report.findings ||
            !deployments.any fun d => d.readyReplicas > 0) ||
            bindings.any fun b => bindingResult b = .error) := by
      rw [← herrors, ← errors_unhealthyFindings, ← hasErrorSeverityFinding_append, ← hfindings]
      rfl
    rw [hsum, Bool.or_eq_false_iff, Bool.or_eq_false_iff, hserved]
    constructor
    · rintro ⟨⟨⟨hbinding, hspire, hpool⟩, hoperator⟩, hsound⟩
      refine ⟨hbinding, hspire, hpool, ⟨deployments, hlist, ?_⟩, bindings, hread, ?_⟩
      · simpa using hoperator
      · simpa [bindingResult_eq_error] using hsound
    · rintro ⟨hbinding, hspire, hpool, ⟨_, hlist', hoperator⟩, _, hread', hsound⟩
      cases hlist.symm.trans hlist'
      cases hread.symm.trans hread'
      refine ⟨⟨⟨hbinding, hspire, hpool⟩, ?_⟩, ?_⟩
      · simpa using hoperator
      · simpa [bindingResult_eq_error] using hsound
  split_ifs with hfinding
  · exact .unhealthy hreadable hread htally fun hhealthy' => by
      rw [hhealthy.mpr hhealthy'] at hfinding
      cases hfinding
  · exact .healthy hreadable hread htally (hhealthy.mp (Bool.eq_false_of_not_eq_true hfinding))

theorem bindings_status {bindings : List Binding} (hreadable : i.Readable)
    (hserves : i.Serves bindingGVK) (hlist : i.listBindings = .ok bindings) :
    i.status.1.bindings = tally bindings := by
  generalize hstatus : i.status = x
  have houtcome := outcome_status i
  rw [hstatus] at houtcome
  cases houtcome with
  | unread hunread => exact absurd hreadable hunread
  | unserved _ hunserved => exact absurd hserves hunserved
  | unhealthy _ hlist' htally | healthy _ hlist' htally =>
    cases hlist.symm.trans hlist'
    exact htally

end

/-- **`kleym status` counts as the gauge does.** In every state that the operator and its users can
reach, whichever versions of the bindings the list call returns, the summary of the report and the
gauge over the same list agree: the bindings that are Ready, those that have failed, in all and by
condition, and those that are not decided. Conflicts, for which the summary has no count, are what
its errors have besides the three that it counts. -/
theorem status_summary_agrees {r : Reconciler} {S : Setting} {s : SystemState} (hS : S.Honest)
    (h : Reachable r S s) {i : StatusInspector} {bindings : List Binding} (hreadable : i.Readable)
    (hserves : i.Serves bindingGVK) (hlist : i.listBindings = .ok bindings)
    (hstored : ∀ b ∈ bindings, b ∈ s.world.bindingVersions) :
    i.status.1.bindings.Agrees (collect (some (.ok bindings))) bindings := by
  rw [bindings_status hreadable hserves hlist]
  exact tally_agrees fun b hb => ((h.outcomeInv hS).classed b (hstored b hb)).countsAlike

/-- An installation where everything is served, with these bindings. -/
def fullInstallation (bindings : List Binding) : StatusInspector where
  restMapping _ := .ok ()
  listDeployments _ := .ok []
  listBindings := .ok bindings

theorem readable_fullInstallation (bindings : List Binding) : (fullInstallation bindings).Readable :=
  ⟨fun _ _ _ h => (by cases h), ⟨[], rfl⟩, fun _ => ⟨bindings, rfl⟩⟩

/-- Over all versions of a binding that has become Ready the two count the same. -/
theorem status_summary_agrees_versions : ∃ s, Reachable trialReconciler busySetting s ∧
    ∃ bindings, bindings.any (fun b => bindingResult b = .ok) = true ∧
      bindings.any (fun b => bindingResult b = .warning) = true ∧
      (fullInstallation bindings).status.1.bindings.Agrees (collect (some (.ok bindings))) bindings := by
  obtain ⟨s, hs, htest⟩ := exists_reachable (r := trialReconciler) (S := busySetting) trialReady
    (fun s => s.world.bindingVersions.any (fun b => bindingResult b = .ok) &&
      s.world.bindingVersions.any fun b => bindingResult b = .warning) (by decide +kernel)
  rw [Bool.and_eq_true] at htest
  exact ⟨s, hs, s.world.bindingVersions, htest.1, htest.2, status_summary_agrees (S := busySetting)
    rfl hs (readable_fullInstallation _) rfl rfl fun _ hb => hb⟩

/-! ## The exit code -/

section

variable {h : CliHost} {opts : CliOptions} {args : List GoString}

/-- A command line that leads to a report. -/
structure CliHost.AcceptsStatus (h : CliHost) (opts : CliOptions) (args : List GoString) : Prop where
  args : args = []
  options : h.validateStatusOptions opts = none
  client : h.connect opts = none

theorem statusCommand_cases (h : CliHost) (opts : CliOptions) (args : List GoString) :
    (h.AcceptsStatus opts args ∧ h.statusCommand opts args =
      h.finishStatus opts h.status.1 h.status.2) ∨
    (¬h.AcceptsStatus opts args ∧ ∃ message, h.statusCommand opts args = .fails exitUsage message) := by
  rcases args with _ | ⟨arg, args⟩
  · rw [CliHost.statusCommand]
    rcases hvalid : h.validateStatusOptions opts with _ | message
    · dsimp only
      rcases hclient : h.connect opts with _ | message
      · exact Or.inl ⟨⟨rfl, hvalid, hclient⟩, rfl⟩
      · refine Or.inr ⟨fun haccepts => ?_, message, rfl⟩
        cases hclient.symm.trans haccepts.client
    · refine Or.inr ⟨fun haccepts => ?_, message, rfl⟩
      cases hvalid.symm.trans haccepts.options
  · exact Or.inr ⟨fun haccepts => (by cases haccepts.args), _, rfl⟩

theorem CliHost.AcceptsStatus.validOutput (haccepts : h.AcceptsStatus opts args) :
    isValidOutputFormat opts.output = true := by
  have hvalid := haccepts.options
  rw [CliHost.validateStatusOptions] at hvalid
  by_contra hnot
  rw [if_pos (by simpa using hnot)] at hvalid
  cases hvalid

/-- The report of `kleym status` as it is put out. -/
def CliHost.statusOutput (h : CliHost) (opts : CliOptions) (report : StatusReport) :
    Except GoString GoString :=
  let report := { report with cliVersion := h.version }
  formatted opts.output (statusReportText report) (h.encodeStatus report)

/-- A report that is written goes with one of two codes. -/
theorem statusExitCode_cases {err : Option GoError} (hwrite : shouldWriteStatusReport err = true) :
    statusExitCode err = (exitOK, none) ∨ ∃ message,
      statusExitCode err = (exitInspectionIssue, some message) := by
  rcases err with _ | err
  · exact Or.inl rfl
  · exact Or.inr ⟨_, if_pos (of_decide_eq_true hwrite)⟩

/-- The end of a command whose report is to be written: with the code of the report and with the
report, unless it cannot be written. -/
theorem finishStatus_cases (hvalid : isValidOutputFormat opts.output = true)
    (report : StatusReport) {err : Option GoError} (hwrite : shouldWriteStatusReport err = true) :
    let exit := (h.finishStatus opts report err).exit
    (exit.code = exitInternal ∧ exit.stdout = [] ∧ ¬h.Writable (h.statusOutput opts report)) ∨
    (exit.code = (statusExitCode err).1 ∧ h.statusOutput opts report = .ok exit.stdout ∧
      h.write exit.stdout = none) := by
  have hcode : ∀ stdout, (CommandResult.mk stdout (withExitCode (statusExitCode err).1
      (statusExitCode err).2)).exit.code = (statusExitCode err).1 := by
    intro stdout
    refine code_exit fun hnone => ?_
    rcases statusExitCode_cases hwrite with hok | ⟨message, hissue⟩
    · rw [hok]
    · rw [hissue] at hnone
      cases hnone
  simp only [CliHost.finishStatus, hwrite, Bool.not_true, Bool.false_eq_true, if_false]
  rcases writeReport_cases (h := h) (str "status")
    (statusReportText { report with cliVersion := h.version }) hvalid with
    ⟨written, hwritten, houtput, hnone⟩ | ⟨⟨message, hfails⟩, hunwritable⟩
  · rw [hwritten, stdout_exit]
    exact Or.inr ⟨hcode written, houtput, hnone⟩
  · rw [hfails]
    exact Or.inl ⟨rfl, rfl, hunwritable⟩

/-- How the exit code of `kleym status` and what it writes go together with the installation. -/
structure StatusExit (h : CliHost) (opts : CliOptions) (args : List GoString) (exit : Exit) :
    Prop where
  usage : exit.code = exitUsage ↔ ¬(h.AcceptsStatus opts args ∧ h.Readable)
  internal : exit.code = exitInternal ↔ h.AcceptsStatus opts args ∧ h.Readable ∧
    ¬h.Writable (h.statusOutput opts h.status.1)
  ok : exit.code = exitOK ↔ h.AcceptsStatus opts args ∧ h.Readable ∧
    h.Writable (h.statusOutput opts h.status.1) ∧ h.Healthy
  issue : exit.code = exitInspectionIssue ↔ h.AcceptsStatus opts args ∧ h.Readable ∧
    h.Writable (h.statusOutput opts h.status.1) ∧ ¬h.Healthy
  silent : exit.code = exitUsage ∨ exit.code = exitInternal → exit.stdout = []
  written : exit.code = exitOK ∨ exit.code = exitInspectionIssue →
    h.statusOutput opts h.status.1 = .ok exit.stdout ∧ h.write exit.stdout = none

/-- A command that ends before there is a report. -/
theorem StatusExit.of_usage {exit : Exit} (hcode : exit.code = exitUsage) (hstdout : exit.stdout = [])
    (hnot : ¬(h.AcceptsStatus opts args ∧ h.Readable)) : StatusExit h opts args exit := by
  have hno : ∀ {p : Prop}, ¬(h.AcceptsStatus opts args ∧ h.Readable ∧ p) :=
    fun hall => hnot ⟨hall.1, hall.2.1⟩
  constructor <;> rw [hcode]
  · exact iff_of_true rfl hnot
  · exact iff_of_false (by decide) hno
  · exact iff_of_false (by decide) hno
  · exact iff_of_false (by decide) hno
  · exact fun _ => hstdout
  · exact fun hor => absurd hor (by decide)

/-- A command whose report is to be written. -/
theorem StatusExit.of_report (haccepts : h.AcceptsStatus opts args) (hreadable : h.Readable)
    (hwrite : shouldWriteStatusReport h.status.2 = true)
    (hcode : (h.Healthy ∧ (statusExitCode h.status.2).1 = exitOK) ∨
      (¬h.Healthy ∧ (statusExitCode h.status.2).1 = exitInspectionIssue)) :
    StatusExit h opts args (h.finishStatus opts h.status.1 h.status.2).exit := by
  have hboth : h.AcceptsStatus opts args ∧ h.Readable := ⟨haccepts, hreadable⟩
  rcases finishStatus_cases (h := h) haccepts.validOutput h.status.1 hwrite with
    ⟨hinternal, hstdout, hunwritable⟩ | ⟨hreport, houtput, hwritten⟩
  · constructor <;> rw [hinternal]
    · exact iff_of_false (by decide) (not_not.mpr hboth)
    · exact iff_of_true rfl ⟨haccepts, hreadable, hunwritable⟩
    · exact iff_of_false (by decide) fun hall => hunwritable hall.2.2.1
    · exact iff_of_false (by decide) fun hall => hunwritable hall.2.2.1
    · exact fun _ => hstdout
    · exact fun hor => absurd hor (by decide)
  · have hwritable : h.Writable (h.statusOutput opts h.status.1) := ⟨_, houtput, hwritten⟩
    rcases hcode with ⟨hhealthy, hcode⟩ | ⟨hunhealthy, hcode⟩
    all_goals constructor <;> rw [hreport, hcode]
    · exact iff_of_false (by decide) (not_not.mpr hboth)
    · exact iff_of_false (by decide) fun hall => hall.2.2 hwritable
    · exact iff_of_true rfl ⟨haccepts, hreadable, hwritable, hhealthy⟩
    · exact iff_of_false (by decide) fun hall => hall.2.2.2 hhealthy
    · exact fun hor => absurd hor (by decide)
    · exact fun _ => ⟨houtput, hwritten⟩
    · exact iff_of_false (by decide) (not_not.mpr hboth)
    · exact iff_of_false (by decide) fun hall => hall.2.2 hwritable
    · exact iff_of_false (by decide) fun hall => hunhealthy hall.2.2.2
    · exact iff_of_true rfl ⟨haccepts, hreadable, hwritable, hunhealthy⟩
    · exact fun hor => absurd hor (by decide)
    · exact fun _ => ⟨houtput, hwritten⟩

/-- **The exit code of `kleym status`.** Once everything could be read and the report written, it is
0 for an installation without a fault and 2 for one with a fault; 5 says that this very report
cannot be written, and 4 that there is none. The report is written with 0 and 2, in the format that
was asked for, and with no other code. -/
theorem status_exit_code {σ : Type} (answer : (c : Call) → σ → Answer c × σ) (s : σ) (h : CliHost)
    (flags : CliFlags) (args : List GoString) :
    StatusExit h flags.options args (exec answer (h.execute (.status flags args)) s).1 := by
  change StatusExit h flags.options args (h.statusCommand flags.options args).exit
  rcases statusCommand_cases h flags.options args with ⟨haccepts, heq⟩ | ⟨hrefused, message, heq⟩
  · rw [heq]
    have hreport := StatusExit.of_report haccepts
    have houtcome := outcome_status h.toStatusInspector
    generalize hx : h.status = x at houtcome hreport
    cases houtcome with
    | unread hunread herr =>
      refine .of_usage ?_ ?_ fun hboth => hunread hboth.2
      all_goals simp [CliHost.finishStatus, shouldWriteStatusReport, herr, statusExitCode,
        withExitCode, CommandResult.exit, codeForError]
    | unserved hreadable hserves =>
      exact hreport hreadable rfl (Or.inr ⟨fun hhealthy => hserves hhealthy.binding, rfl⟩)
    | unhealthy hreadable _ _ hunhealthy => exact hreport hreadable rfl (Or.inr ⟨hunhealthy, rfl⟩)
    | healthy hreadable _ _ hhealthy => exact hreport hreadable rfl (Or.inl ⟨hhealthy, rfl⟩)
  · rw [heq]
    exact .of_usage rfl rfl fun hboth => hrefused hboth.1

end

end Kleym
