import Mathlib.Logic.Function.Basic
import Kleym.Reconcile

/-!
# The status contract

`Status.Taxonomic` is the contract of a persisted status: which conditions may be
set together and with which reasons, and how the rendered fields and the conflicts go
with them. The functions that compute a status set all five conditions, so what they
return is described by one function from condition types to verdicts, and whether it
meets the contract does not depend on the status they start from.
-/

namespace Kleym

open GoString

/-! ## Reading conditions -/

/-- A condition without its type and its generation. -/
structure Verdict where
  status : ConditionStatus
  reason : Reason
  message : GoString
  deriving DecidableEq

/-- What a condition says. -/
def Condition.verdict (c : Condition) : Verdict := ⟨c.status, c.reason, c.message⟩

/-- What a status says under a condition type. -/
def Status.verdict (status : Status) (type : ConditionType) : Option Verdict :=
  (findStatusCondition status.conditions type).map Condition.verdict

/-- A condition of a status has this value. -/
def Status.Is (status : Status) (type : ConditionType) (value : ConditionStatus) : Prop :=
  (status.verdict type).map Verdict.status = some value

instance (status : Status) (type : ConditionType) (value : ConditionStatus) :
    Decidable (status.Is type value) := inferInstanceAs (Decidable (_ = _))

theorem findStatusCondition_setStatusCondition (l : List Condition) (new : Condition)
    (type : ConditionType) :
    findStatusCondition (setStatusCondition l new) type =
      if type = new.type then some new else findStatusCondition l type := by
  induction l with
  | nil =>
    by_cases h : type = new.type
    · simp [setStatusCondition, findStatusCondition, h]
    · simp [setStatusCondition, findStatusCondition, h, Ne.symm h]
  | cons c l ih =>
    rw [setStatusCondition]
    simp only [findStatusCondition] at ih ⊢
    by_cases hc : c.type = new.type
    · by_cases h : type = new.type
      · simp [hc, h]
      · simp [hc, h, Ne.symm h]
    · rw [if_neg hc, List.find?_cons, ih, List.find?_cons]
      by_cases h : type = new.type
      · simp [h, hc]
      · by_cases hct : c.type = type <;> simp [h, hct]

/-- The types of the conditions, after one is set. -/
theorem map_type_setStatusCondition (l : List Condition) (new : Condition) :
    (setStatusCondition l new).map Condition.type =
      if new.type ∈ l.map Condition.type then l.map Condition.type
      else l.map Condition.type ++ [new.type] := by
  induction l with
  | nil => simp [setStatusCondition]
  | cons c l ih =>
    rw [setStatusCondition]
    by_cases hc : c.type = new.type
    · simp [hc]
    · rw [if_neg hc, List.map_cons, ih]
      have hmem : new.type ∈ (c :: l).map Condition.type ↔ new.type ∈ l.map Condition.type := by
        simp [Ne.symm hc]
      by_cases h : new.type ∈ l.map Condition.type
      · rw [if_pos h, if_pos (hmem.mpr h), List.map_cons]
      · rw [if_neg h, if_neg (mt hmem.mp h), List.map_cons, List.cons_append]

theorem nodup_setStatusCondition {l : List Condition} (h : (l.map Condition.type).Nodup)
    (new : Condition) : ((setStatusCondition l new).map Condition.type).Nodup := by
  rw [map_type_setStatusCondition]
  split_ifs with hmem
  · exact h
  · rw [← List.concat_eq_append]
    exact h.concat hmem

@[simp] theorem verdict_setCondition (status : Status) (generation : ℕ) (type : ConditionType)
    (value : ConditionStatus) (reason : Reason) (message : GoString) :
    (setCondition status generation type value reason message).verdict =
      Function.update status.verdict type (some ⟨value, reason, message⟩) := by
  funext t
  rw [Status.verdict, setCondition, findStatusCondition_setStatusCondition, Function.update_apply]
  split_ifs <;> rfl

@[simp] theorem verdict_setResolved (status : Status) (generation : ℕ) (type : ConditionType) :
    (setResolved status generation type).verdict =
      Function.update status.verdict type (some ⟨.false_, .resolved, resolvedMessage type⟩) :=
  verdict_setCondition status generation type .false_ .resolved _

/-- Where types are unique, a listed condition is the one that is found. -/
theorem verdict_of_mem {status : Status} (h : (status.conditions.map Condition.type).Nodup)
    {c : Condition} (hc : c ∈ status.conditions) : status.verdict c.type = some c.verdict := by
  rw [Status.verdict]
  rcases hfind : findStatusCondition status.conditions c.type with _ | c'
  · have := List.find?_eq_none.mp hfind c hc
    simp at this
  · have htype : c'.type = c.type := by simpa using List.find?_some hfind
    rw [List.inj_on_of_nodup_map h (List.mem_of_find?_eq_some hfind) hc htype]
    rfl

/-! ## The contract -/

/-- The conditions that report a failure. -/
def failureConditions : List ConditionType := [.invalidRef, .unsafeSelector, .conflict, .renderFailure]

/-- The reasons a failure condition may be True for. -/
def failureReasons : ConditionType → List Reason
  | .ready => []
  | .invalidRef => [.invalidPoolRef, .targetPoolNotFound, .inferencePoolCRDMissing]
  | .unsafeSelector => [.invalidPoolSelector, .unsafeSelector, .invalidIdentityBoundary]
  | .conflict => [.variantConflict, .duplicateSPIFFEID]
  | .renderFailure => [.missingTrustDomain, .invalidServiceAccountName, .invalidSPIFFEID,
      .clusterSPIFFEIDCRDMissing, .managedOutputApplyFailed]

/-- The table of allowed reasons. -/
def allowedReasons : ConditionType → ConditionStatus → List Reason
  | .ready, .true_ => [.reconciled]
  | .ready, .false_ => failureConditions.flatMap failureReasons
  | type, .true_ => failureReasons type
  | .ready, .unknown => [.initializing]
  | _, .false_ => [.resolved]
  | _, .unknown => [.initializing]

/-- The contract of a persisted status, less what it says about the ownership record. -/
structure Status.Consistent (status : Status) : Prop where
  nodup : (status.conditions.map Condition.type).Nodup
  allowed : ∀ c ∈ status.conditions, c.reason ∈ allowedReasons c.type c.status
  exclusive : ∀ t ∈ failureConditions, ∀ t' ∈ failureConditions,
    status.Is t .true_ → status.Is t' .true_ → t = t'
  ready_false : status.Is .ready .false_ ↔ ∃ t ∈ failureConditions, status.Is t .true_
  same : ∀ t ∈ failureConditions, status.Is t .true_ →
    (status.verdict .ready).map (fun v => (v.reason, v.message)) =
      (status.verdict t).map fun v => (v.reason, v.message)
  computed : status.computedSpiffeIDs ≠ [] ↔ status.Is .ready .true_
  selectors : status.renderedSelectors ≠ [] ↔ status.Is .ready .true_
  output : status.renderedClusterSPIFFEID.isSome ↔ status.Is .ready .true_
  spiffeID : ∀ id ∈ status.computedSpiffeIDs,
    (∀ rendered ∈ status.renderedSelectors, rendered.spiffeID = id) ∧
      ∀ output ∈ status.renderedClusterSPIFFEID, output.spiffeID = id
  conflicts : status.conflicts ≠ [] ↔ status.Is .conflict .true_
  conflict_reason : ∀ v ∈ status.verdict .conflict, v.status = .true_ →
    (v.reason = .duplicateSPIFFEID ↔ ∃ item ∈ status.conflicts, item.cause = .duplicateSPIFFEID)

/-- The contract of a persisted status. -/
structure Status.Taxonomic (status : Status) : Prop extends Status.Consistent status where
  pending : status.pendingClusterSPIFFEID.isSome → ¬status.Is .ready .true_

/-- Consistency is not about the ownership record. -/
theorem Status.Consistent.withRecord {status : Status} (h : status.Consistent)
    (pending : Option PendingClusterSPIFFEIDStatus) (owned : Option OwnedClusterSPIFFEIDStatus) :
    { status with pendingClusterSPIFFEID := pending, ownedClusterSPIFFEID := owned }.Consistent :=
  ⟨h.nodup, h.allowed, h.exclusive, h.ready_false, h.same, h.computed, h.selectors, h.output,
    h.spiffeID, h.conflicts, h.conflict_reason⟩

/-- A pending claim goes with no rendered output. -/
theorem Status.Taxonomic.unrendered {status : Status} (h : status.Taxonomic)
    (hpending : status.pendingClusterSPIFFEID.isSome) :
    status.computedSpiffeIDs = [] ∧ status.renderedSelectors = [] ∧
      status.renderedClusterSPIFFEID = none := by
  have hready := h.pending hpending
  refine ⟨?_, ?_, ?_⟩
  · by_contra hne
    exact hready (h.computed.mp hne)
  · by_contra hne
    exact hready (h.selectors.mp hne)
  · by_contra hne
    exact hready (h.output.mp (Option.isSome_iff_ne_none.mpr hne))

/-- The status a binding is created with. -/
theorem taxonomic_empty : ({} : Status).Taxonomic := by
  refine ⟨?_, by simp⟩
  constructor <;> simp [Status.Is, Status.verdict, findStatusCondition]

/-! ## The verdicts of the status functions -/

/-- Every failure condition is False with its standard text. -/
def healthy (type : ConditionType) : Option Verdict := some ⟨.false_, .resolved, resolvedMessage type⟩

/-- The verdicts of `applySuccessStatus`. -/
def successVerdicts : ConditionType → Option Verdict :=
  Function.update healthy .ready (some ⟨.true_, .reconciled, str "Binding reconciled"⟩)

/-- The verdicts of `applyWaiting`. -/
def waitingVerdicts (message : GoString) : ConditionType → Option Verdict :=
  Function.update healthy .ready (some ⟨.unknown, .initializing, message⟩)

/-- The verdicts of `applyFailureStatus` and `applyConflictStatus`. -/
def failureVerdicts (type : ConditionType) (reason : Reason) (message : GoString) :
    ConditionType → Option Verdict :=
  Function.update (Function.update healthy .ready (some ⟨.false_, reason, message⟩)) type
    (some ⟨.true_, reason, message⟩)

section

variable (status : Status) (generation : ℕ)

theorem verdict_applySuccessStatus (identities : List Plan)
    (managedStatuses : List RenderedClusterSPIFFEIDStatus) :
    (applySuccessStatus status generation identities managedStatuses).verdict =
      successVerdicts := by
  funext t
  cases t <;> simp [applySuccessStatus, successVerdicts, healthy]

theorem verdict_applyWaiting (message : GoString) :
    (applyWaiting status generation message).verdict = waitingVerdicts message := by
  funext t
  cases t <;> simp [applyWaiting, waitingVerdicts, healthy]

theorem verdict_applyPendingConflictStatus :
    (applyPendingConflictStatus status generation).verdict =
      Function.update (waitingVerdicts (str "Waiting for managed output absence")) .conflict
        (some ⟨.unknown, .initializing, str "Waiting for managed output absence"⟩) := by
  funext t
  cases t <;>
    simp [applyPendingConflictStatus, waitingVerdicts, healthy]

theorem verdict_applyConflictStatus (conflicts : List VariantConflict) :
    (applyConflictStatus status generation conflicts).verdict =
      failureVerdicts .conflict (conflictReason conflicts)
        (str "Variant conflicts with one or more peer bindings") := by
  funext t
  cases t <;> simp [applyConflictStatus, failureVerdicts, healthy]

theorem verdict_applyFailureStatus (err : StateError) (htype : err.conditionType ≠ .ready) :
    (applyFailureStatus status generation err).verdict =
      failureVerdicts err.conditionType err.reason err.message := by
  obtain ⟨type, reason, message⟩ := err
  funext t
  cases type <;> cases t <;>
    simp_all [applyFailureStatus, resolveOther, failureVerdicts, healthy]

/-- The types of the conditions of a status are unique. -/
def Status.UniqueTypes (status : Status) : Prop := (status.conditions.map Condition.type).Nodup

variable {status}

theorem Status.UniqueTypes.setCondition (h : status.UniqueTypes) (type : ConditionType)
    (value : ConditionStatus) (reason : Reason) (message : GoString) :
    (Kleym.setCondition status generation type value reason message).UniqueTypes :=
  nodup_setStatusCondition h _

theorem Status.UniqueTypes.setResolved (h : status.UniqueTypes) (type : ConditionType) :
    (Kleym.setResolved status generation type).UniqueTypes :=
  h.setCondition generation type .false_ .resolved _

theorem Status.UniqueTypes.resolveOther (h : status.UniqueTypes) (failed type : ConditionType) :
    (Kleym.resolveOther failed generation status type).UniqueTypes := by
  rw [Kleym.resolveOther]
  split_ifs
  · exact h.setResolved generation type
  · exact h

theorem Status.UniqueTypes.applySuccessStatus (h : status.UniqueTypes) (identities : List Plan)
    (managedStatuses : List RenderedClusterSPIFFEIDStatus) :
    (Kleym.applySuccessStatus status generation identities managedStatuses).UniqueTypes := by
  iterate 4 refine Status.UniqueTypes.setResolved generation ?_ _
  exact Status.UniqueTypes.setCondition generation h _ _ _ _

theorem Status.UniqueTypes.applyWaiting (h : status.UniqueTypes) (message : GoString) :
    (Kleym.applyWaiting status generation message).UniqueTypes := by
  iterate 4 refine Status.UniqueTypes.setResolved generation ?_ _
  exact Status.UniqueTypes.setCondition generation h _ _ _ _

theorem Status.UniqueTypes.applyPendingConflictStatus (h : status.UniqueTypes) :
    (Kleym.applyPendingConflictStatus status generation).UniqueTypes := by
  refine Status.UniqueTypes.setResolved generation ?_ _
  refine Status.UniqueTypes.setCondition generation ?_ _ _ _ _
  iterate 2 refine Status.UniqueTypes.setResolved generation ?_ _
  exact Status.UniqueTypes.setCondition generation h _ _ _ _

theorem Status.UniqueTypes.applyConflictStatus (h : status.UniqueTypes)
    (conflicts : List VariantConflict) :
    (Kleym.applyConflictStatus status generation conflicts).UniqueTypes := by
  refine Status.UniqueTypes.setResolved generation ?_ _
  refine Status.UniqueTypes.setCondition generation ?_ _ _ _ _
  iterate 2 refine Status.UniqueTypes.setResolved generation ?_ _
  exact Status.UniqueTypes.setCondition generation h _ _ _ _

theorem Status.UniqueTypes.applyFailureStatus (h : status.UniqueTypes) (err : StateError) :
    (Kleym.applyFailureStatus status generation err).UniqueTypes := by
  iterate 4 refine Status.UniqueTypes.resolveOther generation ?_ _ _
  refine Status.UniqueTypes.setCondition generation ?_ _ _ _ _
  exact Status.UniqueTypes.setCondition generation h _ _ _ _

end

/-! ## Every status function keeps the contract -/

/-- What the conditions found say is what all of them say. -/
theorem allowed_of_verdict {status : Status} (hunique : status.UniqueTypes)
    (h : ∀ t v, status.verdict t = some v → v.reason ∈ allowedReasons t v.status) :
    ∀ c ∈ status.conditions, c.reason ∈ allowedReasons c.type c.status :=
  fun c hc => h c.type c.verdict (verdict_of_mem hunique hc)

/-- Nothing is rendered. -/
def Status.Unrendered (status : Status) : Prop :=
  status.computedSpiffeIDs = [] ∧ status.renderedSelectors = [] ∧
    status.renderedClusterSPIFFEID = none

/-- A status that waits: Ready is Unknown, no failure is reported. -/
theorem consistent_of_waiting {status : Status} {message : GoString} (message' : GoString)
    (hunique : status.UniqueTypes) (hunrendered : status.Unrendered) (hconflicts : status.conflicts = [])
    (hverdict : status.verdict = waitingVerdicts message ∨
      status.verdict = Function.update (waitingVerdicts message) .conflict
        (some ⟨.unknown, .initializing, message'⟩)) :
    status.Consistent := by
  obtain ⟨hcomputed, hselectors, houtput⟩ := hunrendered
  have hready : ¬status.Is .ready .true_ ∧ ¬status.Is .ready .false_ := by
    rcases hverdict with h | h <;> simp [Status.Is, h, waitingVerdicts]
  have hfail : ∀ t ∈ failureConditions, ¬status.Is t .true_ := by
    intro t ht
    rcases hverdict with h | h <;> cases t <;>
      simp_all [Status.Is, waitingVerdicts, healthy, failureConditions]
  have hallowed : ∀ t v, status.verdict t = some v → v.reason ∈ allowedReasons t v.status := by
    intro t v hv
    rcases hverdict with h | h <;> rw [h] at hv <;> cases t <;>
      simp [waitingVerdicts, healthy] at hv <;> subst hv <;> simp [allowedReasons]
  have hconflict := hfail .conflict (by simp [failureConditions])
  exact {
    nodup := hunique
    allowed := allowed_of_verdict hunique hallowed
    exclusive := fun t ht _ _ h => absurd h (hfail t ht)
    ready_false := ⟨fun h => absurd h hready.2, fun ⟨t, ht, h⟩ => absurd h (hfail t ht)⟩
    same := fun t ht h => absurd h (hfail t ht)
    computed := by simp [hcomputed, hready.1]
    selectors := by simp [hselectors, hready.1]
    output := by simp [houtput, hready.1]
    spiffeID := by simp [hcomputed]
    conflicts := by simp [hconflicts, hconflict]
    conflict_reason := fun v hv htrue =>
      absurd (show status.Is .conflict .true_ by
        rw [Status.Is, Option.mem_def.mp hv, Option.map_some, htrue]) hconflict }

/-- A status that reports one failure under its condition and under Ready. -/
theorem consistent_of_failure {status : Status} {type : ConditionType} {reason : Reason}
    {message : GoString} (hunique : status.UniqueTypes) (hunrendered : status.Unrendered)
    (hreason : reason ∈ failureReasons type)
    (hverdict : status.verdict = failureVerdicts type reason message)
    (hconflicts : status.conflicts ≠ [] ↔ type = .conflict)
    (hcause : type = .conflict → (reason = .duplicateSPIFFEID ↔
      ∃ item ∈ status.conflicts, item.cause = .duplicateSPIFFEID)) :
    status.Consistent := by
  obtain ⟨hcomputed, hselectors, houtput⟩ := hunrendered
  have htype : type ≠ .ready := by
    rintro rfl
    cases hreason
  have hready : ¬status.Is .ready .true_ ∧ status.Is .ready .false_ := by
    simp [Status.Is, hverdict, failureVerdicts, Function.update_of_ne htype.symm]
  have hself : status.verdict type = some ⟨.true_, reason, message⟩ := by
    simp [hverdict, failureVerdicts]
  have hfail : ∀ t ∈ failureConditions, status.Is t .true_ ↔ t = type := by
    intro t ht
    by_cases h : t = type
    · simp [Status.Is, h, hself]
    · have ht' : t ≠ .ready := by
        rintro rfl
        simp [failureConditions] at ht
      simp [Status.Is, hverdict, failureVerdicts, Function.update_of_ne ht', healthy, h]
  have hmem : type ∈ failureConditions := by
    cases type <;> simp_all [failureConditions]
  have hallowed : ∀ t v, status.verdict t = some v → v.reason ∈ allowedReasons t v.status := by
    intro t v hv
    by_cases h : t = type
    · subst h
      rw [hself] at hv
      cases hv
      cases t <;> simp_all [allowedReasons]
    · rw [hverdict, failureVerdicts, Function.update_of_ne h] at hv
      cases t with
      | ready =>
        rw [Function.update_self] at hv
        cases hv
        exact List.mem_flatMap.mpr ⟨type, hmem, hreason⟩
      | _ =>
        rw [Function.update_of_ne (by simp)] at hv
        cases hv
        simp [allowedReasons]
  exact {
    nodup := hunique
    allowed := allowed_of_verdict hunique hallowed
    exclusive := fun t ht t' ht' h h' =>
      ((hfail t ht).mp h).trans ((hfail t' ht').mp h').symm
    ready_false := ⟨fun _ => ⟨type, hmem, (hfail type hmem).mpr rfl⟩, fun _ => hready.2⟩
    same := by
      intro t ht h
      rw [(hfail t ht).mp h, hself, hverdict, failureVerdicts, Function.update_of_ne htype.symm,
        Function.update_self]
      rfl
    computed := by simp [hcomputed, hready.1]
    selectors := by simp [hselectors, hready.1]
    output := by simp [houtput, hready.1]
    spiffeID := by simp [hcomputed]
    conflicts := by
      rw [hconflicts, hfail .conflict (by simp [failureConditions])]
      exact eq_comm
    conflict_reason := by
      intro v hv htrue
      have htype' : type = .conflict :=
        ((hfail .conflict (by simp [failureConditions])).mp (by
          rw [Status.Is, Option.mem_def.mp hv, Option.map_some, htrue])).symm
      rw [htype'] at hself
      cases (Option.mem_def.mp hv).symm.trans hself
      exact hcause htype' }

section

variable {status : Status} {generation : ℕ}

theorem consistent_applyWaiting (h : status.UniqueTypes) (message : GoString) :
    (applyWaiting status generation message).Consistent :=
  consistent_of_waiting [] (h.applyWaiting generation message) ⟨rfl, rfl, rfl⟩ rfl
    (Or.inl (verdict_applyWaiting status generation message))

theorem consistent_applyPendingConflictStatus (h : status.UniqueTypes) :
    (applyPendingConflictStatus status generation).Consistent :=
  consistent_of_waiting _ (h.applyPendingConflictStatus generation) ⟨rfl, rfl, rfl⟩ rfl
    (Or.inr (verdict_applyPendingConflictStatus status generation))

theorem consistent_applyConflictStatus (h : status.UniqueTypes) {conflicts : List VariantConflict}
    (hne : conflicts ≠ []) : (applyConflictStatus status generation conflicts).Consistent := by
  have hitems : (applyConflictStatus status generation conflicts).conflicts =
      conflicts.map fun c => ⟨c.peerBindingRef.name, c.cause, c.peerSpiffeID, c.peerVariant⟩ := rfl
  refine consistent_of_failure (h.applyConflictStatus generation conflicts) ⟨rfl, rfl, rfl⟩ ?_
    (verdict_applyConflictStatus status generation conflicts) ?_ ?_
  · rw [conflictReason]
    split_ifs <;> simp [failureReasons]
  · simp [hitems, hne]
  · intro _
    rw [conflictReason]
    split_ifs with hany
    · simpa [hitems] using hany
    · simpa [hitems] using hany

/-- A failure that `applyFailureStatus` is called with: its reason is one of its condition's,
and the condition is not Conflict. -/
def StateError.Reportable (err : StateError) : Prop :=
  err.conditionType ≠ .conflict ∧ err.reason ∈ failureReasons err.conditionType

theorem consistent_applyFailureStatus (h : status.UniqueTypes) {err : StateError}
    (herr : err.Reportable) : (applyFailureStatus status generation err).Consistent := by
  have htype : err.conditionType ≠ .ready := by
    intro htype
    have := herr.2
    rw [htype] at this
    cases this
  have hfields : (applyFailureStatus status generation err).Unrendered ∧
      (applyFailureStatus status generation err).conflicts = [] := by
    simp only [applyFailureStatus, resolveOther]
    split_ifs <;> exact ⟨⟨rfl, rfl, rfl⟩, rfl⟩
  refine consistent_of_failure (h.applyFailureStatus generation err) hfields.1 herr.2
    (verdict_applyFailureStatus status generation err htype) ?_ fun h => absurd h herr.1
  simp [hfields.2, herr.1]

/-- The conditions of a status keep the status contract. -/
structure Status.Classed (status : Status) : Prop where
  nodup : status.UniqueTypes
  allowed : ∀ c ∈ status.conditions, c.reason ∈ allowedReasons c.type c.status
  exclusive : ∀ t ∈ failureConditions, ∀ t' ∈ failureConditions,
    status.Is t .true_ → status.Is t' .true_ → t = t'
  ready_false : status.Is .ready .false_ ↔ ∃ t ∈ failureConditions, status.Is t .true_

theorem Status.Consistent.classed (h : status.Consistent) : status.Classed :=
  ⟨h.nodup, h.allowed, h.exclusive, h.ready_false⟩

/-- A status that reports success: Ready is True, no failure is reported. -/
theorem classed_of_success (hunique : status.UniqueTypes)
    (hverdict : status.verdict = successVerdicts) :
    status.Classed ∧ status.Is .ready .true_ ∧ ∀ t ∈ failureConditions, ¬status.Is t .true_ := by
  have hready : status.Is .ready .true_ ∧ ¬status.Is .ready .false_ := by
    simp [Status.Is, hverdict, successVerdicts]
  have hfail : ∀ t ∈ failureConditions, ¬status.Is t .true_ := by
    intro t ht
    cases t <;> simp_all [Status.Is, successVerdicts, healthy, failureConditions]
  have hallowed : ∀ t v, status.verdict t = some v → v.reason ∈ allowedReasons t v.status := by
    intro t v hv
    rw [hverdict] at hv
    cases t <;> simp [successVerdicts, healthy] at hv <;> subst hv <;> simp [allowedReasons]
  exact ⟨⟨hunique, allowed_of_verdict hunique hallowed, fun t ht _ _ h => absurd h (hfail t ht),
    ⟨fun h => absurd h hready.2, fun ⟨t, ht, h⟩ => absurd h (hfail t ht)⟩⟩, hready.1, hfail⟩

theorem consistent_applySuccessStatus (h : status.UniqueTypes) {identity : Plan}
    {output : RenderedClusterSPIFFEIDStatus} (hid : output.spiffeID = identity.spiffeID) :
    (applySuccessStatus status generation [identity] [output]).Consistent := by
  have hverdict := verdict_applySuccessStatus status generation [identity] [output]
  have hunique := h.applySuccessStatus generation [identity] [output]
  have hcomputed : (applySuccessStatus status generation [identity] [output]).computedSpiffeIDs =
    [identity.spiffeID] := rfl
  have hselectors : (applySuccessStatus status generation [identity] [output]).renderedSelectors =
    [⟨identity.spiffeID, identity.selectors⟩] := rfl
  have houtput :
      (applySuccessStatus status generation [identity] [output]).renderedClusterSPIFFEID =
        some output := rfl
  have hconflicts : (applySuccessStatus status generation [identity] [output]).conflicts = [] := rfl
  generalize applySuccessStatus status generation [identity] [output] = s at *
  obtain ⟨hclassed, hready, hfail⟩ := classed_of_success hunique hverdict
  have hconflict := hfail .conflict (by simp [failureConditions])
  exact {
    nodup := hclassed.nodup
    allowed := hclassed.allowed
    exclusive := hclassed.exclusive
    ready_false := hclassed.ready_false
    same := fun t ht h => absurd h (hfail t ht)
    computed := by simp [hcomputed, hready]
    selectors := by simp [hselectors, hready]
    output := by simp [houtput, hready]
    spiffeID := by simp [hcomputed, hselectors, houtput, hid]
    conflicts := by simp [hconflicts, hconflict]
    conflict_reason := fun v hv htrue =>
      absurd (show s.Is .conflict .true_ by
        rw [Status.Is, Option.mem_def.mp hv, Option.map_some, htrue]) hconflict }

end

/-! ## The copy in memory

A reconcile works on a copy of the status it read, with every condition filled in.
A patch sends what it changed in the copy, and the server puts that into the status
it has. -/

/-- The message a condition starts out with. -/
def initialMessage (type : ConditionType) : GoString := (canonicalConditions.lookup type).getD []

/-- A status in memory goes back to a persisted one: the same output is rendered in both,
and what a condition says is persisted unless it still has its initial message. -/
structure Status.Tracks (status persisted : Status) : Prop where
  unique : status.UniqueTypes
  computed : status.computedSpiffeIDs = persisted.computedSpiffeIDs
  selectors : status.renderedSelectors = persisted.renderedSelectors
  output : status.renderedClusterSPIFFEID = persisted.renderedClusterSPIFFEID
  conflicts : status.conflicts = persisted.conflicts
  verdict : ∀ t v, status.verdict t = some v →
    v.message = initialMessage t ∨ persisted.verdict t = some v

theorem Status.Tracks.refl {status : Status} (h : status.UniqueTypes) : status.Tracks status :=
  ⟨h, rfl, rfl, rfl, rfl, fun _ _ => Or.inr⟩

theorem Status.Tracks.trans {status status' persisted : Status} (h : status.Tracks status')
    (h' : status'.Tracks persisted) : status.Tracks persisted := by
  refine ⟨h.unique, h.computed.trans h'.computed, h.selectors.trans h'.selectors,
    h.output.trans h'.output, h.conflicts.trans h'.conflicts, fun t v hv => ?_⟩
  rcases h.verdict t v hv with hmessage | hv'
  · exact Or.inl hmessage
  · exact h'.verdict t v hv'

/-- The ownership record may differ. -/
theorem Status.Tracks.withRecord {status persisted : Status} (h : status.Tracks persisted)
    (pending pending' : Option PendingClusterSPIFFEIDStatus)
    (owned owned' : Option OwnedClusterSPIFFEIDStatus) :
    { status with
      pendingClusterSPIFFEID := pending, ownedClusterSPIFFEID := owned }.Tracks
    { persisted with
      pendingClusterSPIFFEID := pending', ownedClusterSPIFFEID := owned' } :=
  ⟨h.unique, h.computed, h.selectors, h.output, h.conflicts, h.verdict⟩

theorem trimSpace_reason_text_ne (reason : Reason) : trimSpace reason.text ≠ [] := by
  cases reason <;> decide

theorem Status.Tracks.initializeCondition {status persisted : Status}
    (h : status.Tracks persisted) (generation : ℕ) {entry : ConditionType × GoString}
    (hentry : entry.2 = initialMessage entry.1) :
    (Kleym.initializeCondition generation status entry).Tracks persisted := by
  have hkeep : ∀ (value : ConditionStatus) (reason : Reason) (message : GoString),
      (message = initialMessage entry.1 ∨
        persisted.verdict entry.1 = some ⟨value, reason, message⟩) →
      (setCondition status generation entry.1 value reason message).Tracks persisted := by
    intro value reason message hmessage
    refine ⟨h.unique.setCondition generation _ _ _ _, h.computed, h.selectors, h.output,
      h.conflicts, ?_⟩
    intro t v hv
    rw [verdict_setCondition, Function.update_apply] at hv
    split_ifs at hv with ht
    · cases hv
      rw [ht]
      exact hmessage
    · exact h.verdict t v hv
  rw [Kleym.initializeCondition]
  rcases hfind : findStatusCondition status.conditions entry.1 with _ | existing
  · exact hkeep _ _ _ (Or.inl hentry)
  · dsimp only
    rw [if_pos (trimSpace_reason_text_ne existing.reason)]
    apply hkeep
    split_ifs
    · exact h.verdict entry.1 existing.verdict (by rw [Status.verdict, hfind]; rfl)
    · exact Or.inl hentry

/-- What phase 4 starts with goes back to what was read. -/
theorem tracks_prepareStatus (r : Reconciler) {b : Binding} (h : b.status.UniqueTypes) :
    (r.prepareStatus b).status.Tracks b.status := by
  have hfold : ∀ (l : List (ConditionType × GoString)) (status : Status),
      (∀ e ∈ l, e.2 = initialMessage e.1) → status.Tracks b.status →
      (l.foldl (Kleym.initializeCondition b.generation) status).Tracks b.status := by
    intro l
    induction l with
    | nil => exact fun _ _ h => h
    | cons e l ih =>
      intro status hl hstatus
      exact ih _ (fun e' he' => hl e' (List.mem_cons_of_mem e he'))
        (hstatus.initializeCondition b.generation (hl e List.mem_cons_self))
  have hinit := hfold canonicalConditions b.status (by decide) (.refl h)
  exact ⟨hinit.unique, hinit.computed, hinit.selectors, hinit.output, hinit.conflicts,
    hinit.verdict⟩

/-! ## Patches -/

@[simp] theorem mergeField_same {α : Type} [DecidableEq α] (base current : α) :
    mergeField base base current = current := if_pos rfl

@[simp] theorem mergeField_current {α : Type} [DecidableEq α] (base target : α) :
    mergeField base target base = target := by
  rw [mergeField]
  split_ifs with h
  · exact h
  · rfl

@[simp] theorem mergeOptional_same {α : Type} [DecidableEq α] (zero : α) (merge : α → α → α → α)
    (base current : Option α) : mergeOptional zero merge base base current = current := if_pos rfl

theorem mergeOptional_current {α : Type} [DecidableEq α] (zero : α) {merge : α → α → α → α}
    (hmerge : ∀ base target, merge base target base = target) (base target : Option α) :
    mergeOptional zero merge base target base = target := by
  unfold mergeOptional
  split_ifs with h
  · exact h
  · rcases base with _ | base
    · rfl
    · rcases target with _ | target
      · rfl
      · exact congrArg some (hmerge base target)

@[simp] theorem mergePending_current (base target : Option PendingClusterSPIFFEIDStatus) :
    mergeOptional ⟨[], []⟩ mergePending base target base = target :=
  mergeOptional_current _ (by simp [mergePending]) base target

@[simp] theorem mergeOwned_current (base target : Option OwnedClusterSPIFFEIDStatus) :
    mergeOptional ⟨[], []⟩ mergeOwned base target base = target :=
  mergeOptional_current _ (by simp [mergeOwned]) base target

@[simp] theorem mergeRendered_current (base target : Option RenderedClusterSPIFFEIDStatus) :
    mergeOptional ⟨[], [], [], none⟩ mergeRendered base target base = target :=
  mergeOptional_current _ (by simp [mergeRendered]) base target

/-- A patch computed from what is stored arrives as it is. -/
@[simp] theorem mergeStatus_current (base target : Status) : mergeStatus base target base = target := by
  simp [mergeStatus]

end Kleym
