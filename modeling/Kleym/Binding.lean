import Kleym.Gaie

/-!
# Bindings and their status (`api/v1alpha1`, status functions of the controller)

An `InferenceIdentityBinding` is the user's request for an identity; its status
is where the operator keeps what it observed and, in two fields, the durable
record of the `ClusterSPIFFEID` it may touch: `pendingClusterSPIFFEID` (a name
and a claim ID, written before the object is created) and `ownedClusterSPIFFEID`
(a name and the UID the API server assigned).

The functions `apply…` below are the six places that compute the conditions and
the rendered output of a status. They leave the ownership record alone, with the
exception the caller makes explicit.
-/

namespace Kleym

open GoString

/-! ## The API types -/

/-- `metav1.ConditionStatus`. -/
inductive ConditionStatus : Type where
  | true_
  | false_
  | unknown
  deriving DecidableEq

/-- `metav1.Condition`, less `lastTransitionTime`. -/
structure Condition where
  type : ConditionType
  status : ConditionStatus
  observedGeneration : ℕ
  reason : Reason
  message : GoString
  deriving DecidableEq

/-- `RenderedSelectorStatus`. -/
structure RenderedSelectorStatus where
  spiffeID : GoString
  selectors : List GoString
  deriving DecidableEq

/-- `RenderedClusterSPIFFEIDStatus`. -/
structure RenderedClusterSPIFFEIDStatus where
  name : GoString
  spiffeID : GoString
  selectorFingerprint : GoString
  observedGeneration : Option ℕ
  deriving DecidableEq

/-- `PendingClusterSPIFFEIDStatus`: the claim persisted before a create. -/
structure PendingClusterSPIFFEIDStatus where
  name : GoString
  claimID : GoString
  deriving DecidableEq

/-- `OwnedClusterSPIFFEIDStatus`: the confirmed incarnation. -/
structure OwnedClusterSPIFFEIDStatus where
  name : GoString
  uid : GoString
  deriving DecidableEq

/-- `VariantConflictStatus`. -/
structure VariantConflictStatus where
  bindingName : GoString
  cause : ConflictCause
  spiffeID : GoString
  variant : GoString
  deriving DecidableEq

/-- `InferenceIdentityBindingStatus`. -/
structure Status where
  conditions : List Condition := []
  trustDomain : GoString := []
  clusterSPIFFEIDClassName : GoString := []
  conflicts : List VariantConflictStatus := []
  /-- `computedSpiffeIDs`, each an object with the one field `spiffeID` -/
  computedSpiffeIDs : List GoString := []
  renderedSelectors : List RenderedSelectorStatus := []
  pendingClusterSPIFFEID : Option PendingClusterSPIFFEIDStatus := none
  ownedClusterSPIFFEID : Option OwnedClusterSPIFFEIDStatus := none
  renderedClusterSPIFFEID : Option RenderedClusterSPIFFEIDStatus := none
  deriving DecidableEq

/-- `InferenceIdentityBindingSpec`. -/
structure BindingSpec where
  poolRef : InferencePoolTargetRef
  serviceAccountName : GoString
  /-- `identityBoundary.variant` -/
  variant : GoString
  deriving DecidableEq

/-- `InferenceIdentityBinding`. -/
structure Binding where
  key : NamespacedName
  uid : GoString
  resourceVersion : ℕ
  generation : ℕ
  /-- a deletion timestamp is set -/
  deleting : Bool
  finalizers : List GoString
  spec : BindingSpec
  status : Status
  deriving DecidableEq

/-! ## Conditions -/

/-- `meta.FindStatusCondition`. -/
def findStatusCondition (conditions : List Condition) (type : ConditionType) :
    Option Condition :=
  conditions.find? fun c => c.type = type

/-- `meta.SetStatusCondition`: replace the condition of that type or append it. -/
def setStatusCondition : List Condition → Condition → List Condition
  | [], new => [new]
  | c :: rest, new => if c.type = new.type then new :: rest else c :: setStatusCondition rest new

/-- `setCondition`. -/
def setCondition (status : Status) (generation : ℕ) (type : ConditionType)
    (conditionStatus : ConditionStatus) (reason : Reason) (message : GoString) : Status :=
  { status with
    conditions := setStatusCondition status.conditions
      ⟨type, conditionStatus, generation, reason, message⟩ }

/-! ## The status functions -/

/-- The conditions in canonical order, each with the message it starts out with. -/
def canonicalConditions : List (ConditionType × GoString) :=
  [(.ready, str "Readiness has not been evaluated yet"),
    (.invalidRef, str "Reference validity has not been evaluated yet"),
    (.unsafeSelector, str "Selector safety has not been evaluated yet"),
    (.conflict, str "Variant conflicts have not been evaluated yet"),
    (.renderFailure, str "Render health has not been evaluated yet")]

/-- One round of `initializeConditions`: keep what is there, else start Unknown. -/
def initializeCondition (generation : ℕ) (status : Status)
    (entry : ConditionType × GoString) : Status :=
  match findStatusCondition status.conditions entry.1 with
  | none => setCondition status generation entry.1 .unknown .initializing entry.2
  | some existing =>
    setCondition status generation entry.1 existing.status
      (if trimSpace existing.reason.text ≠ [] then existing.reason else .initializing)
      (if trimSpace existing.message ≠ [] then existing.message else entry.2)

/-- `initializeConditions`. -/
def initializeConditions (status : Status) (generation : ℕ) : Status :=
  canonicalConditions.foldl (initializeCondition generation) status

/-- `applyOperatorConfig`. -/
def applyOperatorConfig (status : Status) (trustDomain className : GoString) : Status :=
  { status with trustDomain := trustDomain, clusterSPIFFEIDClassName := className }

/-- The four lines that every status function but the successful one starts with. -/
def clearRendered (status : Status) : Status :=
  { status with
    computedSpiffeIDs := []
    renderedSelectors := []
    renderedClusterSPIFFEID := none
    conflicts := [] }

/-- The standard text of a failure condition that is False. -/
def resolvedMessage : ConditionType → GoString
  | .ready => []
  | .invalidRef => str "References are valid"
  | .unsafeSelector => str "Selectors are safe"
  | .conflict => str "Variant is exclusive"
  | .renderFailure => str "Rendering is healthy"

/-- Set a failure condition False with its standard text. -/
def setResolved (status : Status) (generation : ℕ) (type : ConditionType) : Status :=
  setCondition status generation type .false_ .resolved (resolvedMessage type)

/-- `applySuccessStatus`. -/
def applySuccessStatus (status : Status) (generation : ℕ) (identities : List Plan)
    (managedStatuses : List RenderedClusterSPIFFEIDStatus) : Status :=
  let status := { status with
    computedSpiffeIDs := identities.map Plan.spiffeID
    renderedSelectors := identities.map fun rendered => ⟨rendered.spiffeID, rendered.selectors⟩
    renderedClusterSPIFFEID := managedStatuses.head?
    conflicts := [] }
  let status := setCondition status generation .ready .true_ .reconciled (str "Binding reconciled")
  let status := setResolved status generation .invalidRef
  let status := setResolved status generation .unsafeSelector
  let status := setResolved status generation .conflict
  setResolved status generation .renderFailure

/-- The condition reason of a conflict: the coarse class of its items. -/
def conflictReason (conflicts : List VariantConflict) : Reason :=
  if conflicts.any fun conflict => conflict.cause = .duplicateSPIFFEID then .duplicateSPIFFEID
  else .variantConflict

/-- `applyConflictStatus`. -/
def applyConflictStatus (status : Status) (generation : ℕ)
    (conflicts : List VariantConflict) : Status :=
  let message := str "Variant conflicts with one or more peer bindings"
  let status := { clearRendered status with
    conflicts := conflicts.map fun conflict =>
      ⟨conflict.peerBindingRef.name, conflict.cause, conflict.peerSpiffeID,
        conflict.peerVariant⟩ }
  let status := setCondition status generation .ready .false_ (conflictReason conflicts) message
  let status := setResolved status generation .invalidRef
  let status := setResolved status generation .unsafeSelector
  let status :=
    setCondition status generation .conflict .true_ (conflictReason conflicts) message
  setResolved status generation .renderFailure

/-- The status of a binding whose output is on its way: Ready is Unknown with the
given message and nothing is rendered. -/
def applyWaiting (status : Status) (generation : ℕ) (message : GoString) : Status :=
  let status := clearRendered status
  let status := setCondition status generation .ready .unknown .initializing message
  let status := setResolved status generation .invalidRef
  let status := setResolved status generation .unsafeSelector
  let status := setResolved status generation .conflict
  setResolved status generation .renderFailure

/-- `applyPendingManagedOutputStatus`. -/
def applyPendingManagedOutputStatus (status : Status) (generation : ℕ) : Status :=
  applyWaiting status generation (str "Waiting to confirm managed output creation")

/-- `applyPendingManagedOutputReplacementStatus`. -/
def applyPendingManagedOutputReplacementStatus (status : Status) (generation : ℕ) : Status :=
  applyWaiting status generation
    (str "Waiting for previous managed output absence before creating its replacement")

/-- `applyPendingConflictStatus`. Unlike the other waiting states it leaves the
Conflict condition Unknown. -/
def applyPendingConflictStatus (status : Status) (generation : ℕ) : Status :=
  let message := str "Waiting for managed output absence"
  let status := clearRendered status
  let status := setCondition status generation .ready .unknown .initializing message
  let status := setResolved status generation .invalidRef
  let status := setResolved status generation .unsafeSelector
  let status := setCondition status generation .conflict .unknown .initializing message
  setResolved status generation .renderFailure

/-- Set a failure condition False unless it is the one that failed. -/
def resolveOther (failed : ConditionType) (generation : ℕ) (status : Status)
    (type : ConditionType) : Status :=
  if failed ≠ type then setResolved status generation type else status

/-- `applyFailureStatus`. -/
def applyFailureStatus (status : Status) (generation : ℕ) (stateErr : StateError) : Status :=
  let status := clearRendered status
  let status :=
    setCondition status generation .ready .false_ stateErr.reason stateErr.message
  let status :=
    setCondition status generation stateErr.conditionType .true_ stateErr.reason stateErr.message
  let status := resolveOther stateErr.conditionType generation status .invalidRef
  let status := resolveOther stateErr.conditionType generation status .unsafeSelector
  let status := resolveOther stateErr.conditionType generation status .conflict
  resolveOther stateErr.conditionType generation status .renderFailure

/-! ## Errors

What a Go `error` is to the controller: a text, and the class that `errors.As`,
`apierrors.IsNotFound` and the like find in its chain. -/

/-- The class of an error. -/
inductive ErrorKind : Type where
  | notFound
  | alreadyExists
  | conflict
  | noMatch
  /-- one of the three state-error types -/
  | state (conditionType : ConditionType) (reason : Reason)
  | other
  deriving DecidableEq

/-- An error value. -/
structure GoError where
  kind : ErrorKind
  message : GoString
  deriving DecidableEq

/-- `errorsAsStateError`. -/
def errorsAsStateError (err : GoError) : Option StateError :=
  match err.kind with
  | .state conditionType reason => some ⟨conditionType, reason, err.message⟩
  | _ => none

/-- A state error as an error value. -/
def StateError.toError (err : StateError) : GoError :=
  ⟨.state err.conditionType err.reason, err.message⟩

@[simp] theorem errorsAsStateError_toError (err : StateError) :
    errorsAsStateError err.toError = some err := rfl

/-- `fmt.Errorf` without `%w`. -/
def plainError (message : GoString) : GoError := ⟨.other, message⟩

/-! ## The ownership record -/

/-- `managedOutputRecord`: what the status says may be touched. -/
inductive ManagedOutputRecord : Type where
  | unclaimed
  | pending (name claimID : GoString)
  | confirmed (name uid : GoString)
  deriving DecidableEq

/-- `managedOutputRecordFromStatus`. -/
def managedOutputRecordFromStatus (status : Status) : Except GoError ManagedOutputRecord :=
  match status.pendingClusterSPIFFEID, status.ownedClusterSPIFFEID with
  | some _, some _ => .error (plainError
      (str "binding status records both pending and confirmed ClusterSPIFFEID ownership"))
  | some pending, none =>
    if trimSpace pending.name = [] ∨ trimSpace pending.claimID = [] then
      .error (plainError
        (str "binding status has an incomplete pending ClusterSPIFFEID ownership record"))
    else .ok (.pending pending.name pending.claimID)
  | none, some owned =>
    if trimSpace owned.name = [] ∨ owned.uid = [] then
      .error (plainError
        (str "binding status has an incomplete confirmed ClusterSPIFFEID ownership record"))
    else .ok (.confirmed owned.name owned.uid)
  | none, none => .ok .unclaimed

/-- `recordedClusterSPIFFEIDName`. -/
def recordedClusterSPIFFEIDName (status : Status) : GoString :=
  match status.ownedClusterSPIFFEID, status.pendingClusterSPIFFEID with
  | some owned, _ => owned.name
  | none, some pending => pending.name
  | none, none => []

end Kleym
