import Kleym.Controller

/-!
# `Reconcile`: rendering, conflicts, status and the five phases

The second half of `internal/controller`. `Reconcile` fetches the binding,
finalizes it when it is being deleted, renders its identity, asks whether any
other binding of the namespace competes for it, and only then touches the managed
output through the functions of `Controller`.
-/

namespace Kleym

open GoString Prog

/-- `InferenceIdentityBindingReconciler`: what a reconciler is set up with. -/
structure Reconciler where
  platform : Platform
  config : OperatorConfig
  availablePoolGVKs : List GroupVersionKind

/-- `ctrl.Result`: the seconds after which to come again, zero for not at all. -/
structure ReconcileResult where
  requeueAfter : ℕ
  deriving DecidableEq

/-- `inferenceIdentityBindingFinalizer`. -/
def inferenceIdentityBindingFinalizer : GoString :=
  str "kleym.sonda.red/inferenceidentitybinding-finalizer"

/-- `deleteVerificationRequeueAfter`, in seconds. -/
def deleteVerificationRequeueAfter : ℕ := 2

/-- `infraNotReadyRequeueAfter`, in seconds. -/
def infraNotReadyRequeueAfter : ℕ := 30

/-! ## Pools and rendering -/

/-- `resolveByCandidates`: the first candidate kind under which the pool exists, and
whether some kind before it was not served. -/
def resolveByCandidates (key : NamespacedName) :
    List GroupVersionKind → Bool → Op (Except GoError (Option InferencePool × Bool))
  | [], crdMissing => ret (.ok (none, crdMissing))
  | gvk :: rest, crdMissing => do
    match ← getPool gvk key with
    | .ok pool => ret (.ok (some pool, crdMissing))
    | .error err =>
      if err.kind = .notFound then resolveByCandidates key rest crdMissing
      else if err.kind = .noMatch then resolveByCandidates key rest true
      else ret (.error err)

namespace Reconciler

variable (r : Reconciler)

/-- `resolveInferencePool`. -/
def resolveInferencePool (poolRef : PoolRef) : Op (Except GoError InferencePool) := do
  match ← resolveByCandidates ⟨poolRef.namespace_, poolRef.name⟩
      (candidatePoolGVKs (resolvePoolGVKs r.availablePoolGVKs) poolRef.group) false with
  | .error err => ret (.error err)
  | .ok (some pool, _) => ret (.ok pool)
  | .ok (none, true) =>
    ret (.error (StateError.toError ⟨.invalidRef, .inferencePoolCRDMissing,
      str "InferencePool CRD is not installed"⟩))
  | .ok (none, false) =>
    ret (.error (StateError.toError ⟨.invalidRef, .targetPoolNotFound,
      str "poolRef " ++ r.platform.quote poolRef.name ++ str " was not found"⟩))

/-- What `PlanIdentity` is given for a binding and a resolved target. -/
def planInput (binding : Binding) (target : ResolvedInferenceTarget) : PlanInput where
  namespace_ := binding.key.namespace_
  serviceAccountName := binding.spec.serviceAccountName
  trustDomain := r.config.trustDomain
  variant := binding.spec.variant
  target := target

/-- `renderIdentity`. -/
def renderIdentity (binding : Binding) (pool : InferencePool) : Except StateError Plan :=
  match resolveInferenceTarget r.platform pool with
  | .error message => .error ⟨.unsafeSelector, .invalidPoolSelector, message⟩
  | .ok target => planIdentity r.platform (r.planInput binding target)

/-- `bindingIdentityVariant`. -/
def bindingIdentityVariant (binding : Binding) : Except StateError Unit :=
  validateVariant r.platform binding.spec.variant

/-- The common end of `renderIdentityForBinding` and `computeDesiredState`. -/
def renderFromPool (binding : Binding) (poolRef : PoolRef) : Op (Except GoError Plan) := do
  match ← r.resolveInferencePool poolRef with
  | .error err => ret (.error err)
  | .ok pool =>
    match r.renderIdentity binding pool with
    | .error err => ret (.error err.toError)
    | .ok plan => ret (.ok plan)

/-- `renderIdentityForBinding`. An error of `BindingPoolRef` is passed on as it is. -/
def renderIdentityForBinding (binding : Binding) : Op (Except GoError Plan) :=
  match bindingPoolRef r.platform binding.key.namespace_ binding.spec.poolRef with
  | .error message => ret (.error (plainError message))
  | .ok poolRef => r.renderFromPool binding poolRef

/-- `computeDesiredState`. An error of `BindingPoolRef` becomes a state error. -/
def computeDesiredState (binding : Binding) : Op (Except GoError Plan) :=
  match bindingPoolRef r.platform binding.key.namespace_ binding.spec.poolRef with
  | .error message => ret (.error (StateError.toError ⟨.invalidRef, .invalidPoolRef, message⟩))
  | .ok poolRef => r.renderFromPool binding poolRef

/-! ## Conflicts -/

end Reconciler

/-- A binding whose output a conflict withdraws: a copy from the listing, or the
reconciled binding itself, which the withdrawal then changes in place. -/
inductive ConflictMember : Type where
  | current
  | copy (peer : Binding)
  deriving DecidableEq

/-- `bindingConflictState`. -/
structure BindingConflictState where
  conflicts : List VariantConflict
  members : List ConflictMember
  blocked : Bool
  deriving DecidableEq

/-- What `identityForConflictEvaluation` says about a peer. -/
inductive PeerVerdict : Type where
  | irrelevant
  | relevant (plan : Plan)
  | blocksRecovery

/-- The namespaced name a member stands for. -/
def ConflictMember.key (binding : Binding) : ConflictMember → NamespacedName
  | .current => binding.key
  | .copy peer => peer.key

/-- `appendConflictMember`. -/
def appendConflictMember (binding : Binding) (members : List ConflictMember)
    (member : ConflictMember) : List ConflictMember :=
  if members.any fun m => m.key binding = member.key binding then members
  else members ++ [member]

/-- `variantRecord`. -/
def variantRecord (binding : Binding) (plan : Plan) : VariantRecord :=
  ⟨binding.key, binding.spec.serviceAccountName, plan.variant, plan.spiffeID⟩

/-- Append the copy that a key refers to, if there is one. -/
def appendReferenced (binding : Binding) (bindingsByRef : List Binding)
    (members : List ConflictMember) (ref : NamespacedName) : List ConflictMember :=
  match bindingsByRef.find? fun b => b.key = ref with
  | none => members
  | some member => appendConflictMember binding members (.copy member)

/-- `currentBindingConflictState`. `bindingsByRef` lists the map's values, the one
inserted last for a key first. -/
def currentBindingConflictState (binding : Binding) (records : List VariantRecord)
    (bindingsByRef : List Binding) : BindingConflictState :=
  let conflicts := (evaluateVariantConflicts records).filter fun c => c.bindingRef = binding.key
  if conflicts = [] then ⟨[], [], false⟩
  else
    ⟨conflicts,
      (conflicts.map VariantConflict.peerBindingRef).foldl (appendReferenced binding bindingsByRef)
        (appendReferenced binding bindingsByRef [] binding.key),
      false⟩

/-- What the loop of `evaluateBindingConflicts` has collected. -/
structure PeerScan where
  records : List VariantRecord
  bindingsByRef : List Binding
  blockedMembers : List Binding

/-- Add the members that block recovery to a conflict state. -/
def BindingConflictState.block (state : BindingConflictState) (binding : Binding)
    (blockedMembers : List Binding) : BindingConflictState :=
  if blockedMembers = [] then state
  else
    { state with
      blocked := true
      members := (blockedMembers.map ConflictMember.copy).foldl (appendConflictMember binding)
        (appendConflictMember binding state.members .current) }

/-- The first loop of `withdrawConflictOutputs`. -/
def cleanupMembers (P : Platform) :
    List ConflictMember → Binding → Op (Binding × Except GoError (List ConflictMember))
  | [], binding => ret (binding, .ok [])
  | .current :: rest, binding => do
    match ← cleanupManagedClusterSPIFFEIDs P binding with
    | (binding, .error err) => ret (binding, .error err)
    | (binding, .ok ()) =>
      match ← cleanupMembers P rest binding with
      | (binding, .error err) => ret (binding, .error err)
      | (binding, .ok members) => ret (binding, .ok (.current :: members))
  | .copy peer :: rest, binding => do
    match ← cleanupManagedClusterSPIFFEIDs P peer with
    | (_, .error err) => ret (binding, .error err)
    | (peer, .ok ()) =>
      match ← cleanupMembers P rest binding with
      | (binding, .error err) => ret (binding, .error err)
      | (binding, .ok members) => ret (binding, .ok (.copy peer :: members))

/-- The second loop of `withdrawConflictOutputs`: `false` at the first member whose
output is still there. -/
def confirmMembersAbsent (P : Platform) :
    List ConflictMember → Binding → Op (Binding × Except GoError Bool)
  | [], binding => ret (binding, .ok true)
  | .current :: rest, binding => do
    match ← listManagedClusterSPIFFEIDs P binding with
    | (binding, .error err) => ret (binding, .error err)
    | (binding, .ok (_ :: _)) => ret (binding, .ok false)
    | (binding, .ok []) => confirmMembersAbsent P rest binding
  | .copy peer :: rest, binding => do
    match ← listManagedClusterSPIFFEIDs P peer with
    | (_, .error err) => ret (binding, .error err)
    | (_, .ok (_ :: _)) => ret (binding, .ok false)
    | (_, .ok []) => confirmMembersAbsent P rest binding

/-- `withdrawConflictOutputs`. -/
def withdrawConflictOutputs (P : Platform) (members : List ConflictMember) (binding : Binding) :
    Op (Binding × Except GoError Bool) := do
  match ← cleanupMembers P members binding with
  | (binding, .error err) => ret (binding, .error err)
  | (binding, .ok members) => confirmMembersAbsent P members binding

/-! ## Status -/

/-- One attempt of `patchStatus`: rebase the desired status on the ownership record
that is persisted now. -/
def patchStatusOnce (binding : Binding) (desiredStatus : Status) :
    Op (Binding × Except GoError Unit) := do
  match ← getBinding binding.key with
  | .error err => ret (binding, .error err)
  | .ok latest =>
    let target : Status := { desiredStatus with
      pendingClusterSPIFFEID := latest.status.pendingClusterSPIFFEID
      ownedClusterSPIFFEID := latest.status.ownedClusterSPIFFEID }
    if latest.status = target then
      ret ({ binding with status := target, resourceVersion := latest.resourceVersion }, .ok ())
    else
      match ← patchBindingStatus .ordinary latest target with
      | .error err => ret (binding, .error err)
      | .ok updated =>
        ret ({ binding with
          status := updated.status, resourceVersion := updated.resourceVersion }, .ok ())

/-- `retry.RetryOnConflict` around the attempts, with so many retries left. -/
def patchStatusRetrying (binding : Binding) (desiredStatus : Status) :
    ℕ → Op (Binding × Except GoError Unit)
  | 0 => patchStatusOnce binding desiredStatus
  | retries + 1 => do
    match ← patchStatusOnce binding desiredStatus with
    | (binding, .ok ()) => ret (binding, .ok ())
    | (_, .error err) =>
      if err.kind = .conflict then patchStatusRetrying binding desiredStatus retries
      else ret (binding, .error err)

/-- `patchStatus`; `retry.DefaultRetry` makes five attempts. -/
def patchStatus (binding : Binding) : Op (Binding × Except GoError Unit) :=
  patchStatusRetrying binding binding.status 4

/-- `newManagedOutputApplyFailedStateError`. -/
def newManagedOutputApplyFailedStateError (err : GoError) : StateError :=
  ⟨.renderFailure, .managedOutputApplyFailed,
    str "Managed ClusterSPIFFEID output could not be applied: " ++ err.message⟩

/-- `newClusterSPIFFEIDCRDMissingStateError`. -/
def newClusterSPIFFEIDCRDMissingStateError : StateError :=
  ⟨.renderFailure, .clusterSPIFFEIDCRDMissing, str "ClusterSPIFFEID CRD is not installed"⟩

/-- Patch the status, and on success record the outcome it settles on. -/
def publishOutcome (binding : Binding) : Op (Except GoError Unit) := do
  match ← patchStatus binding with
  | (_, .error err) => ret (.error err)
  | (binding, .ok ()) => do
    recordTerminalOutcome binding
    ret (.ok ())

/-- `patchManagedOutputApplyFailureStatus`, and the two returns that follow each of
its calls: the error of the status patch if there is one, else the error reported. -/
def reportApplyFailure {α : Type} (binding : Binding) (applyErr : GoError) :
    Op (Except GoError α) := do
  let stateErr := newManagedOutputApplyFailedStateError applyErr
  let binding :=
    { binding with status := applyFailureStatus binding.status binding.generation stateErr }
  match ← publishOutcome binding with
  | .error statusErr => ret (.error statusErr)
  | .ok () => do
    recordEvent true stateErr.reason stateErr.message
    ret (.error applyErr)

/-- `shouldCleanupManagedClusterSPIFFEIDs`. -/
def shouldCleanupManagedClusterSPIFFEIDs (conditionType : ConditionType) : Bool :=
  conditionType = .invalidRef ∨ conditionType = .unsafeSelector ∨ conditionType = .renderFailure

/-- `isInfrastructureNotReadyReason`. -/
def isInfrastructureNotReadyReason (reason : Reason) : Bool :=
  reason = .inferencePoolCRDMissing ∨ reason = .clusterSPIFFEIDCRDMissing

/-- The cleanup of `applyStateError`. -/
def cleanupAfterStateError (P : Platform) (binding : Binding) :
    Op (Binding × Except GoError Unit) := do
  match ← cleanupManagedClusterSPIFFEIDs P binding with
  | (binding, .error err) => ret (binding, .error err)
  | (binding, .ok ()) =>
    match ← listManagedClusterSPIFFEIDs P binding with
    | (binding, .error err) => ret (binding, .error err)
    | (binding, .ok []) => clearClusterSPIFFEIDOwnership binding
    | (binding, .ok (_ :: _)) => ret (binding, .ok ())

/-- `applyStateError`. -/
def applyStateError (P : Platform) (binding : Binding) (stateErr : StateError) :
    Op (Binding × Except GoError Unit) :=
  if shouldCleanupManagedClusterSPIFFEIDs stateErr.conditionType then do
    match ← cleanupAfterStateError P binding with
    | (binding, .error err) => ret (binding, .error err)
    | (binding, .ok ()) =>
      ret ({ binding with
        status := applyFailureStatus binding.status binding.generation stateErr }, .ok ())
  else
    ret ({ binding with
      status := applyFailureStatus binding.status binding.generation stateErr }, .ok ())

namespace Reconciler

variable (r : Reconciler)

/-! ## Evaluating the namespace -/

/-- The end of `identityForConflictEvaluation`, for a binding that is not on its way
out or whose output is still there. -/
def renderPeer (current : Binding) (currentIdentity : Plan) (peer : Binding) :
    Op (Binding × Except GoError PeerVerdict) :=
  if peer.key = current.key then ret (peer, .ok (.relevant currentIdentity))
  else do
    match ← r.renderIdentityForBinding peer with
    | .ok plan => ret (peer, .ok (.relevant plan))
    | .error err =>
      match errorsAsStateError err with
      | none => ret (peer, .error err)
      | some _ =>
        match ← listManagedClusterSPIFFEIDs r.platform peer with
        | (peer, .error listErr) => ret (peer, .error listErr)
        | (peer, .ok []) => ret (peer, .ok .irrelevant)
        | (peer, .ok (_ :: _)) => ret (peer, .ok .blocksRecovery)

/-- `identityForConflictEvaluation`. -/
def identityForConflictEvaluation (current : Binding) (currentIdentity : Plan) (peer : Binding) :
    Op (Binding × Except GoError PeerVerdict) :=
  if peer.deleting then do
    match ← listManagedClusterSPIFFEIDs r.platform peer with
    | (peer, .error err) => ret (peer, .error err)
    | (peer, .ok []) => ret (peer, .ok .irrelevant)
    | (peer, .ok (_ :: _)) => r.renderPeer current currentIdentity peer
  else r.renderPeer current currentIdentity peer

/-- One round of the loop of `evaluateBindingConflicts`. -/
def scanPeer (binding : Binding) (currentIdentity : Plan) (scan : PeerScan) (peer : Binding) :
    Op (Except GoError PeerScan) := do
  match ← r.identityForConflictEvaluation binding currentIdentity peer with
  | (_, .error err) => ret (.error err)
  | (_, .ok .irrelevant) => ret (.ok scan)
  | (peer, .ok .blocksRecovery) =>
    ret (.ok { scan with blockedMembers := scan.blockedMembers ++ [peer] })
  | (peer, .ok (.relevant plan)) =>
    ret (.ok { scan with
      bindingsByRef := peer :: scan.bindingsByRef
      records := scan.records ++ [variantRecord peer plan] })

/-- What `evaluateBindingConflicts` makes of the collected peers. -/
def conflictStateOf (binding : Binding) (scan : PeerScan) : BindingConflictState :=
  (currentBindingConflictState binding scan.records scan.bindingsByRef).block binding
    scan.blockedMembers

/-- `evaluateBindingConflicts`. -/
def evaluateBindingConflicts (binding : Binding) (currentIdentity : Plan) :
    Op (Except GoError BindingConflictState) := do
  match ← listBindings binding.key binding.key.namespace_ with
  | .error err => ret (.error err)
  | .ok items =>
    match ← Prog.foldM (r.scanPeer binding currentIdentity) items ⟨[], [], []⟩ with
    | .error err => ret (.error err)
    | .ok scan => ret (.ok (conflictStateOf binding scan))

/-- `reconcileConflictState`: `none` when there is no conflict to handle. -/
def reconcileConflictState (binding : Binding) (currentIdentity : Plan) :
    Op (Binding × Option (Except GoError ReconcileResult)) := do
  match ← r.evaluateBindingConflicts binding currentIdentity with
  | .error err =>
    let result ← reportApplyFailure binding err
    ret (binding, some result)
  | .ok state =>
    if state.conflicts = [] ∧ state.blocked = false then ret (binding, none)
    else
      match ← withdrawConflictOutputs r.platform state.members binding with
      | (binding, .error err) =>
        let result ← reportApplyFailure binding err
        ret (binding, some result)
      | (binding, .ok outputsAbsent) =>
        if outputsAbsent = false ∨ state.blocked then
          let binding := { binding with
            status := applyPendingConflictStatus binding.status binding.generation }
          match ← patchStatus binding with
          | (binding, .error err) => ret (binding, some (.error err))
          | (binding, .ok ()) => ret (binding, some (.ok ⟨deleteVerificationRequeueAfter⟩))
        else
          let binding := { binding with
            status := applyConflictStatus binding.status binding.generation state.conflicts }
          match ← publishOutcome binding with
          | .error err => ret (binding, some (.error err))
          | .ok () => ret (binding, some (.ok ⟨0⟩))

/-! ## The phases -/

/-- The last steps of `reconcileDelete`. -/
def removeFinalizer (binding : Binding) : Op (Except GoError ReconcileResult) := do
  match ← (if recordedClusterSPIFFEIDName binding.status ≠ [] then
      clearClusterSPIFFEIDOwnership binding else ret (binding, .ok ())) with
  | (_, .error err) => ret (.error err)
  | (binding, .ok ()) =>
    match ← updateBinding { binding with
        finalizers := binding.finalizers.filter (· ≠ inferenceIdentityBindingFinalizer) } with
    | .error err => ret (.error err)
    | .ok _ => ret (.ok ⟨0⟩)

/-- `reconcileDelete`. -/
def reconcileDelete (binding : Binding) : Op (Except GoError ReconcileResult) :=
  if inferenceIdentityBindingFinalizer ∉ binding.finalizers then ret (.ok ⟨0⟩)
  else do
    match ← cleanupManagedClusterSPIFFEIDs r.platform binding with
    | (binding, .error err) => reportApplyFailure binding err
    | (binding, .ok ()) =>
      match ← listManagedClusterSPIFFEIDs r.platform binding with
      | (binding, .error err) => reportApplyFailure binding err
      | (_, .ok (_ :: _)) => ret (.ok ⟨deleteVerificationRequeueAfter⟩)
      | (binding, .ok []) => removeFinalizer binding

/-- Phase 3: make sure the finalizer is there. -/
def ensureFinalizer (binding : Binding) : Op (Except GoError Binding) :=
  if inferenceIdentityBindingFinalizer ∈ binding.finalizers then ret (.ok binding)
  else
    updateBinding { binding with
      finalizers := binding.finalizers ++ [inferenceIdentityBindingFinalizer] }

/-- How `Reconcile` ends on a state error, both after rendering and when the
`ClusterSPIFFEID` kind is not served. -/
def settleStateError (binding : Binding) (stateErr : StateError) :
    Op (Except GoError ReconcileResult) := do
  match ← applyStateError r.platform binding stateErr with
  | (binding, .error err) => reportApplyFailure binding err
  | (binding, .ok ()) =>
    match ← publishOutcome binding with
    | .error err => ret (.error err)
    | .ok () => do
      recordEvent true stateErr.reason stateErr.message
      if isInfrastructureNotReadyReason stateErr.reason then ret (.ok ⟨infraNotReadyRequeueAfter⟩)
      else ret (.ok ⟨0⟩)

/-- Phase 5: apply the managed output and publish success. -/
def applyOutput (binding : Binding) (identity : Plan) : Op (Except GoError ReconcileResult) := do
  match ← reconcileClusterSPIFFEIDs r.platform r.config.clusterSPIFFEIDClassName [identity]
      binding with
  | (binding, .error err) =>
    if err.kind = .noMatch then r.settleStateError binding newClusterSPIFFEIDCRDMissingStateError
    else reportApplyFailure binding err
  | (binding, .ok managedStatuses) =>
    let binding := { binding with
      status := applySuccessStatus binding.status binding.generation [identity] managedStatuses }
    match ← publishOutcome binding with
    | .error err => ret (.error err)
    | .ok () => do
      recordEvent false .reconciled (str "reconciled ClusterSPIFFEID " ++
        r.platform.quote (desiredName r.platform binding.key identity))
      ret (.ok ⟨0⟩)

/-- What follows once the identity is rendered. -/
def reconcileIdentity (binding : Binding) (identity : Plan) :
    Op (Except GoError ReconcileResult) := do
  match ← r.reconcileConflictState binding identity with
  | (_, some result) => ret result
  | (binding, none) =>
    match ← cleanupChangedClusterSPIFFEIDName r.platform binding
        (desiredName r.platform binding.key identity) with
    | (binding, .error err) => reportApplyFailure binding err
    | (binding, .ok true) =>
      let binding := { binding with
        status := applyPendingManagedOutputReplacementStatus binding.status binding.generation }
      match ← patchStatus binding with
      | (_, .error err) => ret (.error err)
      | (_, .ok ()) => ret (.ok ⟨deleteVerificationRequeueAfter⟩)
    | (binding, .ok false) => r.applyOutput binding identity

/-- The start of phase 4: the conditions and the configuration in the status. -/
def prepareStatus (binding : Binding) : Binding :=
  { binding with
    status := applyOperatorConfig (initializeConditions binding.status binding.generation)
      r.config.trustDomain r.config.clusterSPIFFEIDClassName }

/-- The rendering of phase 4. -/
def renderDesired (binding : Binding) : Op (Except GoError Plan) :=
  match r.bindingIdentityVariant binding with
  | .error err => ret (.error err.toError)
  | .ok () => r.computeDesiredState binding

/-- Phases 4 and 5, for a binding with the finalizer. -/
def reconcilePresent (binding : Binding) : Op (Except GoError ReconcileResult) := do
  match ← r.renderDesired binding with
  | .error err =>
    match errorsAsStateError err with
    | none => ret (.error err)
    | some stateErr => r.settleStateError binding stateErr
  | .ok identity => r.reconcileIdentity binding identity

/-- `Reconcile`. -/
def reconcile (key : NamespacedName) : Op (Except GoError ReconcileResult) := do
  match ← getBinding key with
  | .error err => if err.kind = .notFound then ret (.ok ⟨0⟩) else ret (.error err)
  | .ok binding =>
    if binding.deleting then r.reconcileDelete binding
    else
      match ← ensureFinalizer binding with
      | .error err => ret (.error err)
      | .ok binding => r.reconcilePresent (r.prepareStatus binding)

end Reconciler

end Kleym
