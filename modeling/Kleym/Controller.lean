import Kleym.Cluster

/-!
# The reconciler (`internal/controller`)

`reconcile` and the functions it is made of, as programs over the calls of
`Cluster`. A Go function that takes a pointer to a binding and may change it
takes the binding here and returns it beside its result; a function that can fail
returns an `Except`. Logging is left out.
-/

namespace Kleym

open GoString Prog

/-- A piece of the operator's code. -/
abbrev Op (α : Type) : Type := Prog Call Answer α

/-! ## The client -/

/-- `r.Get` of a binding. -/
def getBinding (key : NamespacedName) : Op (Except GoError Binding) := perform (Call.getBinding key)

/-- `r.List` of the bindings in a namespace, while `reader` is reconciled. -/
def listBindings (reader : NamespacedName) (namespace_ : GoString) :
    Op (Except GoError (List Binding)) :=
  perform (Call.listBindings reader namespace_)

/-- `r.Update` of a binding. -/
def updateBinding (binding : Binding) : Op (Except GoError Binding) :=
  perform (Call.updateBinding binding)

/-- `r.Status().Patch` of a binding with an optimistic lock on `base`. -/
def patchBindingStatus (kind : PatchKind) (base : Binding) (status : Status) :
    Op (Except GoError Binding) :=
  perform (Call.patchBindingStatus kind base status)

/-- `reader.Get` of a pool. -/
def getPool (gvk : GroupVersionKind) (key : NamespacedName) : Op (Except GoError InferencePool) :=
  perform (Call.getPool gvk key)

/-- `r.Get` of a `ClusterSPIFFEID`. -/
def getClusterSPIFFEID (name : GoString) : Op (Except GoError ClusterSPIFFEID) :=
  perform (Call.getClusterSPIFFEID name)

/-- `r.Create`. -/
def createClusterSPIFFEID (owner : GoString) (object : ClusterSPIFFEID) :
    Op (Except GoError ClusterSPIFFEID) :=
  perform (Call.createClusterSPIFFEID owner object)

/-- `r.Update` of a `ClusterSPIFFEID`. -/
def updateClusterSPIFFEID (owner : GoString) (object : ClusterSPIFFEID) :
    Op (Except GoError ClusterSPIFFEID) :=
  perform (Call.updateClusterSPIFFEID owner object)

/-- `r.Delete` with a UID precondition. -/
def deleteClusterSPIFFEID (owner name uid : GoString) : Op (Except GoError Unit) :=
  perform (Call.deleteClusterSPIFFEID owner name uid)

/-- `uuid.NewUUID`. -/
def newUUID (owner : GoString) : Op GoString := perform (Call.newUUID owner)

/-- `recordTerminalOutcome`. -/
def recordTerminalOutcome (binding : Binding) : Op Unit :=
  perform (Call.recordTerminalOutcome binding.status)

/-- `recordEventf`. -/
def recordEvent (warning : Bool) (reason : Reason) (message : GoString) : Op Unit :=
  perform (Call.recordEvent warning reason message)

/-! ## Ownership of managed output -/

/-- `managedOutputObservation`: a record held against the live object, with the
object where there is one. -/
inductive ManagedOutputObservation : Type where
  | unclaimedOutputAbsent
  | unclaimedOutputForeign (object : ClusterSPIFFEID)
  | pendingOutputAbsent (claimID : GoString)
  | pendingOutputMatched (object : ClusterSPIFFEID)
  | pendingOutputForeign (object : ClusterSPIFFEID)
  | confirmedOutputAbsent
  | confirmedOutputMatched (object : ClusterSPIFFEID)
  | confirmedOutputForeign (uid : GoString) (object : ClusterSPIFFEID)

/-- `classifyManagedClusterSPIFFEID`, with `classifyPendingOutput` and
`classifyConfirmedOutput`. -/
def classifyManagedClusterSPIFFEID :
    ManagedOutputRecord → Option ClusterSPIFFEID → ManagedOutputObservation
  | .unclaimed, none => .unclaimedOutputAbsent
  | .unclaimed, some object => .unclaimedOutputForeign object
  | .pending _ claimID, none => .pendingOutputAbsent claimID
  | .pending name claimID, some object =>
    if object.name = name ∧ clusterSPIFFEIDOwnershipClaim object = claimID then
      .pendingOutputMatched object
    else .pendingOutputForeign object
  | .confirmed _ _, none => .confirmedOutputAbsent
  | .confirmed name uid, some object =>
    if object.name = name ∧ object.uid = uid then .confirmedOutputMatched object
    else .confirmedOutputForeign uid object

/-- The name under which a record is looked up. -/
def lookupName (record : ManagedOutputRecord) (unclaimedName : GoString) : GoString :=
  match record with
  | .unclaimed => unclaimedName
  | .pending name _ => name
  | .confirmed name _ => name

/-- `observeManagedClusterSPIFFEID`. -/
def observeManagedClusterSPIFFEID (binding : Binding) (unclaimedName : GoString) :
    Op (Except GoError ManagedOutputObservation) :=
  match managedOutputRecordFromStatus binding.status with
  | .error err => ret (.error err)
  | .ok record =>
    if lookupName record unclaimedName = [] then
      ret (.ok (classifyManagedClusterSPIFFEID record none))
    else do
      match ← getClusterSPIFFEID (lookupName record unclaimedName) with
      | .error err =>
        if err.kind = .notFound then ret (.ok (classifyManagedClusterSPIFFEID record none))
        else ret (.error err)
      | .ok object => ret (.ok (classifyManagedClusterSPIFFEID record (some object)))

/-- `patchOwnershipStatus`: when the patch fails the binding in memory is rolled
back to `base`. -/
def patchOwnershipStatus (base : Binding) (status : Status) :
    Op (Binding × Except GoError Unit) := do
  match ← patchBindingStatus .ownership base status with
  | .error err => ret (base, .error err)
  | .ok target =>
    ret ({ base with status := status, resourceVersion := target.resourceVersion }, .ok ())

/-- The status `reserveClusterSPIFFEIDClaim` persists. -/
def reservedStatus (binding : Binding) (desiredName claimID : GoString) : Status :=
  { applyPendingManagedOutputStatus binding.status binding.generation with
    pendingClusterSPIFFEID := some ⟨desiredName, claimID⟩
    ownedClusterSPIFFEID := none }

/-- The status `confirmClusterSPIFFEIDOwnership` persists. -/
def confirmedStatus (binding : Binding) (name uid : GoString) : Status :=
  { binding.status with
    pendingClusterSPIFFEID := none
    ownedClusterSPIFFEID := some ⟨name, uid⟩ }

/-- The status `clearClusterSPIFFEIDOwnership` persists. -/
def clearedStatus (binding : Binding) : Status :=
  { binding.status with pendingClusterSPIFFEID := none, ownedClusterSPIFFEID := none }

/-- `confirmClusterSPIFFEIDOwnership`. -/
def confirmClusterSPIFFEIDOwnership (P : Platform) (binding : Binding) (name uid : GoString) :
    Op (Binding × Except GoError Unit) :=
  if uid = [] then
    ret (binding, .error (plainError (str "cannot confirm ClusterSPIFFEID " ++ P.quote name ++
      str " ownership without a Kubernetes UID")))
  else patchOwnershipStatus binding (confirmedStatus binding name uid)

/-- `clearClusterSPIFFEIDOwnership`. -/
def clearClusterSPIFFEIDOwnership (binding : Binding) : Op (Binding × Except GoError Unit) :=
  if binding.status.pendingClusterSPIFFEID = none ∧ binding.status.ownedClusterSPIFFEID = none then
    ret (binding, .ok ())
  else patchOwnershipStatus binding (clearedStatus binding)

/-- `reserveClusterSPIFFEIDClaim`: the claim, once it is persisted. -/
def reserveClusterSPIFFEIDClaim (P : Platform) (binding : Binding) (desiredName : GoString) :
    Op (Binding × Except GoError GoString) :=
  match managedOutputRecordFromStatus binding.status with
  | .error err => ret (binding, .error err)
  | .ok .unclaimed => do
    let claimID ← newUUID binding.uid
    match ← patchOwnershipStatus binding (reservedStatus binding desiredName claimID) with
    | (binding, .error err) => ret (binding, .error err)
    | (binding, .ok ()) => ret (binding, .ok claimID)
  | .ok record =>
    ret (binding, .error (plainError (str "cannot reserve ClusterSPIFFEID " ++
      P.quote desiredName ++ str " while " ++ P.quote (lookupName record []) ++
      str " is recorded")))

/-! ## Listing and cleaning up what a binding owns -/

section

variable (P : Platform)

/-- `listManagedClusterSPIFFEIDs`: the recorded object if it is live. A pending
record is confirmed when its object is there; a record whose object is not there is
cleared. -/
def listManagedClusterSPIFFEIDs (binding : Binding) :
    Op (Binding × Except GoError (List ClusterSPIFFEID)) := do
  match ← observeManagedClusterSPIFFEID binding [] with
  | .error err => ret (binding, .error err)
  | .ok (.pendingOutputMatched object) =>
    match ← confirmClusterSPIFFEIDOwnership P binding object.name object.uid with
    | (binding, .error err) => ret (binding, .error err)
    | (binding, .ok ()) => ret (binding, .ok [object])
  | .ok (.confirmedOutputMatched object) => ret (binding, .ok [object])
  | .ok (.unclaimedOutputAbsent) => ret (binding, .ok [])
  | .ok (.unclaimedOutputForeign _) => ret (binding, .ok [])
  | .ok _ =>
    match ← clearClusterSPIFFEIDOwnership binding with
    | (binding, .error err) => ret (binding, .error err)
    | (binding, .ok ()) => ret (binding, .ok [])

/-- The delete loop of `cleanupManagedClusterSPIFFEIDs`. -/
def deleteManagedObjects (owner : GoString) : List ClusterSPIFFEID → Op (Except GoError Unit)
  | [] => ret (.ok ())
  | object :: rest => do
    match ← deleteClusterSPIFFEID owner object.name object.uid with
    | .error err =>
      if err.kind = .notFound then deleteManagedObjects owner rest else ret (.error err)
    | .ok () => deleteManagedObjects owner rest

/-- `cleanupManagedClusterSPIFFEIDs`. -/
def cleanupManagedClusterSPIFFEIDs (binding : Binding) : Op (Binding × Except GoError Unit) := do
  match ← listManagedClusterSPIFFEIDs P binding with
  | (binding, .error err) => ret (binding, .error err)
  | (binding, .ok objects) =>
    let result ← deleteManagedObjects binding.uid objects
    ret (binding, result)

/-- `cleanupChangedClusterSPIFFEIDName`: `true` while the output under the old
name is still there. -/
def cleanupChangedClusterSPIFFEIDName (binding : Binding) (desiredName : GoString) :
    Op (Binding × Except GoError Bool) :=
  if recordedClusterSPIFFEIDName binding.status = [] ∨
      recordedClusterSPIFFEIDName binding.status = desiredName then
    ret (binding, .ok false)
  else do
    match ← cleanupManagedClusterSPIFFEIDs P binding with
    | (binding, .error err) => ret (binding, .error err)
    | (binding, .ok ()) =>
      match ← listManagedClusterSPIFFEIDs P binding with
      | (binding, .error err) => ret (binding, .error err)
      | (binding, .ok []) =>
        if recordedClusterSPIFFEIDName binding.status ≠ [] then
          match ← clearClusterSPIFFEIDOwnership binding with
          | (binding, .error err) => ret (binding, .error err)
          | (binding, .ok ()) => ret (binding, .ok false)
        else ret (binding, .ok false)
      | (binding, .ok (_ :: _)) => ret (binding, .ok true)

/-! ## Applying the desired object -/

/-- `foreignManagedOutputError`. -/
def foreignManagedOutputError (name : GoString) : ManagedOutputObservation → GoError
  | .pendingOutputForeign _ =>
    plainError (str "refusing same-name ClusterSPIFFEID " ++ P.quote name ++
      str ": live ownership claim does not match the durable pending claim")
  | .confirmedOutputForeign uid object =>
    plainError (str "refusing same-name ClusterSPIFFEID " ++ P.quote name ++ str ": live UID " ++
      P.quote object.uid ++ str " does not match confirmed UID " ++ P.quote uid)
  | _ =>
    plainError (str "refusing pre-existing ClusterSPIFFEID " ++ P.quote name ++
      str " without durable ownership status")

/-- `authorizeManagedOutputApply`: the live object that may be updated, or `none`
for an absent slot. -/
def authorizeManagedOutputApply (binding : Binding) (desired : ClusterSPIFFEID)
    (observation : ManagedOutputObservation) :
    Op (Binding × Except GoError (Option ClusterSPIFFEID)) :=
  match observation with
  | .unclaimedOutputAbsent => ret (binding, .ok none)
  | .pendingOutputAbsent _ => ret (binding, .ok none)
  | .pendingOutputMatched object => do
    match ← confirmClusterSPIFFEIDOwnership P binding object.name object.uid with
    | (binding, .error err) => ret (binding, .error err)
    | (binding, .ok ()) => ret (binding, .ok (some object))
  | .confirmedOutputMatched object => ret (binding, .ok (some object))
  | .confirmedOutputAbsent => do
    match ← clearClusterSPIFFEIDOwnership binding with
    | (binding, .error err) => ret (binding, .error err)
    | (binding, .ok ()) => ret (binding, .ok none)
  | .unclaimedOutputForeign _ =>
    ret (binding, .error (foreignManagedOutputError P desired.name observation))
  | .pendingOutputForeign _ | .confirmedOutputForeign _ _ => do
    match ← clearClusterSPIFFEIDOwnership binding with
    | (binding, .error err) => ret (binding, .error err)
    | (binding, .ok ()) =>
      ret (binding, .error (foreignManagedOutputError P desired.name observation))

/-- The end of `createManagedClusterSPIFFEID`, with the claim persisted. -/
def submitManagedClusterSPIFFEID (binding : Binding) (identity : Plan)
    (desired : ClusterSPIFFEID) (claimID : GoString) :
    Op (Binding × Except GoError RenderedClusterSPIFFEIDStatus) := do
  match ← createClusterSPIFFEID binding.uid (setClusterSPIFFEIDOwnershipClaim desired claimID) with
  | .error err =>
    if err.kind = .alreadyExists then
      ret (binding, .error ⟨err.kind, str "refusing same-name ClusterSPIFFEID " ++
        P.quote desired.name ++ str " after create race: " ++ err.message⟩)
    else ret (binding, .error err)
  | .ok object =>
    if object.uid = [] then
      ret (binding, .error (plainError (str "created ClusterSPIFFEID " ++ P.quote object.name ++
        str " has no Kubernetes UID")))
    else
      match ← confirmClusterSPIFFEIDOwnership P binding object.name object.uid with
      | (binding, .error err) => ret (binding, .error err)
      | (binding, .ok ()) =>
        ret (binding, .ok (renderedClusterSPIFFEIDStatus P identity object))

/-- `createManagedClusterSPIFFEID`: a pending claim whose object is absent is used
again, otherwise a new one is reserved first. -/
def createManagedClusterSPIFFEID (binding : Binding) (identity : Plan)
    (desired : ClusterSPIFFEID) (observation : ManagedOutputObservation) :
    Op (Binding × Except GoError RenderedClusterSPIFFEIDStatus) :=
  match observation with
  | .pendingOutputAbsent claimID => submitManagedClusterSPIFFEID P binding identity desired claimID
  | _ => do
    match ← reserveClusterSPIFFEIDClaim P binding desired.name with
    | (binding, .error err) => ret (binding, .error err)
    | (binding, .ok claimID) => submitManagedClusterSPIFFEID P binding identity desired claimID

/-- `updateManagedClusterSPIFFEID`, for the binding with the UID `owner`. -/
def updateManagedClusterSPIFFEID (owner : GoString) (identity : Plan)
    (current desired : ClusterSPIFFEID) : Op (Except GoError RenderedClusterSPIFFEIDStatus) :=
  if clusterSPIFFEIDInSync current desired then
    ret (.ok (renderedClusterSPIFFEIDStatus P identity current))
  else do
    match ← updateClusterSPIFFEID owner (mergeDesiredClusterSPIFFEID current desired) with
    | .error err => ret (.error err)
    | .ok updated => ret (.ok (renderedClusterSPIFFEIDStatus P identity updated))

/-- `reconcileClusterSPIFFEID`. -/
def reconcileClusterSPIFFEID (binding : Binding) (identity : Plan) (desired : ClusterSPIFFEID) :
    Op (Binding × Except GoError RenderedClusterSPIFFEIDStatus) := do
  match ← observeManagedClusterSPIFFEID binding desired.name with
  | .error err => ret (binding, .error err)
  | .ok observation =>
    match ← authorizeManagedOutputApply P binding desired observation with
    | (binding, .error err) => ret (binding, .error err)
    | (binding, .ok none) => createManagedClusterSPIFFEID P binding identity desired observation
    | (binding, .ok (some current)) =>
      let result ← updateManagedClusterSPIFFEID P binding.uid identity current desired
      ret (binding, result)

/-- `reconcileClusterSPIFFEIDs`: the loop over the identities of a binding. -/
def reconcileClusterSPIFFEIDs (className : GoString) :
    List Plan → Binding → Op (Binding × Except GoError (List RenderedClusterSPIFFEIDStatus))
  | [], binding => ret (binding, .ok [])
  | identity :: rest, binding => do
    match ← reconcileClusterSPIFFEID P binding identity
        (desiredClusterSPIFFEID P binding.key identity className) with
    | (binding, .error err) => ret (binding, .error err)
    | (binding, .ok status) =>
      match ← reconcileClusterSPIFFEIDs className rest binding with
      | (binding, .error err) => ret (binding, .error err)
      | (binding, .ok statuses) => ret (binding, .ok (status :: statuses))

end

end Kleym
