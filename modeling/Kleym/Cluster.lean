import Kleym.Spirecm
import Kleym.Apimachinery
import Kleym.Store
import Kleym.Interaction

/-!
# The cluster the operator works in

The API server, as far as the operator can tell: bindings, `ClusterSPIFFEID`
objects and pools, each in a store with one entry per name. Every write gets the
next revision of the server; a conditional write names the revision it was
computed from and is refused when the object has moved on.

Beside what the server stores, a `World` keeps its own history: every version
of a binding or an object there ever was, every identifier handed out, which
claim was generated and which object was created for which binding. No call reads
these fields, except that a cache may serve an old version. They are what the
results are stated in.

Everything that is not determined by the call and the state is in a `Choice`:
whether the call fails and whether it then took effect all the same, the
identifier the server assigns, whether a deleted object lingers, and which
version a cache returns.
-/

namespace Kleym

open GoString

/-! ## Worlds -/

/-- What a pool is stored under. -/
def InferencePool.key (pool : InferencePool) : GroupVersionKind × NamespacedName :=
  (pool.gvk, ⟨pool.namespace_, pool.name⟩)

/-- The state of the cluster. -/
structure World where
  bindings : Store Binding.key
  objects : Store ClusterSPIFFEID.name
  pools : Store InferencePool.key
  /-- the pool kinds the server knows -/
  served : List GroupVersionKind
  /-- the revision of the last write -/
  revision : ℕ
  /-- every version of every binding, newest first -/
  bindingVersions : List Binding
  /-- every version of every `ClusterSPIFFEID`, newest first -/
  objectVersions : List ClusterSPIFFEID
  /-- every UID and every ownership claim that has been in use -/
  identifiers : List GoString
  /-- the claims the operator generated, each with the UID of its binding -/
  claims : List (GoString × GoString)
  /-- the UIDs of the objects the operator created, each with the UID of its binding -/
  created : List (GoString × GoString)

namespace World

/-- A cluster in which nothing has happened yet. -/
def initial (served : List GroupVersionKind) : World where
  bindings := .empty
  objects := .empty
  pools := .empty
  served := served
  revision := 0
  bindingVersions := []
  objectVersions := []
  identifiers := []
  claims := []
  created := []

/-- Persist a binding under the next revision. -/
def saveBinding (w : World) (b : Binding) : World :=
  let b := { b with resourceVersion := w.revision + 1 }
  { w with
    bindings := w.bindings.put b
    revision := w.revision + 1
    bindingVersions := b :: w.bindingVersions }

/-- Take a binding out of the store. -/
def dropBinding (w : World) (key : NamespacedName) : World :=
  { w with bindings := w.bindings.erase key, revision := w.revision + 1 }

/-- Persist a binding, or let it go when it is being deleted and nothing holds it. -/
def settleBinding (w : World) (b : Binding) : World :=
  if b.deleting ∧ b.finalizers = [] then w.dropBinding b.key else w.saveBinding b

/-- Persist an object under the next revision. -/
def saveObject (w : World) (o : ClusterSPIFFEID) : World :=
  let o := { o with resourceVersion := w.revision + 1 }
  { w with
    objects := w.objects.put o
    revision := w.revision + 1
    objectVersions := o :: w.objectVersions }

/-- Take an object out of the store. -/
def dropObject (w : World) (name : GoString) : World :=
  { w with objects := w.objects.erase name, revision := w.revision + 1 }

/-- An identifier that nobody has used before. -/
def Fresh (w : World) (id : GoString) : Prop := trimSpace id ≠ [] ∧ id ∉ w.identifiers

instance (w : World) (id : GoString) : Decidable (w.Fresh id) := by
  unfold Fresh; infer_instance

end World

/-! ## Patches -/

/-- The JSON merge patch from `base` to `target` on a field that is replaced as a whole. -/
def mergeField {α : Type} [DecidableEq α] (base target current : α) : α :=
  if base = target then current else target

/-- The merge patch on an optional object: a patch goes into an object that both
sides have, and fields it does not mention keep the value they have in the store. -/
def mergeOptional {α : Type} [DecidableEq α] (zero : α) (merge : α → α → α → α)
    (base target current : Option α) : Option α :=
  if base = target then current
  else
    match base, target with
    | some base, some target => some (merge base target (current.getD zero))
    | _, target => target

/-- The merge patch on a pending record. -/
def mergePending (base target current : PendingClusterSPIFFEIDStatus) :
    PendingClusterSPIFFEIDStatus :=
  ⟨mergeField base.name target.name current.name,
    mergeField base.claimID target.claimID current.claimID⟩

/-- The merge patch on a confirmed record. -/
def mergeOwned (base target current : OwnedClusterSPIFFEIDStatus) :
    OwnedClusterSPIFFEIDStatus :=
  ⟨mergeField base.name target.name current.name, mergeField base.uid target.uid current.uid⟩

/-- The merge patch on a rendered-output status. -/
def mergeRendered (base target current : RenderedClusterSPIFFEIDStatus) :
    RenderedClusterSPIFFEIDStatus :=
  ⟨mergeField base.name target.name current.name,
    mergeField base.spiffeID target.spiffeID current.spiffeID,
    mergeField base.selectorFingerprint target.selectorFingerprint current.selectorFingerprint,
    mergeField base.observedGeneration target.observedGeneration current.observedGeneration⟩

/-- `client.MergeFrom(base)` towards `target`, applied to the stored status. Lists
are replaced as a whole. -/
def mergeStatus (base target current : Status) : Status where
  conditions := mergeField base.conditions target.conditions current.conditions
  trustDomain := mergeField base.trustDomain target.trustDomain current.trustDomain
  clusterSPIFFEIDClassName := mergeField base.clusterSPIFFEIDClassName
    target.clusterSPIFFEIDClassName current.clusterSPIFFEIDClassName
  conflicts := mergeField base.conflicts target.conflicts current.conflicts
  computedSpiffeIDs := mergeField base.computedSpiffeIDs target.computedSpiffeIDs
    current.computedSpiffeIDs
  renderedSelectors := mergeField base.renderedSelectors target.renderedSelectors
    current.renderedSelectors
  pendingClusterSPIFFEID := mergeOptional ⟨[], []⟩ mergePending base.pendingClusterSPIFFEID
    target.pendingClusterSPIFFEID current.pendingClusterSPIFFEID
  ownedClusterSPIFFEID := mergeOptional ⟨[], []⟩ mergeOwned base.ownedClusterSPIFFEID
    target.ownedClusterSPIFFEID current.ownedClusterSPIFFEID
  renderedClusterSPIFFEID := mergeOptional ⟨[], [], [], none⟩ mergeRendered
    base.renderedClusterSPIFFEID target.renderedClusterSPIFFEID current.renderedClusterSPIFFEID

/-- The rules of the CRD on the ownership record: not both records, and no empty
field in either. -/
def Status.Admitted (status : Status) : Prop :=
  ¬(status.pendingClusterSPIFFEID.isSome ∧ status.ownedClusterSPIFFEID.isSome) ∧
  (∀ pending ∈ status.pendingClusterSPIFFEID, pending.name ≠ [] ∧ pending.claimID ≠ []) ∧
  (∀ owned ∈ status.ownedClusterSPIFFEID, owned.name ≠ [] ∧ owned.uid ≠ [])

instance (status : Status) : Decidable status.Admitted := by
  unfold Status.Admitted; infer_instance

/-! ## Calls

The calls of the operator, in the order of the client's methods. The UID of the
binding that a write to a `ClusterSPIFFEID` is made for, and the kind of a status
patch, are no part of the request; they say which line of the source made it. -/

/-- Which of the two functions sends a status patch. -/
inductive PatchKind : Type where
  /-- `patchOwnershipStatus` -/
  | ownership
  /-- `patchStatus` -/
  | ordinary
  deriving DecidableEq

/-- A call of the operator. -/
inductive Call : Type where
  | getBinding (key : NamespacedName)
  | listBindings (reader : NamespacedName) (namespace_ : GoString)
  | updateBinding (binding : Binding)
  | patchBindingStatus (kind : PatchKind) (base : Binding) (status : Status)
  | getPool (gvk : GroupVersionKind) (key : NamespacedName)
  | getClusterSPIFFEID (name : GoString)
  | createClusterSPIFFEID (owner : GoString) (object : ClusterSPIFFEID)
  | updateClusterSPIFFEID (owner : GoString) (object : ClusterSPIFFEID)
  | deleteClusterSPIFFEID (owner name uid : GoString)
  | newUUID (owner : GoString)
  | recordTerminalOutcome (status : Status)
  | recordEvent (warning : Bool) (reason : Reason) (message : GoString)

/-- What a call is answered with. -/
def Answer : Call → Type
  | .getBinding _ => Except GoError Binding
  | .listBindings _ _ => Except GoError (List Binding)
  | .updateBinding _ => Except GoError Binding
  | .patchBindingStatus _ _ _ => Except GoError Binding
  | .getPool _ _ => Except GoError InferencePool
  | .getClusterSPIFFEID _ => Except GoError ClusterSPIFFEID
  | .createClusterSPIFFEID _ _ => Except GoError ClusterSPIFFEID
  | .updateClusterSPIFFEID _ _ => Except GoError ClusterSPIFFEID
  | .deleteClusterSPIFFEID _ _ _ => Except GoError Unit
  | .newUUID _ => GoString
  | .recordTerminalOutcome _ => Unit
  | .recordEvent _ _ _ => Unit

/-- Whether a call fails, and whether it takes effect when it does. -/
inductive Fault : Type where
  | none
  /-- an error, and nothing happened -/
  | refused (err : GoError)
  /-- an error after the call took effect -/
  | lost (err : GoError)

/-- The error a fault ends a call with. -/
def Fault.error : Fault → Option GoError
  | .none => Option.none
  | .refused err => some err
  | .lost err => some err

/-- Where a read is served from. -/
inductive Reading : Type where
  | current
  /-- a cache that holds these of the versions there were -/
  | stale (picks : List ℕ)
  deriving DecidableEq

/-- Listed as they are stored. -/
def storeOrder : { f : List Binding → List Binding // ∀ l, (f l).Perm l } := ⟨id, fun _ => .refl _⟩

/-- What is left open by a call and the state it is made in. -/
structure Choice where
  fault : Fault := .none
  /-- the UID or UUID that is handed out -/
  fresh : GoString := []
  /-- a deleted object stays until its finalizers are done -/
  lingers : Bool := false
  reading : Reading := .current
  /-- the order of a listing -/
  order : { f : List Binding → List Binding // ∀ l, (f l).Perm l } := storeOrder

/-- Let a fault strike a call that would be served as given. -/
def Fault.strike {β : Type} (fault : Fault) (w : World) (served : Except GoError β × World) :
    Except GoError β × World :=
  match fault with
  | .none => served
  | .refused err => (.error err, w)
  | .lost err => (.error err, served.2)

/-- The text the API server puts a name in quotes in. -/
def resourceText (resource name : GoString) : GoString := resource ++ str " \"" ++ name ++ str "\""

/-- `apierrors.NewNotFound`. -/
def notFoundError (resource name : GoString) : GoError :=
  ⟨.notFound, resourceText resource name ++ str " not found"⟩

/-- `apierrors.NewAlreadyExists`. -/
def alreadyExistsError (resource name : GoString) : GoError :=
  ⟨.alreadyExists, resourceText resource name ++ str " already exists"⟩

/-- `apierrors.NewConflict`. -/
def conflictError (resource name : GoString) : GoError :=
  ⟨.conflict, str "Operation cannot be fulfilled on " ++ resourceText resource name ++
    str ": the object has been modified; please apply your changes to the latest version and " ++
    str "try again"⟩

/-- `apierrors.NewInvalid`. -/
def invalidError (resource name : GoString) : GoError :=
  ⟨.other, resourceText resource name ++ str " is invalid"⟩

/-- `meta.NoKindMatchError`. -/
def noMatchError (gvk : GroupVersionKind) : GoError :=
  ⟨.noMatch, str "no matches for kind \"" ++ gvk.kind ++ str "\" in version \"" ++ gvk.group ++
    str "/" ++ gvk.version ++ str "\""⟩

/-- The resource name of bindings in error texts. -/
def bindingResource : GoString := str "inferenceidentitybindings.kleym.sonda.red"

/-- The resource name of `ClusterSPIFFEID`s in error texts. -/
def objectResource : GoString := str "clusterspiffeids.spire.spiffe.io"

/-- The resource name of pools in error texts. -/
def poolResource : GoString := str "inferencepools.inference.networking.k8s.io"

/-! ## What the server does with a call -/

/-- A stored binding after an update: metadata and spec are replaced, the status is
a subresource and stays. -/
def Binding.replacedBy (stored b : Binding) : Binding :=
  { stored with
    finalizers := b.finalizers
    spec := b.spec
    generation := if stored.spec = b.spec then stored.generation else stored.generation + 1 }

/-- A stored binding after a status patch from `base` to `status`. -/
def Binding.patchedBy (stored base : Binding) (status : Status) : Binding :=
  { stored with status := mergeStatus base.status status stored.status }

/-- Two specs are the same JSON value. -/
def ClusterSPIFFEID.sameSpec : Option Json → Option Json → Bool
  | none, none => true
  | some a, some b => Json.deepEqual a b
  | _, _ => false

/-- An object as it is first stored. -/
def ClusterSPIFFEID.createdAs (object : ClusterSPIFFEID) (uid : GoString) : ClusterSPIFFEID :=
  { object with uid := uid, generation := 1, terminating := false }

/-- A stored object after an update. -/
def ClusterSPIFFEID.replacedBy (stored object : ClusterSPIFFEID) : ClusterSPIFFEID :=
  { object with
    terminating := stored.terminating
    generation :=
      if sameSpec stored.spec object.spec then stored.generation else stored.generation + 1 }

/-- A binding that is marked for deletion. The first mark moves the generation. -/
def Binding.markedDeleted (stored : Binding) : Binding :=
  { stored with
    deleting := true
    generation := if stored.deleting then stored.generation else stored.generation + 1 }

/-- An object that is marked for deletion. The first mark moves the generation. -/
def ClusterSPIFFEID.markedDeleted (stored : ClusterSPIFFEID) : ClusterSPIFFEID :=
  { stored with
    terminating := true
    generation := if stored.terminating then stored.generation else stored.generation + 1 }

/-- The values of an object's labels are label values, as the server demands of what it stores. -/
def ClusterSPIFFEID.ValidLabels (object : ClusterSPIFFEID) : Prop :=
  ∀ entry ∈ (Json.asStringMap object.labels).getD [],
    (Apimachinery.isValidLabelValue entry.2).length = 0

instance (object : ClusterSPIFFEID) : Decidable object.ValidLabels :=
  inferInstanceAs (Decidable (∀ entry ∈ _, _))

/-- Merging labels that are fine into labels that are fine. -/
theorem ClusterSPIFFEID.ValidLabels.merge {current desired : ClusterSPIFFEID}
    (hcurrent : current.ValidLabels) (hdesired : desired.ValidLabels) :
    (mergeDesiredClusterSPIFFEID current desired).ValidLabels := by
  intro entry hentry
  rw [mergeDesiredClusterSPIFFEID, asStringMap_ofStringMap] at hentry
  rcases mem_foldl_setEntry hentry with hentry | hentry
  · exact hdesired entry hentry
  · exact hcurrent entry hentry

namespace World

variable (w : World)

/-- The old versions of bindings a cache has picked. -/
def pickBindings (picks : List ℕ) : List Binding := picks.filterMap fun i => w.bindingVersions[i]?

/-- Read one binding. -/
def readBinding (reading : Reading) (key : NamespacedName) : Except GoError Binding :=
  let found :=
    match reading with
    | .current => w.bindings.get key
    | .stale picks => (w.pickBindings picks).find? fun b => b.key = key
  match found with
  | some b => .ok b
  | none => .error (notFoundError bindingResource key.name)

/-- Read the bindings of a namespace. -/
def readBindings (reading : Reading) (order : List Binding → List Binding)
    (namespace_ : GoString) : List Binding :=
  let found :=
    match reading with
    | .current => w.bindings.entries
    | .stale picks => w.pickBindings picks
  order (found.filter fun b => b.key.namespace_ = namespace_)

/-- Update a binding, conditional on its version and UID. -/
def replaceBinding (b : Binding) : Except GoError Binding × World :=
  match w.bindings.get b.key with
  | none => (.error (notFoundError bindingResource b.key.name), w)
  | some stored =>
    if stored.resourceVersion ≠ b.resourceVersion ∨ stored.uid ≠ b.uid then
      (.error (conflictError bindingResource b.key.name), w)
    else
      (.ok { stored.replacedBy b with resourceVersion := w.revision + 1 },
        w.settleBinding (stored.replacedBy b))

/-- Patch a binding's status from `base` to `status`, conditional on the version
of `base`. -/
def patchStatusOf (base : Binding) (status : Status) : Except GoError Binding × World :=
  match w.bindings.get base.key with
  | none => (.error (notFoundError bindingResource base.key.name), w)
  | some stored =>
    if stored.resourceVersion ≠ base.resourceVersion then
      (.error (conflictError bindingResource base.key.name), w)
    else
      if (stored.patchedBy base status).status.Admitted then
        (.ok { stored.patchedBy base status with resourceVersion := w.revision + 1 },
          w.saveBinding (stored.patchedBy base status))
      else (.error (invalidError bindingResource base.key.name), w)

/-- Read one pool under one kind. -/
def readPool (gvk : GroupVersionKind) (key : NamespacedName) : Except GoError InferencePool :=
  if gvk ∉ w.served then .error (noMatchError gvk)
  else
    match w.pools.get (gvk, key) with
    | some pool => .ok pool
    | none => .error (notFoundError poolResource key.name)

/-- Read one `ClusterSPIFFEID`. -/
def readObject (reading : Reading) (name : GoString) : Except GoError ClusterSPIFFEID :=
  let found :=
    match reading with
    | .current => w.objects.get name
    | .stale picks =>
      (picks.filterMap fun i => w.objectVersions[i]?).find? fun o => o.name = name
  match found with
  | some o => .ok o
  | none => .error (notFoundError objectResource name)

/-- Create a `ClusterSPIFFEID` under a new UID. It is validated before the name is looked at. -/
def createObject (fresh owner : GoString) (object : ClusterSPIFFEID) :
    Except GoError ClusterSPIFFEID × World :=
  if object.ValidLabels then
    match w.objects.get object.name with
    | some _ => (.error (alreadyExistsError objectResource object.name), w)
    | none =>
      (.ok { object.createdAs fresh with resourceVersion := w.revision + 1 },
        { w.saveObject (object.createdAs fresh) with
          identifiers := fresh :: w.identifiers
          created := (fresh, owner) :: w.created })
  else (.error (invalidError objectResource object.name), w)

/-- Replace a `ClusterSPIFFEID`, conditional on its version and UID, and then validated. -/
def replaceObject (object : ClusterSPIFFEID) : Except GoError ClusterSPIFFEID × World :=
  match w.objects.get object.name with
  | none => (.error (notFoundError objectResource object.name), w)
  | some stored =>
    if stored.resourceVersion ≠ object.resourceVersion ∨ stored.uid ≠ object.uid then
      (.error (conflictError objectResource object.name), w)
    else if object.ValidLabels then
      (.ok { stored.replacedBy object with resourceVersion := w.revision + 1 },
        w.saveObject (stored.replacedBy object))
    else (.error (invalidError objectResource object.name), w)

/-- Delete a `ClusterSPIFFEID`, conditional on its UID. -/
def deleteObject (lingers : Bool) (name uid : GoString) : Except GoError Unit × World :=
  match w.objects.get name with
  | none => (.error (notFoundError objectResource name), w)
  | some stored =>
    if stored.uid ≠ uid then (.error (conflictError objectResource name), w)
    else if lingers then (.ok (), w.saveObject stored.markedDeleted)
    else (.ok (), w.dropObject name)

/-- Generate a UUID for a binding. -/
def issueClaim (fresh owner : GoString) : World :=
  { w with
    identifiers := fresh :: w.identifiers
    claims := (fresh, owner) :: w.claims }

end World

/-- The answer to a call and the state it leaves, under a choice. -/
def respond (choice : Choice) : (c : Call) → World → Answer c × World
  | .getBinding key, w => choice.fault.strike w (w.readBinding choice.reading key, w)
  | .listBindings _ namespace_, w =>
    choice.fault.strike w (.ok (w.readBindings choice.reading choice.order.1 namespace_), w)
  | .updateBinding binding, w => choice.fault.strike w (w.replaceBinding binding)
  | .patchBindingStatus _ base status, w => choice.fault.strike w (w.patchStatusOf base status)
  | .getPool gvk key, w => choice.fault.strike w (w.readPool gvk key, w)
  | .getClusterSPIFFEID name, w => choice.fault.strike w (w.readObject choice.reading name, w)
  | .createClusterSPIFFEID owner object, w =>
    choice.fault.strike w (w.createObject choice.fresh owner object)
  | .updateClusterSPIFFEID _ object, w => choice.fault.strike w (w.replaceObject object)
  | .deleteClusterSPIFFEID _ name uid, w =>
    choice.fault.strike w (w.deleteObject choice.lingers name uid)
  | .newUUID owner, w => (choice.fresh, w.issueClaim choice.fresh owner)
  | .recordTerminalOutcome _, w => ((), w)
  | .recordEvent _ _ _, w => ((), w)

/-- What a read of a pool comes to: the pool that was asked for, or an error of the API. -/
def PoolAnswered (gvk : GroupVersionKind) (key : NamespacedName) :
    Except GoError InferencePool → Prop
  | .ok pool => pool.key = (gvk, key)
  | .error err => errorsAsStateError err = none

/-! ## What can come of a call

One inversion lemma for each kind of write: it is refused and nothing changes, or
it goes through, and then its conditions held. -/

namespace World

variable {w : World}

theorem mem_pickBindings {picks : List ℕ} {b : Binding} (h : b ∈ w.pickBindings picks) :
    b ∈ w.bindingVersions := by
  obtain ⟨i, -, hi⟩ := List.mem_filterMap.mp h
  exact List.mem_of_getElem? hi

/-- A read of a binding returns the stored one or an old version. -/
theorem readBinding_ok {reading : Reading} {key : NamespacedName} {b : Binding}
    (h : w.readBinding reading key = .ok b) :
    b.key = key ∧ (b ∈ w.bindings.entries ∨ b ∈ w.bindingVersions) ∧
      (reading = .current → b ∈ w.bindings.entries) := by
  unfold readBinding at h
  cases reading with
  | current =>
    dsimp only at h
    split at h
    · rename_i b' hfound
      cases h
      obtain ⟨hmem, hkey⟩ := Store.get_eq_some.mp hfound
      exact ⟨hkey, Or.inl hmem, fun _ => hmem⟩
    · cases h
  | stale picks =>
    dsimp only at h
    split at h
    · rename_i b' hfound
      cases h
      refine ⟨by simpa using List.find?_some hfound,
        Or.inr (mem_pickBindings (List.mem_of_find?_eq_some hfound)), fun hc => by cases hc⟩
    · cases h

/-- A listing returns stored bindings of the namespace, or old versions. -/
theorem mem_readBindings {reading : Reading} {order : List Binding → List Binding}
    (horder : ∀ l, (order l).Perm l) {namespace_ : GoString} {b : Binding}
    (h : b ∈ w.readBindings reading order namespace_) :
    b.key.namespace_ = namespace_ ∧ (b ∈ w.bindings.entries ∨ b ∈ w.bindingVersions) := by
  unfold readBindings at h
  obtain ⟨hmem, hns⟩ := List.mem_filter.mp ((horder _).mem_iff.mp h)
  refine ⟨by simpa using hns, ?_⟩
  cases reading with
  | current => exact Or.inl hmem
  | stale picks => exact Or.inr (mem_pickBindings hmem)

/-- A current listing returns each stored binding of the namespace once. -/
theorem readBindings_current {order : List Binding → List Binding}
    (horder : ∀ l, (order l).Perm l) (namespace_ : GoString) :
    (w.readBindings .current order namespace_).Perm
      (w.bindings.entries.filter fun b => b.key.namespace_ = namespace_) :=
  horder _

/-- A read of an object returns the stored one or an old version of that name. -/
theorem readObject_ok {reading : Reading} {name : GoString} {o : ClusterSPIFFEID}
    (h : w.readObject reading name = .ok o) :
    o.name = name ∧ (o ∈ w.objects.entries ∨ o ∈ w.objectVersions) ∧
      (reading = .current → o ∈ w.objects.entries) := by
  unfold readObject at h
  cases reading with
  | current =>
    dsimp only at h
    split at h
    · rename_i o' hfound
      cases h
      obtain ⟨hmem, hname⟩ := Store.get_eq_some.mp hfound
      exact ⟨hname, Or.inl hmem, fun _ => hmem⟩
    · cases h
  | stale picks =>
    dsimp only at h
    split at h
    · rename_i o' hfound
      cases h
      obtain ⟨i, -, hi⟩ := List.mem_filterMap.mp (List.mem_of_find?_eq_some hfound)
      refine ⟨by simpa using List.find?_some hfound, Or.inr (List.mem_of_getElem? hi),
        fun hc => by cases hc⟩
    · cases h

/-- A current read fails on a free name only. -/
theorem readObject_error {name : GoString} {err : GoError}
    (h : w.readObject .current name = .error err) : ∀ o ∈ w.objects.entries, o.name ≠ name := by
  unfold readObject at h
  dsimp only at h
  split at h
  · cases h
  · rename_i hfound
    exact Store.get_eq_none.mp hfound

theorem readPool_answered (w : World) (gvk : GroupVersionKind) (key : NamespacedName) :
    PoolAnswered gvk key (w.readPool gvk key) := by
  rw [readPool]
  split_ifs
  · split
    · rename_i pool hget
      exact (Store.get_eq_some.mp hget).2
    · exact rfl
  · exact rfl

theorem mem_pools_of_readPool {gvk : GroupVersionKind} {key : NamespacedName} {pool : InferencePool}
    (h : w.readPool gvk key = .ok pool) : pool ∈ w.pools.entries := by
  rw [readPool] at h
  split_ifs at h
  split at h
  · rename_i found hget
    cases h
    exact (Store.get_eq_some.mp hget).1
  · cases h

theorem replaceBinding_cases (w : World) (b : Binding) :
    (∃ err, w.replaceBinding b = (.error err, w)) ∨
    ∃ stored, w.bindings.get b.key = some stored ∧
      stored.resourceVersion = b.resourceVersion ∧ stored.uid = b.uid ∧
      w.replaceBinding b = (.ok { stored.replacedBy b with resourceVersion := w.revision + 1 },
        w.settleBinding (stored.replacedBy b)) := by
  rw [replaceBinding]
  rcases hstored : w.bindings.get b.key with _ | stored
  · exact Or.inl ⟨_, rfl⟩
  · dsimp only
    split_ifs with h
    · exact Or.inl ⟨_, rfl⟩
    · rw [not_or, not_ne_iff, not_ne_iff] at h
      exact Or.inr ⟨stored, rfl, h.1, h.2, rfl⟩

theorem patchStatusOf_cases (w : World) (base : Binding) (status : Status) :
    (∃ err, w.patchStatusOf base status = (.error err, w)) ∨
    ∃ stored, w.bindings.get base.key = some stored ∧
      stored.resourceVersion = base.resourceVersion ∧
      (stored.patchedBy base status).status.Admitted ∧
      w.patchStatusOf base status =
        (.ok { stored.patchedBy base status with resourceVersion := w.revision + 1 },
          w.saveBinding (stored.patchedBy base status)) := by
  rw [patchStatusOf]
  rcases hstored : w.bindings.get base.key with _ | stored
  · exact Or.inl ⟨_, rfl⟩
  · dsimp only
    split_ifs with h hadmitted
    · exact Or.inl ⟨_, rfl⟩
    · exact Or.inr ⟨stored, rfl, not_ne_iff.mp h, hadmitted, rfl⟩
    · exact Or.inl ⟨_, rfl⟩

theorem createObject_cases (w : World) (fresh owner : GoString) (object : ClusterSPIFFEID) :
    (∃ err, w.createObject fresh owner object = (.error err, w)) ∨
    (w.objects.get object.name = none ∧ object.ValidLabels ∧
      w.createObject fresh owner object =
        (.ok { object.createdAs fresh with resourceVersion := w.revision + 1 },
          { w.saveObject (object.createdAs fresh) with
            identifiers := fresh :: w.identifiers
            created := (fresh, owner) :: w.created })) := by
  rw [createObject]
  split_ifs with hlabels
  · rcases hstored : w.objects.get object.name with _ | stored
    · exact Or.inr ⟨rfl, hlabels, rfl⟩
    · exact Or.inl ⟨_, rfl⟩
  · exact Or.inl ⟨_, rfl⟩

theorem replaceObject_cases (w : World) (object : ClusterSPIFFEID) :
    (∃ err, w.replaceObject object = (.error err, w)) ∨
    ∃ stored, w.objects.get object.name = some stored ∧
      stored.resourceVersion = object.resourceVersion ∧ stored.uid = object.uid ∧
      object.ValidLabels ∧ w.replaceObject object =
        (.ok { stored.replacedBy object with resourceVersion := w.revision + 1 },
          w.saveObject (stored.replacedBy object)) := by
  rw [replaceObject]
  rcases hstored : w.objects.get object.name with _ | stored
  · exact Or.inl ⟨_, rfl⟩
  · dsimp only
    split_ifs with h hlabels
    · exact Or.inl ⟨_, rfl⟩
    · rw [not_or, not_ne_iff, not_ne_iff] at h
      exact Or.inr ⟨stored, rfl, h.1, h.2, hlabels, rfl⟩
    · exact Or.inl ⟨_, rfl⟩

theorem deleteObject_cases (w : World) (lingers : Bool) (name uid : GoString) :
    (∃ err, w.deleteObject lingers name uid = (.error err, w)) ∨
    ∃ stored, w.objects.get name = some stored ∧ stored.uid = uid ∧
      (w.deleteObject lingers name uid =
          (.ok (), w.saveObject stored.markedDeleted) ∨
        w.deleteObject lingers name uid = (.ok (), w.dropObject name)) := by
  rw [deleteObject]
  rcases hstored : w.objects.get name with _ | stored
  · exact Or.inl ⟨_, rfl⟩
  · dsimp only
    split_ifs with h hlingers
    · exact Or.inl ⟨_, rfl⟩
    · exact Or.inr ⟨stored, rfl, not_ne_iff.mp h, Or.inl rfl⟩
    · exact Or.inr ⟨stored, rfl, not_ne_iff.mp h, Or.inr rfl⟩

end World

/-- A fault leaves the answer, or replaces it by an error with or without the effect. -/
theorem Fault.strike_cases {β : Type} (fault : Fault) (w : World)
    (served : Except GoError β × World) :
    fault.strike w served = served ∨ (∃ err, fault.strike w served = (.error err, w)) ∨
      ∃ err, fault.strike w served = (.error err, served.2) := by
  cases fault with
  | none => exact Or.inl rfl
  | refused err => exact Or.inr (Or.inl ⟨err, rfl⟩)
  | lost err => exact Or.inr (Or.inr ⟨err, rfl⟩)

/-- A struck call leaves the state it found or the one the served call leaves. -/
theorem Fault.strike_world {β : Type} (fault : Fault) (w : World)
    (served : Except GoError β × World) :
    (fault.strike w served).2 = w ∨ (fault.strike w served).2 = served.2 := by
  rcases fault.strike_cases w served with h | ⟨err, h⟩ | ⟨err, h⟩
  · exact Or.inr (by rw [h])
  · exact Or.inl (by rw [h])
  · exact Or.inr (by rw [h])

/-- A struck call that succeeds is the served one. -/
theorem Fault.strike_ok {β : Type} {fault : Fault} {w w' : World}
    {served : Except GoError β × World} {a : β} (h : fault.strike w served = (.ok a, w')) :
    served = (.ok a, w') := by
  rcases fault.strike_cases w served with h' | ⟨err, h'⟩ | ⟨err, h'⟩
  · exact h'.symm.trans h
  · cases h'.symm.trans h
  · cases h'.symm.trans h

/-- A struck read changes nothing, and answers as it would be served or with the fault's error. -/
theorem Fault.strike_read {β : Type} {fault : Fault} {w w' : World} {served a : Except GoError β}
    (h : fault.strike w (served, w) = (a, w')) :
    w' = w ∧ (a = served ∨ ∃ err ∈ fault.error, a = .error err) := by
  cases fault with
  | none =>
    cases h
    exact ⟨rfl, Or.inl rfl⟩
  | refused err =>
    cases h
    exact ⟨rfl, Or.inr ⟨err, rfl, rfl⟩⟩
  | lost err =>
    cases h
    exact ⟨rfl, Or.inr ⟨err, rfl, rfl⟩⟩

/-- Everything a call can do to the state, with what holds when it does it. The
identifier a call hands out is the third argument. -/
inductive Effect : Call → World → GoString → World → Prop
  | none {c : Call} {w : World} {fresh : GoString} : Effect c w fresh w
  | updateBinding {b stored : Binding} {w : World} {fresh : GoString}
      (hstored : w.bindings.get b.key = some stored)
      (hversion : stored.resourceVersion = b.resourceVersion) (huid : stored.uid = b.uid) :
      Effect (.updateBinding b) w fresh (w.settleBinding (stored.replacedBy b))
  | patchBindingStatus {kind : PatchKind} {base stored : Binding} {status : Status} {w : World}
      {fresh : GoString} (hstored : w.bindings.get base.key = some stored)
      (hversion : stored.resourceVersion = base.resourceVersion)
      (hadmitted : (stored.patchedBy base status).status.Admitted) :
      Effect (.patchBindingStatus kind base status) w fresh
        (w.saveBinding (stored.patchedBy base status))
  | create {owner fresh : GoString} {object : ClusterSPIFFEID} {w : World}
      (habsent : w.objects.get object.name = none) (hlabels : object.ValidLabels) :
      Effect (.createClusterSPIFFEID owner object) w fresh
        { w.saveObject (object.createdAs fresh) with
          identifiers := fresh :: w.identifiers
          created := (fresh, owner) :: w.created }
  | updateObject {owner fresh : GoString} {object stored : ClusterSPIFFEID} {w : World}
      (hstored : w.objects.get object.name = some stored)
      (hversion : stored.resourceVersion = object.resourceVersion)
      (huid : stored.uid = object.uid) (hlabels : object.ValidLabels) :
      Effect (.updateClusterSPIFFEID owner object) w fresh
        (w.saveObject (stored.replacedBy object))
  | terminate {owner name uid fresh : GoString} {stored : ClusterSPIFFEID} {w : World}
      (hstored : w.objects.get name = some stored) (huid : stored.uid = uid) :
      Effect (.deleteClusterSPIFFEID owner name uid) w fresh
        (w.saveObject stored.markedDeleted)
  | remove {owner name uid fresh : GoString} {stored : ClusterSPIFFEID} {w : World}
      (hstored : w.objects.get name = some stored) (huid : stored.uid = uid) :
      Effect (.deleteClusterSPIFFEID owner name uid) w fresh (w.dropObject name)
  | issue {owner fresh : GoString} {w : World} :
      Effect (.newUUID owner) w fresh (w.issueClaim fresh owner)

theorem respond_effect (choice : Choice) (c : Call) (w : World) :
    Effect c w choice.fresh (respond choice c w).2 := by
  have hstrike : ∀ {β : Type} {served : Except GoError β × World},
      Effect c w choice.fresh served.2 →
        Effect c w choice.fresh (choice.fault.strike w served).2 := by
    intro β served h
    rcases choice.fault.strike_world w served with h' | h'
    · rw [h']
      exact Effect.none
    · rw [h']
      exact h
  cases c with
  | updateBinding b =>
    apply hstrike
    rcases w.replaceBinding_cases b with ⟨err, h⟩ | ⟨stored, h₁, h₂, h₃, h⟩
    · rw [h]
      exact Effect.none
    · rw [h]
      exact Effect.updateBinding h₁ h₂ h₃
  | patchBindingStatus kind base status =>
    apply hstrike
    rcases w.patchStatusOf_cases base status with ⟨err, h⟩ | ⟨stored, h₁, h₂, h₃, h⟩
    · rw [h]
      exact Effect.none
    · rw [h]
      exact Effect.patchBindingStatus h₁ h₂ h₃
  | createClusterSPIFFEID owner object =>
    apply hstrike
    rcases w.createObject_cases choice.fresh owner object with ⟨err, h⟩ | ⟨h₁, h₂, h⟩
    · rw [h]
      exact Effect.none
    · rw [h]
      exact Effect.create h₁ h₂
  | updateClusterSPIFFEID owner object =>
    apply hstrike
    rcases w.replaceObject_cases object with ⟨err, h⟩ | ⟨stored, h₁, h₂, h₃, h₄, h⟩
    · rw [h]
      exact Effect.none
    · rw [h]
      exact Effect.updateObject h₁ h₂ h₃ h₄
  | deleteClusterSPIFFEID owner name uid =>
    apply hstrike
    rcases w.deleteObject_cases choice.lingers name uid with ⟨err, h⟩ | ⟨stored, h₁, h₂, h | h⟩
    · rw [h]
      exact Effect.none
    · rw [h]
      exact Effect.terminate h₁ h₂
    · rw [h]
      exact Effect.remove h₁ h₂
  | newUUID owner => exact Effect.issue
  | recordTerminalOutcome status => exact Effect.none
  | recordEvent warning reason message => exact Effect.none
  | _ => exact hstrike Effect.none

end Kleym
