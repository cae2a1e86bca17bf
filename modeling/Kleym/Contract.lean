import Kleym.Custody

/-!
# The contracts of the operator's calls

`Guard` gives the contract of each call: what holds of the cluster and of the calls
the reconcile has made so far, whenever the call is made. The parts about the calls so
far are evidence, and hold in every setting; the parts about the cluster hold in the
settings they name.
-/

namespace Kleym

open GoString

/-! ## Evidence

What a reconcile has seen, in terms of its calls and their answers. -/

/-- The calls of a reconcile so far, with their answers. -/
abbrev Log : Type := List (Event Call Answer)

/-- A read of this name was answered with NotFound. -/
def ReadAbsent (log : Log) (name : GoString) : Prop :=
  ∃ err : GoError, ⟨.getClusterSPIFFEID name, (.error err : Except GoError ClusterSPIFFEID)⟩ ∈ log ∧
    err.kind = .notFound

/-- A read of this name was answered with this object. -/
def ReadObject (log : Log) (name : GoString) (o : ClusterSPIFFEID) : Prop :=
  ⟨.getClusterSPIFFEID name, (.ok o : Except GoError ClusterSPIFFEID)⟩ ∈ log

/-- This object was created for the binding with this UID. -/
def Submitted (log : Log) (owner : GoString) (o : ClusterSPIFFEID) : Prop :=
  ∃ object, ⟨.createClusterSPIFFEID owner object, (.ok o : Except GoError ClusterSPIFFEID)⟩ ∈ log

/-- This claim was generated for the binding with this UID. -/
def Generated (log : Log) (owner claim : GoString) : Prop := ⟨.newUUID owner, claim⟩ ∈ log

/-- The object of a pending claim was read, or just created, with this UID. -/
def Sighted (log : Log) (owner : GoString) (pending : PendingClusterSPIFFEIDStatus)
    (uid : GoString) : Prop :=
  ∃ o : ClusterSPIFFEID, o.name = pending.name ∧
    clusterSPIFFEIDOwnershipClaim o = pending.claimID ∧ o.uid = uid ∧
    (ReadObject log pending.name o ∨ Submitted log owner o)

/-- The recorded name was read and is free, or taken by an object with another claim or
another UID. -/
def Vanished (log : Log) (status : Status) : Prop :=
  ReadAbsent log (recordedClusterSPIFFEIDName status) ∨
  ∃ o, ReadObject log (recordedClusterSPIFFEIDName status) o ∧
    (∀ pending ∈ status.pendingClusterSPIFFEID,
      clusterSPIFFEIDOwnershipClaim o ≠ pending.claimID) ∧
    ∀ owned ∈ status.ownedClusterSPIFFEID, o.uid ≠ owned.uid

section

variable {log log' : Log} (hlog : log ⊆ log')

include hlog

theorem ReadAbsent.mono {name : GoString} (h : ReadAbsent log name) : ReadAbsent log' name := by
  obtain ⟨err, hmem, hkind⟩ := h
  exact ⟨err, hlog hmem, hkind⟩

theorem Sighted.mono {owner uid : GoString} {pending : PendingClusterSPIFFEIDStatus}
    (h : Sighted log owner pending uid) : Sighted log' owner pending uid := by
  obtain ⟨o, hname, hclaim, huid, hread | ⟨object, hmem⟩⟩ := h
  · exact ⟨o, hname, hclaim, huid, Or.inl (hlog hread)⟩
  · exact ⟨o, hname, hclaim, huid, Or.inr ⟨object, hlog hmem⟩⟩

theorem Vanished.mono {status : Status} (h : Vanished log status) : Vanished log' status := by
  rcases h with h | ⟨o, hread, hdiffers⟩
  · exact Or.inl (h.mono hlog)
  · exact Or.inr ⟨o, hlog hread, hdiffers⟩

end

/-- The conflict evaluation found nobody in the way of a withdrawal, and the withdrawal
confirmed that every output is gone. -/
def SettledConflict (r : Reconciler) (log : Log) : Prop :=
  ∃ before evaluation withdrawal after binding plan state binding',
    log = before ++ evaluation ++ withdrawal ++ after ∧
    Runs (r.evaluateBindingConflicts binding plan) evaluation (.ok state) ∧
    state.blocked = false ∧
    Runs (withdrawConflictOutputs r.platform state.members binding) withdrawal
      (binding', .ok true)

/-! ## Contracts -/

/-- A copy of a binding goes back to a version of it: only the status may differ, and
the record does not. -/
def Based (S : Setting) (w : World) (m : Binding) : Prop :=
  ∃ v ∈ w.bindingVersions, v = { m with status := v.status } ∧ v.record = m.record ∧
    (S.Tidy → m.status.Tracks v.status)

section

variable (r : Reconciler) (S : Setting) (log : Log) (w : World)

/-- The three ownership transitions, each on evidence. -/
inductive Transfer (m : Binding) : Status → Prop
  | reserve {name claim : GoString} (hrecord : m.record = unrecorded)
      (hread : ReadAbsent log name) (hgenerated : Generated log m.uid claim)
      (hclaim : (claim, m.uid) ∈ w.claims)
      (hfree : S.Closed → ∀ o, ¬w.Output m.uid o)
      (hpinned : S.Closed → ∀ b ∈ w.bindings.entries, b.uid = m.uid →
        inferenceIdentityBindingFinalizer ∈ b.finalizers) :
      Transfer m (reservedStatus m name claim)
  | confirm {pending : PendingClusterSPIFFEIDStatus} {uid : GoString}
      (hrecord : m.record = (some pending, none)) (hsighted : Sighted log m.uid pending uid)
      (hcreated : S.Honest → (uid, m.uid) ∈ w.created)
      (hlive : S.Closed → ∀ b ∈ w.bindings.entries, b.uid = m.uid → b.record = m.record →
        ∃ o, w.Output m.uid o ∧ o.name = pending.name ∧ o.uid = uid ∧ o.terminating = false) :
      Transfer m (confirmedStatus m pending.name uid)
  | clear (hrecord : m.record ≠ unrecorded) (hvanished : Vanished log m.status)
      (hfree : S.Closed → ∀ o, ¬w.Output m.uid o) : Transfer m (clearedStatus m)

/-- A patch of `patchStatus`: computed from a version that was read, without touching
the record. -/
structure OrdinaryPatch (base : Binding) (status : Status) : Prop where
  base_mem : base ∈ w.bindingVersions
  record : status.record = base.record
  taxonomic : S.Tidy → status.Taxonomic
  withdrawn : S.Closed → status.Is .conflict .true_ →
    ∀ key ∈ base.key :: status.conflicts.map fun item => ⟨base.key.namespace_, item.bindingName⟩,
      w.Withdrawn key
  settled : status.Is .conflict .true_ → SettledConflict r log

/-- An update of a binding adds the finalizer, or removes it from a binding that is being
deleted and owns nothing. -/
structure FinalizerUpdate (b : Binding) : Prop where
  version : ∃ v ∈ w.bindingVersions, v.resourceVersion = b.resourceVersion ∧ v.spec = b.spec ∧
    (b.finalizers = v.finalizers ++ [inferenceIdentityBindingFinalizer] ∨
      v.deleting = true ∧ v.record = unrecorded ∧
      b.finalizers = v.finalizers.filter (· ≠ inferenceIdentityBindingFinalizer) ∧
      (S.Strict → ∀ o, ¬w.Output v.uid o))

/-- What an object is about to render for a binding, nobody else's output renders. -/
def Cleared (owner : GoString) (o : ClusterSPIFFEID) : Prop :=
  ∃ t, o.Renders t ∧
    (∀ b ∈ w.bindingVersions, b.uid = owner → b.key.namespace_ = t.namespace_) ∧
    ∀ u o', w.Output u o' → o'.Renders t → u = owner

/-- A create: the claim on the object is the one that is recorded. -/
structure Creation (owner : GoString) (o : ClusterSPIFFEID) : Prop where
  known : owner ∈ w.identifiers
  claimed : S.Honest → (clusterSPIFFEIDOwnershipClaim o, owner) ∈ w.claims
  covered : S.Closed → ∀ o', w.Output owner o' → o'.name = o.name
  recorded : S.Closed → ∀ b ∈ w.bindings.entries, b.uid = owner →
    b.record = (some ⟨o.name, clusterSPIFFEIDOwnershipClaim o⟩, none) ∨
    (¬S.Strict ∧ b.deleting = true ∧ b.record = unrecorded) ∨
    ∃ o' ∈ w.objects.entries, o'.name = o.name
  stored : S.Strict → ∃ b ∈ w.bindings.entries, b.uid = owner
  cleared : S.Vetted → Cleared w owner o

/-- An update of an object: a version of it was read, and it was created for the binding. -/
structure ObjectUpdate (owner : GoString) (o : ClusterSPIFFEID) : Prop where
  version : ∃ v ∈ w.objectVersions, v.resourceVersion = o.resourceVersion ∧ v.uid = o.uid ∧
    clusterSPIFFEIDOwnershipClaim v = clusterSPIFFEIDOwnershipClaim o
  created : S.Honest → (o.uid, owner) ∈ w.created
  cleared : S.Vetted → Cleared w owner o

/-- A deletion: the incarnation was created for the binding, and is confirmed. -/
structure Deletion (owner uid : GoString) : Prop where
  created : S.Honest → (uid, owner) ∈ w.created
  confirmed : S.Closed → ∀ b ∈ w.bindings.entries, b.uid = owner →
    b.status.pendingClusterSPIFFEID = none

/-- The contract of a call. -/
def Guard : Call → Prop
  | .updateBinding b => FinalizerUpdate S w b
  | .patchBindingStatus .ownership base status => Based S w base ∧ Transfer S log w base status
  | .patchBindingStatus .ordinary base status => OrdinaryPatch r S log w base status
  | .createClusterSPIFFEID owner object => Creation S w owner object
  | .updateClusterSPIFFEID owner object => ObjectUpdate S w owner object
  | .deleteClusterSPIFFEID owner _ uid => Deletion S w owner uid
  | .newUUID owner => owner ∈ w.identifiers
  | _ => True

end

end Kleym
