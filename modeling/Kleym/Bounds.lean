import Kleym.Reconcile

/-!
# Which calls are made for a binding

Bounds on the calls of the functions that resolve what a binding owns, whatever the
answers are. A function that works on a copy of a binding changes the copy's status and
version and nothing else, reads pools and objects, and sends ownership patches for the
copy that leave no claim pending. The bounds are stated for any class of calls that has
these.
-/

namespace Kleym

open GoString Prog

/-- A later copy of the same binding. -/
def Continues (b m : Binding) : Prop :=
  m = { b with status := m.status, resourceVersion := m.resourceVersion }

namespace Continues

variable {a b c : Binding}

theorem refl (b : Binding) : Continues b b := rfl

theorem trans (h : Continues a b) (h' : Continues b c) : Continues a c := by
  rw [Continues] at h h' ⊢
  rw [h', h]

theorem key (h : Continues a b) : b.key = a.key := by rw [h]

theorem uid (h : Continues a b) : b.uid = a.uid := by rw [h]

theorem deleting (h : Continues a b) : b.deleting = a.deleting := by rw [h]

theorem boundary_spec (h : Continues a b) : b.spec = a.spec := by rw [h]

end Continues

/-- The pools a binding's reference can lead to: those with its trimmed name in the
binding's namespace, and of its group when it names one. -/
def Binding.MayRead (b : Binding) (gvk : GroupVersionKind) (key : NamespacedName) : Prop :=
  key = ⟨b.key.namespace_, trimSpace b.spec.poolRef.name⟩ ∧ trimSpace b.spec.poolRef.name ≠ [] ∧
  (trimSpace b.spec.poolRef.group ≠ [] → gvk.group = trimSpace b.spec.poolRef.group)

theorem Continues.mayRead {b m : Binding} (h : Continues b m) {gvk : GroupVersionKind}
    {key : NamespacedName} (hread : m.MayRead gvk key) : b.MayRead gvk key := by
  rw [Binding.MayRead, h.key, h.boundary_spec] at hread
  exact hread

/-- Only kinds of the reference's group are looked under. -/
theorem group_of_mem_candidatePoolGVKs {candidates : List GroupVersionKind} {group : GoString}
    {gvk : GroupVersionKind} (h : gvk ∈ candidatePoolGVKs candidates group) (hgroup : group ≠ []) :
    gvk.group = group := by
  rw [candidatePoolGVKs, if_neg hgroup] at h
  dsimp only at h
  split_ifs at h
  · exact of_decide_eq_true (List.mem_filter.mp h).2
  · exact of_decide_eq_true (List.mem_filter.mp h).2

/-- A class of calls with those that resolve what a binding owns, less the deletions. -/
structure Allows (A : Call → Prop) (b : Binding) : Prop where
  pool : ∀ gvk key, b.MayRead gvk key → A (.getPool gvk key)
  get : ∀ name, A (.getClusterSPIFFEID name)
  patch : ∀ m status, Continues b m → status.pendingClusterSPIFFEID = none →
    A (.patchBindingStatus .ownership m status)

section

variable {A : Call → Prop} {P : Platform} {b m : Binding}

/-- The copy that comes back is a later one. -/
abbrev ReturnsCopy (b : Binding) {α : Type} (x : Binding × α) : Prop := Continues b x.1

theorem always_patchOwnershipStatus (hA : Allows A b) (hm : Continues b m) {status : Status}
    (hstatus : status.pendingClusterSPIFFEID = none) :
    Always A (ReturnsCopy b) (patchOwnershipStatus m status) := by
  refine (Always.perform (c := Call.patchBindingStatus .ownership m status)
    (hA.patch m status hm hstatus)).bind ?_
  rintro (err | target) -
  · exact hm
  · exact hm.trans rfl

theorem always_confirm (hA : Allows A b) (hm : Continues b m) (name uid : GoString) :
    Always A (ReturnsCopy b) (confirmClusterSPIFFEIDOwnership P m name uid) := by
  rw [confirmClusterSPIFFEIDOwnership]
  split_ifs
  · exact hm
  · exact always_patchOwnershipStatus hA hm rfl

theorem always_clear (hA : Allows A b) (hm : Continues b m) :
    Always A (ReturnsCopy b) (clearClusterSPIFFEIDOwnership m) := by
  rw [clearClusterSPIFFEIDOwnership]
  split_ifs
  · exact hm
  · exact always_patchOwnershipStatus hA hm rfl

theorem always_observe (hA : Allows A b) (name : GoString) :
    Always A (fun _ => True) (observeManagedClusterSPIFFEID m name) := by
  rw [observeManagedClusterSPIFFEID]
  split
  · trivial
  · split_ifs
    · trivial
    · refine (Always.perform (c := Call.getClusterSPIFFEID _) (hA.get _)).bind ?_
      rintro (err | object) -
      · dsimp only
        split_ifs <;> trivial
      · trivial

theorem always_listManaged (hA : Allows A b) (hm : Continues b m) :
    Always A (ReturnsCopy b) (listManagedClusterSPIFFEIDs P m) := by
  refine (always_observe hA []).bind ?_
  rintro (err | obs) -
  · exact hm
  · cases obs with
    | pendingOutputMatched object =>
      refine (always_confirm hA hm object.name object.uid).bind ?_
      rintro ⟨m', err | ⟨⟩⟩ hm'
      · exact hm'
      · exact hm'
    | confirmedOutputMatched object => exact hm
    | unclaimedOutputAbsent => exact hm
    | unclaimedOutputForeign object => exact hm
    | _ =>
      refine (always_clear hA hm).bind ?_
      rintro ⟨m', err | ⟨⟩⟩ hm'
      · exact hm'
      · exact hm'

theorem always_deleteManagedObjects {owner : GoString}
    (hdelete : ∀ name uid, A (.deleteClusterSPIFFEID owner name uid))
    (objects : List ClusterSPIFFEID) :
    Always A (fun _ => True) (deleteManagedObjects owner objects) := by
  induction objects with
  | nil => trivial
  | cons object rest ih =>
    refine (Always.perform (c := Call.deleteClusterSPIFFEID _ _ _) (hdelete _ _)).bind ?_
    rintro (err | ⟨⟩) -
    · dsimp only
      split_ifs
      · exact ih
      · trivial
    · exact ih

theorem always_cleanupManaged (hA : Allows A b)
    (hdelete : ∀ name uid, A (.deleteClusterSPIFFEID b.uid name uid)) (hm : Continues b m) :
    Always A (ReturnsCopy b) (cleanupManagedClusterSPIFFEIDs P m) := by
  refine (always_listManaged hA hm).bind ?_
  rintro ⟨m', err | objects⟩ hm'
  · exact hm'
  · refine (always_deleteManagedObjects (fun name uid => hm'.uid ▸ hdelete name uid) objects).bind ?_
    rintro result -
    exact hm'

variable {r : Reconciler}

theorem always_resolveByCandidates {key : NamespacedName} {gvks : List GroupVersionKind}
    (hpool : ∀ gvk ∈ gvks, A (.getPool gvk key)) (crdMissing : Bool) :
    Always A (fun _ => True) (resolveByCandidates key gvks crdMissing) := by
  induction gvks generalizing crdMissing with
  | nil => trivial
  | cons gvk gvks ih =>
    rw [List.forall_mem_cons] at hpool
    refine (Always.perform (c := Call.getPool gvk key) hpool.1).bind ?_
    rintro (err | pool) -
    · dsimp only
      split_ifs
      · exact ih hpool.2 _
      · exact ih hpool.2 _
      · trivial
    · trivial

/-- A plan comes from `renderIdentity`. -/
def Yields (r : Reconciler) (m : Binding) (x : Except GoError Plan) : Prop :=
  ∀ plan, x = .ok plan → ∃ pool, r.renderIdentity m pool = .ok plan

theorem always_renderFromPool {ref : PoolRef}
    (href : bindingPoolRef r.platform m.key.namespace_ m.spec.poolRef = .ok ref)
    (hpool : ∀ gvk key, m.MayRead gvk key → A (.getPool gvk key)) :
    Always A (Yields r m) (r.renderFromPool m ref) := by
  have hread : ∀ gvk ∈ candidatePoolGVKs (resolvePoolGVKs r.availablePoolGVKs) ref.group,
      A (.getPool gvk ⟨ref.namespace_, ref.name⟩) := by
    intro gvk hgvk
    rw [bindingPoolRef] at href
    split_ifs at href with hname
    cases href
    exact hpool _ _ ⟨rfl, hname, group_of_mem_candidatePoolGVKs hgvk⟩
  have hresolve : Always A (fun _ => True) (r.resolveInferencePool ref) := by
    refine (always_resolveByCandidates hread _).bind ?_
    rintro (err | ⟨_ | pool, _ | _⟩) - <;> trivial
  refine hresolve.bind ?_
  rintro (err | pool) -
  · rintro plan ⟨⟩
  · dsimp only
    split
    · rintro plan ⟨⟩
    · rintro plan ⟨⟩
      exact ⟨pool, ‹_›⟩

theorem always_renderIdentityForBinding
    (hpool : ∀ gvk key, m.MayRead gvk key → A (.getPool gvk key)) :
    Always A (fun _ => True) (r.renderIdentityForBinding m) := by
  rw [Reconciler.renderIdentityForBinding]
  split
  · trivial
  · exact (always_renderFromPool ‹_› hpool).weaken fun _ _ => trivial

theorem always_computeDesiredState
    (hpool : ∀ gvk key, m.MayRead gvk key → A (.getPool gvk key)) :
    Always A (Yields r m) (r.computeDesiredState m) := by
  rw [Reconciler.computeDesiredState]
  split
  · rintro plan ⟨⟩
  · exact always_renderFromPool ‹_› hpool

theorem always_renderDesired
    (hpool : ∀ gvk key, m.MayRead gvk key → A (.getPool gvk key)) :
    Always A (Yields r m) (r.renderDesired m) := by
  rw [Reconciler.renderDesired]
  split
  · rintro plan ⟨⟩
  · exact always_computeDesiredState hpool

theorem always_renderPeer (hA : Allows A b) (hm : Continues b m) (current : Binding)
    (identity : Plan) : Always A (ReturnsCopy b) (r.renderPeer current identity m) := by
  rw [Reconciler.renderPeer]
  split_ifs
  · exact hm
  · refine (always_renderIdentityForBinding fun gvk key h => hA.pool gvk key (hm.mayRead h)).bind ?_
    rintro (err | plan) -
    · dsimp only
      split
      · exact hm
      · refine (always_listManaged hA hm).bind ?_
        rintro ⟨m', err | _ | _⟩ hm' <;> exact hm'
    · exact hm

theorem always_identityForConflictEvaluation (hA : Allows A b) (hm : Continues b m)
    (current : Binding) (identity : Plan) :
    Always A (ReturnsCopy b) (r.identityForConflictEvaluation current identity m) := by
  rw [Reconciler.identityForConflictEvaluation]
  split_ifs
  · refine (always_listManaged hA hm).bind ?_
    rintro ⟨m', err | _ | _⟩ hm'
    · exact hm'
    · exact hm'
    · exact always_renderPeer hA hm' current identity
  · exact always_renderPeer hA hm current identity

end

end Kleym
