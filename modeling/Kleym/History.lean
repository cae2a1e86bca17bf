import Kleym.System

/-!
# The past of a cluster

What a `World` keeps of its past is consistent with what it stores, whoever writes
to it: revisions are unique, an identifier belongs to one thing, and a claim or an
object belongs to one binding. `History` holds in every setting.

Every step of a run is made of a few changes: a binding or an object is saved or
dropped, an identifier is noted, an object is credited to the binding it is created
for, a claim is issued. The invariants of this development are proved once for each
of these.
-/

namespace Kleym

open GoString

/-! ## Records and outputs -/

/-- The two fields of a status that make up the ownership record. -/
abbrev Record : Type :=
  Option PendingClusterSPIFFEIDStatus × Option OwnedClusterSPIFFEIDStatus

/-- The ownership record of a status. -/
def Status.record (status : Status) : Record :=
  (status.pendingClusterSPIFFEID, status.ownedClusterSPIFFEID)

/-- The ownership record of a binding. -/
def Binding.record (b : Binding) : Record := b.status.record

/-- A live object that was created for the binding with this UID. -/
def World.Output (w : World) (owner : GoString) (o : ClusterSPIFFEID) : Prop :=
  o ∈ w.objects.entries ∧ (o.uid, owner) ∈ w.created

/-! ## Changes -/

namespace World

/-- Note identifiers that have come into use. -/
def note (w : World) (ids : List GoString) : World :=
  { w with identifiers := ids ++ w.identifiers }

/-- Credit a new object to a binding. -/
def credit (w : World) (uid owner : GoString) : World :=
  { w with
    identifiers := uid :: w.identifiers
    created := (uid, owner) :: w.created }

end World

/-! ## The invariant -/

/-- What holds of the past and the present of a cluster in every setting. -/
structure History (w : World) : Prop where
  binding_mem : ∀ b ∈ w.bindings.entries, b ∈ w.bindingVersions
  object_mem : ∀ o ∈ w.objects.entries, o ∈ w.objectVersions
  binding_le : ∀ b ∈ w.bindingVersions, b.resourceVersion ≤ w.revision
  object_le : ∀ o ∈ w.objectVersions, o.resourceVersion ≤ w.revision
  binding_inj : ∀ b ∈ w.bindingVersions, ∀ b' ∈ w.bindingVersions,
    b.resourceVersion = b'.resourceVersion → b = b'
  object_inj : ∀ o ∈ w.objectVersions, ∀ o' ∈ w.objectVersions,
    o.resourceVersion = o'.resourceVersion → o = o'
  binding_key : ∀ b ∈ w.bindingVersions, ∀ b' ∈ w.bindingVersions, b.uid = b'.uid → b.key = b'.key
  object_name : ∀ o ∈ w.objectVersions, ∀ o' ∈ w.objectVersions, o.uid = o'.uid → o.name = o'.name
  binding_known : ∀ b ∈ w.bindingVersions, b.uid ∈ w.identifiers
  object_known : ∀ o ∈ w.objectVersions, o.uid ∈ w.identifiers
  claims_known : ∀ e ∈ w.claims, e.1 ∈ w.identifiers ∧ e.2 ∈ w.identifiers
  created_known : ∀ e ∈ w.created, e.1 ∈ w.identifiers ∧ e.2 ∈ w.identifiers
  claims_inj : ∀ e ∈ w.claims, ∀ e' ∈ w.claims, e.1 = e'.1 → e.2 = e'.2
  created_inj : ∀ e ∈ w.created, ∀ e' ∈ w.created, e.1 = e'.1 → e.2 = e'.2
  admitted : ∀ b ∈ w.bindingVersions, b.status.Admitted

namespace History

variable {w : World}

/-- Two stored bindings with one UID are the same binding. -/
theorem binding_eq (h : History w) {b b' : Binding} (hb : b ∈ w.bindings.entries)
    (hb' : b' ∈ w.bindings.entries) (huid : b.uid = b'.uid) : b = b' :=
  w.bindings.eq_of_key_eq hb hb'
    (h.binding_key b (h.binding_mem b hb) b' (h.binding_mem b' hb') huid)

/-- An object is an output of one binding at most. -/
theorem owner_eq (h : History w) {u owner owner' : GoString} (ho : (u, owner) ∈ w.created)
    (ho' : (u, owner') ∈ w.created) : owner = owner' :=
  h.created_inj _ ho _ ho' rfl

theorem initial (served : List GroupVersionKind) : History (World.initial served) := by
  constructor <;> simp [World.initial, Store.empty]

/-- A binding is saved: its UID is in use already, for its key and no other. -/
theorem saveBinding (h : History w) {b : Binding}
    (hkey : ∀ v ∈ w.bindingVersions, v.uid = b.uid → v.key = b.key)
    (hknown : b.uid ∈ w.identifiers) (hadmitted : b.status.Admitted) :
    History (w.saveBinding b) := by
  have hnew : ∀ v ∈ w.bindingVersions, v.resourceVersion ≠ w.revision + 1 := by
    intro v hv
    have := h.binding_le v hv
    omega
  exact {
    h with
    binding_mem := by
      intro v hv
      rcases Store.mem_put.mp hv with rfl | ⟨hv, -⟩
      · exact List.mem_cons_self
      · exact List.mem_cons_of_mem _ (h.binding_mem v hv)
    binding_le := by
      intro v hv
      rcases List.mem_cons.mp hv with rfl | hv
      · exact le_refl _
      · exact (h.binding_le v hv).trans (Nat.le_succ _)
    object_le := fun o ho => (h.object_le o ho).trans (Nat.le_succ _)
    binding_inj := by
      intro v hv v' hv' hversion
      rcases List.mem_cons.mp hv with rfl | hv <;> rcases List.mem_cons.mp hv' with rfl | hv'
      · rfl
      · exact absurd hversion.symm (hnew v' hv')
      · exact absurd hversion (hnew v hv)
      · exact h.binding_inj v hv v' hv' hversion
    binding_key := by
      intro v hv v' hv' huid
      rcases List.mem_cons.mp hv with rfl | hv <;> rcases List.mem_cons.mp hv' with rfl | hv'
      · rfl
      · exact (hkey v' hv' huid.symm).symm
      · exact hkey v hv huid
      · exact h.binding_key v hv v' hv' huid
    binding_known := by
      intro v hv
      rcases List.mem_cons.mp hv with rfl | hv
      · exact hknown
      · exact h.binding_known v hv
    admitted := by
      intro v hv
      rcases List.mem_cons.mp hv with rfl | hv
      · exact hadmitted
      · exact h.admitted v hv }

/-- A stored binding is saved with another content. -/
theorem resaveBinding (h : History w) {b stored : Binding} (hstored : stored ∈ w.bindings.entries)
    (huid : b.uid = stored.uid) (hkey : b.key = stored.key) (hadmitted : b.status.Admitted) :
    History (w.saveBinding b) := by
  have hmem := h.binding_mem stored hstored
  refine h.saveBinding ?_ (huid ▸ h.binding_known stored hmem) hadmitted
  intro v hv hv'
  rw [hkey]
  exact h.binding_key v hv stored hmem (hv'.trans huid)

theorem dropBinding (h : History w) (key : NamespacedName) : History (w.dropBinding key) :=
  { h with
    binding_mem := fun b hb => h.binding_mem b (Store.mem_erase.mp hb).1
    binding_le := fun b hb => (h.binding_le b hb).trans (Nat.le_succ _)
    object_le := fun o ho => (h.object_le o ho).trans (Nat.le_succ _) }

theorem settleBinding (h : History w) {b stored : Binding}
    (hstored : stored ∈ w.bindings.entries) (huid : b.uid = stored.uid)
    (hkey : b.key = stored.key) (hadmitted : b.status.Admitted) : History (w.settleBinding b) := by
  rw [World.settleBinding]
  split_ifs
  · exact h.dropBinding b.key
  · exact h.resaveBinding hstored huid hkey hadmitted

/-- An object is saved: its UID is in use already, under its name and no other. -/
theorem saveObject (h : History w) {o : ClusterSPIFFEID}
    (hname : ∀ v ∈ w.objectVersions, v.uid = o.uid → v.name = o.name)
    (hknown : o.uid ∈ w.identifiers) : History (w.saveObject o) := by
  have hnew : ∀ v ∈ w.objectVersions, v.resourceVersion ≠ w.revision + 1 := by
    intro v hv
    have := h.object_le v hv
    omega
  exact {
    h with
    object_mem := by
      intro v hv
      rcases Store.mem_put.mp hv with rfl | ⟨hv, -⟩
      · exact List.mem_cons_self
      · exact List.mem_cons_of_mem _ (h.object_mem v hv)
    binding_le := fun b hb => (h.binding_le b hb).trans (Nat.le_succ _)
    object_le := by
      intro v hv
      rcases List.mem_cons.mp hv with rfl | hv
      · exact le_refl _
      · exact (h.object_le v hv).trans (Nat.le_succ _)
    object_inj := by
      intro v hv v' hv' hversion
      rcases List.mem_cons.mp hv with rfl | hv <;> rcases List.mem_cons.mp hv' with rfl | hv'
      · rfl
      · exact absurd hversion.symm (hnew v' hv')
      · exact absurd hversion (hnew v hv)
      · exact h.object_inj v hv v' hv' hversion
    object_name := by
      intro v hv v' hv' huid
      rcases List.mem_cons.mp hv with rfl | hv <;> rcases List.mem_cons.mp hv' with rfl | hv'
      · rfl
      · exact (hname v' hv' huid.symm).symm
      · exact hname v hv huid
      · exact h.object_name v hv v' hv' huid
    object_known := by
      intro v hv
      rcases List.mem_cons.mp hv with rfl | hv
      · exact hknown
      · exact h.object_known v hv }

/-- A stored object is saved with another content. -/
theorem resaveObject (h : History w) {o stored : ClusterSPIFFEID}
    (hstored : stored ∈ w.objects.entries) (huid : o.uid = stored.uid)
    (hname : o.name = stored.name) : History (w.saveObject o) := by
  have hmem := h.object_mem stored hstored
  refine h.saveObject ?_ (huid ▸ h.object_known stored hmem)
  intro v hv hv'
  rw [hname]
  exact h.object_name v hv stored hmem (hv'.trans huid)

theorem dropObject (h : History w) (name : GoString) : History (w.dropObject name) :=
  { h with
    object_mem := fun o ho => h.object_mem o (Store.mem_erase.mp ho).1
    binding_le := fun b hb => (h.binding_le b hb).trans (Nat.le_succ _)
    object_le := fun o ho => (h.object_le o ho).trans (Nat.le_succ _) }

theorem note (h : History w) (ids : List GoString) : History (w.note ids) :=
  { h with
    binding_known := fun b hb => List.mem_append_right ids (h.binding_known b hb)
    object_known := fun o ho => List.mem_append_right ids (h.object_known o ho)
    claims_known := fun e he =>
      ⟨List.mem_append_right ids (h.claims_known e he).1,
        List.mem_append_right ids (h.claims_known e he).2⟩
    created_known := fun e he =>
      ⟨List.mem_append_right ids (h.created_known e he).1,
        List.mem_append_right ids (h.created_known e he).2⟩ }

/-- A new entry in front of a list in which first components are unique, when its
first component is not there. -/
theorem inj_cons {l : List (GoString × GoString)} {a b : GoString}
    (hl : ∀ e ∈ l, ∀ e' ∈ l, e.1 = e'.1 → e.2 = e'.2) (ha : ∀ e ∈ l, e.1 ≠ a) :
    ∀ e ∈ (a, b) :: l, ∀ e' ∈ (a, b) :: l, e.1 = e'.1 → e.2 = e'.2 := by
  intro e he e' he' h
  rcases List.mem_cons.mp he with rfl | he <;> rcases List.mem_cons.mp he' with rfl | he'
  · rfl
  · exact absurd h.symm (ha e' he')
  · exact absurd h (ha e he)
  · exact hl e he e' he' h

theorem credit (h : History w) {uid owner : GoString} (huid : uid ∉ w.identifiers)
    (howner : owner ∈ w.identifiers) : History (w.credit uid owner) :=
  { h with
    binding_known := fun b hb => List.mem_cons_of_mem _ (h.binding_known b hb)
    object_known := fun o ho => List.mem_cons_of_mem _ (h.object_known o ho)
    claims_known := fun e he =>
      ⟨List.mem_cons_of_mem _ (h.claims_known e he).1,
        List.mem_cons_of_mem _ (h.claims_known e he).2⟩
    created_known := by
      intro e he
      rcases List.mem_cons.mp he with rfl | he
      · exact ⟨List.mem_cons_self, List.mem_cons_of_mem _ howner⟩
      · exact ⟨List.mem_cons_of_mem _ (h.created_known e he).1,
          List.mem_cons_of_mem _ (h.created_known e he).2⟩
    created_inj := inj_cons h.created_inj fun e he heq => huid (heq ▸ (h.created_known e he).1) }

theorem issueClaim (h : History w) {claim owner : GoString} (hclaim : claim ∉ w.identifiers)
    (howner : owner ∈ w.identifiers) : History (w.issueClaim claim owner) :=
  { h with
    binding_known := fun b hb => List.mem_cons_of_mem _ (h.binding_known b hb)
    object_known := fun o ho => List.mem_cons_of_mem _ (h.object_known o ho)
    claims_known := by
      intro e he
      rcases List.mem_cons.mp he with rfl | he
      · exact ⟨List.mem_cons_self, List.mem_cons_of_mem _ howner⟩
      · exact ⟨List.mem_cons_of_mem _ (h.claims_known e he).1,
          List.mem_cons_of_mem _ (h.claims_known e he).2⟩
    created_known := fun e he =>
      ⟨List.mem_cons_of_mem _ (h.created_known e he).1,
        List.mem_cons_of_mem _ (h.created_known e he).2⟩
    claims_inj := inj_cons h.claims_inj fun e he heq => hclaim (heq ▸ (h.claims_known e he).1) }

end History

end Kleym
