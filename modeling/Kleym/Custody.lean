import Kleym.History
import Kleym.Taxonomy
import Kleym.Boundary

/-!
# What the operator keeps true

The invariants of the operator, from those that hold in every setting to those that
need a quiet one, and the contract of each of its calls. The contract of a call says
what holds of the cluster, and of the reconcile's calls so far, whenever the call is
made; together the contracts keep the invariants.
-/

namespace Kleym

open GoString

/-! ## Records and objects -/

/-- The record of a binding that owns nothing. -/
def unrecorded : Record := (none, none)

/-- A record names an object: by its claim while it is pending, by its UID once it is
confirmed. -/
def Covers (record : Record) (o : ClusterSPIFFEID) : Prop :=
  (∃ pending ∈ record.1, o.name = pending.name ∧
    clusterSPIFFEIDOwnershipClaim o = pending.claimID) ∨
  ∃ owned ∈ record.2, o.name = owned.name ∧ o.uid = owned.uid

/-- The selectors in the spec of an object. -/
def ClusterSPIFFEID.selectors (o : ClusterSPIFFEID) : List GoString :=
  match o.spec with
  | some (.object fields) =>
    match fields.lookup (str "workloadSelectorTemplates") with
    | some (.array items) => items.filterMap Json.asString
    | _ => []
  | _ => []

/-- An object grants its identity within a boundary and says nothing else about it. -/
def ClusterSPIFFEID.Renders (o : ClusterSPIFFEID) (t : Boundary) : Prop :=
  t.RenderedIn o.selectors ∧ ∀ s ∈ o.selectors, t.Admits s

/-- What is stored under a key owns nothing. -/
def World.Withdrawn (w : World) (key : NamespacedName) : Prop :=
  ∀ b ∈ w.bindings.entries, b.key = key → b.record = unrecorded ∧ ∀ o, ¬w.Output b.uid o

/-! ## Conditions on listings -/

/-- The binding is not being deleted while its pending claim has no object. -/
def selfSettled (key : NamespacedName) (w : World) : Bool :=
  decide (∀ b ∈ w.bindings.get key, b.deleting = true → ∀ p ∈ b.status.pendingClusterSPIFFEID,
    ∃ o ∈ w.objects.get p.name, clusterSPIFFEIDOwnershipClaim o = p.claimID)

/-- An object of `p` that renders the boundary of `b`, which `p` does not declare. -/
def World.StaleOutput (w : World) (b p : Binding) (o : ClusterSPIFFEID) : Prop :=
  p.key.namespace_ = b.key.namespace_ ∧ p.key ≠ b.key ∧ p.boundary ≠ b.boundary ∧
    (∃ e ∈ w.created, e.1 = o.uid ∧ e.2 = p.uid) ∧ b.boundary.RenderedIn o.selectors

instance (w : World) (b p : Binding) (o : ClusterSPIFFEID) : Decidable (w.StaleOutput b p o) := by
  unfold World.StaleOutput; infer_instance

/-- No other binding of the namespace that declares another boundary still has an object
which renders the boundary of the binding. -/
def freeOfStale (key : NamespacedName) (w : World) : Bool :=
  decide (∀ b ∈ w.bindings.get key, ∀ p ∈ w.bindings.entries, ∀ o ∈ w.objects.entries,
    ¬w.StaleOutput b p o)

namespace Setting

/-- A closed setting in which no reconcile takes its own claim away from under itself. -/
def Strict (S : Setting) : Prop :=
  S.Closed ∧ (S.overlap = false ∨ ∀ key w, S.listing key w = true → selfSettled key w = true)

/-- A quiet setting in which no object outlives the spec it was rendered from unnoticed. -/
def Vetted (S : Setting) : Prop :=
  S.Quiet ∧ ∀ key w, S.listing key w = true → freeOfStale key w = true

theorem Strict.closed {S : Setting} (h : S.Strict) : S.Closed := h.1

theorem Quiet.strict {S : Setting} (h : S.Quiet) : S.Strict := ⟨h.1, Or.inl h.2⟩

theorem Vetted.quiet {S : Setting} (h : S.Vetted) : S.Quiet := h.1

end Setting

/-! ## The invariants -/

/-- Where records are written by the operator only: a record names what the operator
generated or created for the binding, and nobody else carries its claims. -/
structure Authentic (w : World) : Prop where
  claim_known : ∀ o ∈ w.objectVersions, clusterSPIFFEIDOwnershipClaim o ∈ w.identifiers
  claimed : ∀ o ∈ w.objectVersions, ∀ owner, (clusterSPIFFEIDOwnershipClaim o, owner) ∈ w.claims →
    (o.uid, owner) ∈ w.created
  pending : ∀ b ∈ w.bindingVersions, ∀ p ∈ b.status.pendingClusterSPIFFEID,
    (p.claimID, b.uid) ∈ w.claims
  owned : ∀ b ∈ w.bindingVersions, ∀ q ∈ b.status.ownedClusterSPIFFEID,
    (q.uid, b.uid) ∈ w.created

/-- Every status there ever was keeps the status contract. -/
def Classified (w : World) : Prop := ∀ b ∈ w.bindingVersions, b.status.Taxonomic

/-- Where the operator's objects are left to it: the record of a binding covers its
outputs, a binding has one output at most, and nothing that owns something goes away. -/
structure Accounted (S : Setting) (w : World) : Prop where
  covered : ∀ b ∈ w.bindings.entries,
    S.Strict ∨ b.deleting = false ∨ b.record ≠ unrecorded → ∀ o, w.Output b.uid o → Covers b.record o
  stored : S.Strict → ∀ u o, w.Output u o → ∃ b ∈ w.bindings.entries, b.uid = u
  single : ∀ u o o', w.Output u o → w.Output u o' → o = o'
  pinned : ∀ b ∈ w.bindings.entries, b.record ≠ unrecorded →
    inferenceIdentityBindingFinalizer ∈ b.finalizers
  alive : ∀ b ∈ w.bindings.entries, b.status.pendingClusterSPIFFEID ≠ none →
    ∀ o, w.Output b.uid o → o.terminating = false
  conflict : ∀ b ∈ w.bindings.entries, b.status.Is .conflict .true_ → b.record = unrecorded

/-- Where no stale output goes unnoticed: outputs of different bindings render different
boundaries, each in the namespace of its binding. -/
structure Exclusive (w : World) : Prop where
  rendered : ∀ u o, w.Output u o → ∃ t, o.Renders t ∧
    ∀ b ∈ w.bindingVersions, b.uid = u → b.key.namespace_ = t.namespace_
  disjoint : ∀ u o u' o' t, w.Output u o → w.Output u' o' → o.Renders t → o'.Renders t → u = u'

/-- The invariant of a setting. -/
structure Inv (S : Setting) (w : World) : Prop where
  history : History w
  authentic : S.Honest → Authentic w
  classified : S.Tidy → Classified w
  accounted : S.Closed → Accounted S w
  exclusive : S.Vetted → Exclusive w

/-! ## How changes keep them -/

section Authentic

variable {w : World}

theorem Authentic.saveBinding (h : Authentic w) {b : Binding}
    (hpending : ∀ p ∈ b.status.pendingClusterSPIFFEID, (p.claimID, b.uid) ∈ w.claims)
    (howned : ∀ q ∈ b.status.ownedClusterSPIFFEID, (q.uid, b.uid) ∈ w.created) :
    Authentic (w.saveBinding b) where
  claim_known := h.claim_known
  claimed := h.claimed
  pending := by
    intro v hv
    rcases List.mem_cons.mp hv with rfl | hv
    · exact hpending
    · exact h.pending v hv
  owned := by
    intro v hv
    rcases List.mem_cons.mp hv with rfl | hv
    · exact howned
    · exact h.owned v hv

theorem Authentic.dropBinding (h : Authentic w) (key : NamespacedName) :
    Authentic (w.dropBinding key) :=
  ⟨h.claim_known, h.claimed, h.pending, h.owned⟩

theorem Authentic.saveObject (h : Authentic w) {o : ClusterSPIFFEID}
    (hknown : clusterSPIFFEIDOwnershipClaim o ∈ w.identifiers)
    (hclaimed : ∀ owner, (clusterSPIFFEIDOwnershipClaim o, owner) ∈ w.claims →
      (o.uid, owner) ∈ w.created) :
    Authentic (w.saveObject o) where
  claim_known := by
    intro v hv
    rcases List.mem_cons.mp hv with rfl | hv
    · exact hknown
    · exact h.claim_known v hv
  claimed := by
    intro v hv
    rcases List.mem_cons.mp hv with rfl | hv
    · exact hclaimed
    · exact h.claimed v hv
  pending := h.pending
  owned := h.owned

theorem Authentic.dropObject (h : Authentic w) (name : GoString) :
    Authentic (w.dropObject name) :=
  ⟨h.claim_known, h.claimed, h.pending, h.owned⟩

theorem Authentic.note (h : Authentic w) (ids : List GoString) : Authentic (w.note ids) :=
  ⟨fun o ho => List.mem_append_right ids (h.claim_known o ho), h.claimed, h.pending, h.owned⟩

theorem Authentic.credit (h : Authentic w) (uid owner : GoString) :
    Authentic (w.credit uid owner) where
  claim_known := fun o ho => List.mem_cons_of_mem uid (h.claim_known o ho)
  claimed := fun o ho owner' hclaim => List.mem_cons_of_mem _ (h.claimed o ho owner' hclaim)
  pending := h.pending
  owned := fun b hb q hq => List.mem_cons_of_mem _ (h.owned b hb q hq)

/-- No object carries a claim before it is issued. -/
theorem Authentic.issueClaim (h : Authentic w) {claim : GoString} (hclaim : claim ∉ w.identifiers)
    (owner : GoString) : Authentic (w.issueClaim claim owner) where
  claim_known := fun o ho => List.mem_cons_of_mem claim (h.claim_known o ho)
  claimed := by
    intro o ho owner' ho'
    rcases List.mem_cons.mp ho' with heq | ho'
    · have hknown := h.claim_known o ho
      rw [(Prod.mk.inj heq).1] at hknown
      exact absurd hknown hclaim
    · exact h.claimed o ho owner' ho'
  pending := fun b hb p hp => List.mem_cons_of_mem _ (h.pending b hb p hp)
  owned := h.owned

theorem Classified.saveBinding (h : Classified w) {b : Binding} (hb : b.status.Taxonomic) :
    Classified (w.saveBinding b) := by
  intro v hv
  rcases List.mem_cons.mp hv with rfl | hv
  · exact hb
  · exact h v hv

end Authentic

section Accounted

variable {S : Setting} {w w' : World}

theorem Accounted.saveBinding (h : Accounted S w) {b : Binding}
    (huid : ∀ v ∈ w.bindings.entries, v.key = b.key → v.uid = b.uid)
    (hcovered : S.Strict ∨ b.deleting = false ∨ b.record ≠ unrecorded →
      ∀ o, w.Output b.uid o → Covers b.record o)
    (hpinned : b.record ≠ unrecorded → inferenceIdentityBindingFinalizer ∈ b.finalizers)
    (halive : b.status.pendingClusterSPIFFEID ≠ none →
      ∀ o, w.Output b.uid o → o.terminating = false)
    (hconflict : b.status.Is .conflict .true_ → b.record = unrecorded) :
    Accounted S (w.saveBinding b) where
  covered := by
    intro v hv
    rcases Store.mem_put.mp hv with rfl | ⟨hv, -⟩
    · exact hcovered
    · exact h.covered v hv
  stored := by
    intro hstrict u o ho
    obtain ⟨v, hv, hvu⟩ := h.stored hstrict u o ho
    by_cases hkey : v.key = b.key
    · exact ⟨_, Store.mem_put.mpr (Or.inl rfl), (huid v hv hkey).symm.trans hvu⟩
    · exact ⟨v, Store.mem_put.mpr (Or.inr ⟨hv, hkey⟩), hvu⟩
  single := h.single
  pinned := by
    intro v hv
    rcases Store.mem_put.mp hv with rfl | ⟨hv, -⟩
    · exact hpinned
    · exact h.pinned v hv
  alive := by
    intro v hv
    rcases Store.mem_put.mp hv with rfl | ⟨hv, -⟩
    · exact halive
    · exact h.alive v hv
  conflict := by
    intro v hv
    rcases Store.mem_put.mp hv with rfl | ⟨hv, -⟩
    · exact hconflict
    · exact h.conflict v hv

/-- What goes away has no output. -/
theorem Accounted.dropBinding (h : Accounted S w) {key : NamespacedName}
    (hfree : S.Strict → ∀ v ∈ w.bindings.entries, v.key = key → ∀ o, ¬w.Output v.uid o) :
    Accounted S (w.dropBinding key) where
  covered := fun v hv => h.covered v (Store.mem_erase.mp hv).1
  stored := by
    intro hstrict u o ho
    obtain ⟨v, hv, rfl⟩ := h.stored hstrict u o ho
    exact ⟨v, Store.mem_erase.mpr ⟨hv, fun hkey => hfree hstrict v hv hkey o ho⟩, rfl⟩
  single := h.single
  pinned := fun v hv => h.pinned v (Store.mem_erase.mp hv).1
  alive := fun v hv => h.alive v (Store.mem_erase.mp hv).1
  conflict := fun v hv => h.conflict v (Store.mem_erase.mp hv).1

/-- Outputs may go and may change in what records do not name; they terminate only when
their binding has no pending claim. -/
theorem Accounted.mapOutputs (h : Accounted S w) (hbindings : w'.bindings = w.bindings)
    (hout : ∀ u o', w'.Output u o' → ∃ o, w.Output u o ∧ o.name = o'.name ∧ o.uid = o'.uid ∧
      clusterSPIFFEIDOwnershipClaim o = clusterSPIFFEIDOwnershipClaim o' ∧
      (o'.terminating = o.terminating ∨
        ∀ b ∈ w.bindings.entries, b.uid = u → b.status.pendingClusterSPIFFEID = none)) :
    Accounted S w' where
  covered := by
    intro b hb hcase o' ho'
    rw [hbindings] at hb
    obtain ⟨o, ho, hname, huid, hclaim, -⟩ := hout b.uid o' ho'
    have hcovers := h.covered b hb hcase o ho
    rwa [Covers, hname, hclaim, huid] at hcovers
  stored := by
    intro hstrict u o' ho'
    obtain ⟨o, ho, -⟩ := hout u o' ho'
    rw [hbindings]
    exact h.stored hstrict u o ho
  single := by
    intro u o₁ o₂ ho₁ ho₂
    obtain ⟨x₁, hx₁, hname₁, -⟩ := hout u o₁ ho₁
    obtain ⟨x₂, hx₂, hname₂, -⟩ := hout u o₂ ho₂
    apply w'.objects.eq_of_key_eq ho₁.1 ho₂.1
    rw [← hname₁, ← hname₂, h.single u x₁ x₂ hx₁ hx₂]
  pinned := by
    rw [hbindings]
    exact h.pinned
  alive := by
    intro b hb hpending o' ho'
    rw [hbindings] at hb
    obtain ⟨o, ho, -, -, -, hterm | hnone⟩ := hout b.uid o' ho'
    · rw [hterm]
      exact h.alive b hb hpending o ho
    · exact absurd (hnone b hb rfl) hpending
  conflict := by
    rw [hbindings]
    exact h.conflict

theorem Exclusive.saveBinding (h : Exclusive w) {b : Binding}
    (hb : (∃ v ∈ w.bindingVersions, v.uid = b.uid ∧ v.key = b.key) ∨ ∀ o, ¬w.Output b.uid o) :
    Exclusive (w.saveBinding b) where
  rendered := by
    intro u o ho
    obtain ⟨t, ht, hns⟩ := h.rendered u o ho
    refine ⟨t, ht, ?_⟩
    intro v hv hvu
    rcases List.mem_cons.mp hv with rfl | hv
    · rcases hb with ⟨v, hv, huid, hkey⟩ | hfree
      · rw [← hns v hv (huid.trans hvu), hkey]
      · exact absurd ho (hvu ▸ hfree o)
    · exact hns v hv hvu
  disjoint := h.disjoint

/-- Outputs may go and may change in what they do not render. -/
theorem Exclusive.mapOutputs (h : Exclusive w) (hversions : w'.bindingVersions = w.bindingVersions)
    (hout : ∀ u o', w'.Output u o' → ∃ o, w.Output u o ∧ o.selectors = o'.selectors) :
    Exclusive w' where
  rendered := by
    intro u o' ho'
    obtain ⟨o, ho, hsel⟩ := hout u o' ho'
    obtain ⟨t, ht, hns⟩ := h.rendered u o ho
    rw [hversions]
    refine ⟨t, ?_, hns⟩
    rwa [ClusterSPIFFEID.Renders, hsel] at ht
  disjoint := by
    intro u o₁ u' o₂ t ho₁ ho₂ ht₁ ht₂
    obtain ⟨x₁, hx₁, hsel₁⟩ := hout u o₁ ho₁
    obtain ⟨x₂, hx₂, hsel₂⟩ := hout u' o₂ ho₂
    rw [ClusterSPIFFEID.Renders, ← hsel₁] at ht₁
    rw [ClusterSPIFFEID.Renders, ← hsel₂] at ht₂
    exact h.disjoint u x₁ u' x₂ t hx₁ hx₂ ht₁ ht₂

end Accounted

end Kleym
