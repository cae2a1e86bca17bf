import Kleym.Contract

/-!
# The contracts keep the invariants

Whatever others do within a setting keeps its invariant, and so does every call of the
operator that is made within its contract, however it is answered.
-/

namespace Kleym

open GoString

variable {r : Reconciler} {S : Setting} {log : Log} {w : World}

/-! ## Ownership patches, merged -/

theorem record_eq_iff {s t : Status} : s.record = t.record ↔
    s.pendingClusterSPIFFEID = t.pendingClusterSPIFFEID ∧
      s.ownedClusterSPIFFEID = t.ownedClusterSPIFFEID := by
  rw [Status.record, Status.record, Prod.mk.injEq]

/-- A patch computed from the stored record leaves its own record. -/
theorem record_mergeStatus {base current : Status} (target : Status)
    (h : current.record = base.record) : (mergeStatus base target current).record = target.record := by
  obtain ⟨hp, ho⟩ := record_eq_iff.mp h
  simp [record_eq_iff, mergeStatus, hp, ho]

theorem mergeStatus_confirmed {m : Binding} {v : Status} (h : v.record = m.record)
    (name uid : GoString) :
    mergeStatus m.status (confirmedStatus m name uid) v =
      { v with pendingClusterSPIFFEID := none, ownedClusterSPIFFEID := some ⟨name, uid⟩ } := by
  obtain ⟨hp, ho⟩ := record_eq_iff.mp h
  simp [mergeStatus, confirmedStatus, hp, ho]

theorem mergeStatus_cleared {m : Binding} {v : Status} (h : v.record = m.record) :
    mergeStatus m.status (clearedStatus m) v =
      { v with pendingClusterSPIFFEID := none, ownedClusterSPIFFEID := none } := by
  obtain ⟨hp, ho⟩ := record_eq_iff.mp h
  simp [mergeStatus, clearedStatus, hp, ho]

/-- The verdicts of a reservation. -/
def reservedVerdicts : ConditionType → Option Verdict :=
  waitingVerdicts (str "Waiting to confirm managed output creation")

theorem reservedVerdicts_message (t : ConditionType) (v : Verdict)
    (h : reservedVerdicts t = some v) : v.message ≠ initialMessage t := by
  cases t <;> simp [reservedVerdicts, waitingVerdicts, healthy] at h <;> subst h <;> decide

/-- What a reservation leaves: nothing rendered, and every condition as the reservation
has it, even where the patch does not mention the conditions. -/
theorem mergeStatus_reserved {m : Binding} {v : Status} (htracks : m.status.Tracks v)
    (hv : v.UniqueTypes) (name claim : GoString) :
    (mergeStatus m.status (reservedStatus m name claim) v).UniqueTypes ∧
    (mergeStatus m.status (reservedStatus m name claim) v).Unrendered ∧
    (mergeStatus m.status (reservedStatus m name claim) v).conflicts = [] ∧
    (mergeStatus m.status (reservedStatus m name claim) v).verdict = reservedVerdicts := by
  have htarget : (reservedStatus m name claim).verdict = reservedVerdicts :=
    verdict_applyWaiting m.status m.generation _
  have hunique : (reservedStatus m name claim).UniqueTypes :=
    htracks.unique.applyWaiting m.generation _
  refine ⟨?_, ⟨?_, ?_, ?_⟩, ?_, ?_⟩
  · rw [Status.UniqueTypes, mergeStatus, mergeField]
    split_ifs
    · exact hv
    · exact hunique
  · simp [mergeStatus, htracks.computed, reservedStatus, applyPendingManagedOutputStatus,
      applyWaiting, clearRendered, setResolved, setCondition]
  · simp [mergeStatus, htracks.selectors, reservedStatus, applyPendingManagedOutputStatus,
      applyWaiting, clearRendered, setResolved, setCondition]
  · simp [mergeStatus, htracks.output, reservedStatus, applyPendingManagedOutputStatus,
      applyWaiting, clearRendered, setResolved, setCondition]
  · simp [mergeStatus, htracks.conflicts, reservedStatus, applyPendingManagedOutputStatus,
      applyWaiting, clearRendered, setResolved, setCondition]
  · by_cases hsame : m.status.conditions = (reservedStatus m name claim).conditions
    · -- the patch leaves the stored conditions, which then say the same
      have hconditions : (mergeStatus m.status (reservedStatus m name claim) v).conditions =
          v.conditions := if_pos hsame
      have hmemory : m.status.verdict = reservedVerdicts := by
        rw [← htarget]
        funext t
        rw [Status.verdict, Status.verdict, hsame]
      funext t
      have hstored : (mergeStatus m.status (reservedStatus m name claim) v).verdict t =
          v.verdict t := by rw [Status.verdict, Status.verdict, hconditions]
      obtain ⟨x, hx⟩ : ∃ x, reservedVerdicts t = some x := by
        cases t <;> exact ⟨_, rfl⟩
      rcases htracks.verdict t x (by rw [hmemory, hx]) with hmessage | hv
      · exact absurd hmessage (reservedVerdicts_message t x hx)
      · rw [hstored, hv, hx]
    · have hconditions : (mergeStatus m.status (reservedStatus m name claim) v).conditions =
          (reservedStatus m name claim).conditions := if_neg hsame
      rw [← htarget]
      funext t
      rw [Status.verdict, Status.verdict, hconditions]

/-! ## Writes to bindings -/

/-- A stored binding is saved again with its status: its owner's bookkeeping is not
concerned. -/
theorem Inv.resave (h : Inv S w) {b stored : Binding} (hstored : stored ∈ w.bindings.entries)
    (hkey : b.key = stored.key) (huid : b.uid = stored.uid) (hstatus : b.status = stored.status)
    (hdeleting : b.deleting = false → stored.deleting = false)
    (hpinned : b.record ≠ unrecorded → inferenceIdentityBindingFinalizer ∈ stored.finalizers →
      inferenceIdentityBindingFinalizer ∈ b.finalizers) : Inv S (w.saveBinding b) := by
  have hmem := h.history.binding_mem stored hstored
  have hrecord : b.record = stored.record := congrArg Status.record hstatus
  refine ⟨h.history.resaveBinding hstored huid hkey (hstatus ▸ h.history.admitted stored hmem),
    fun hh => (h.authentic hh).saveBinding ?_ ?_, fun ht => (h.classified ht).saveBinding ?_,
    fun hc => (h.accounted hc).saveBinding ?_ ?_ ?_ ?_ ?_,
    fun hv => (h.exclusive hv).saveBinding (Or.inl ⟨stored, hmem, huid.symm, hkey.symm⟩)⟩
  · rw [hstatus, huid]
    exact (h.authentic hh).pending stored hmem
  · rw [hstatus, huid]
    exact (h.authentic hh).owned stored hmem
  · rw [hstatus]
    exact h.classified ht stored hmem
  · intro v hv hvk
    rw [huid, w.bindings.eq_of_key_eq hv hstored (hvk.trans hkey)]
  · intro hcase
    rw [hrecord, huid]
    rw [hrecord] at hcase
    exact (h.accounted hc).covered stored hstored
      (hcase.imp id (Or.imp hdeleting id))
  · intro hne
    exact hpinned hne ((h.accounted hc).pinned stored hstored (hrecord ▸ hne))
  · rw [hstatus, huid]
    exact (h.accounted hc).alive stored hstored
  · rw [hstatus, hrecord]
    exact (h.accounted hc).conflict stored hstored

/-- A binding without outputs goes away. -/
theorem Inv.drop (h : Inv S w) {key : NamespacedName}
    (hfree : S.Strict → ∀ v ∈ w.bindings.entries, v.key = key → ∀ o, ¬w.Output v.uid o) :
    Inv S (w.dropBinding key) where
  history := h.history.dropBinding key
  authentic := fun hh => (h.authentic hh).dropBinding key
  classified := h.classified
  accounted := fun hc => (h.accounted hc).dropBinding hfree
  exclusive := fun hv => ⟨(h.exclusive hv).rendered, (h.exclusive hv).disjoint⟩

/-- The update of a binding, which touches its finalizers only. -/
theorem Inv.updateBinding (h : Inv S w) {b stored : Binding}
    (hstored : w.bindings.get b.key = some stored)
    (hversion : stored.resourceVersion = b.resourceVersion) (hguard : FinalizerUpdate S w b) :
    Inv S (w.settleBinding (stored.replacedBy b)) := by
  obtain ⟨hmem, -⟩ := Store.get_eq_some.mp hstored
  obtain ⟨v, hv, hrv, hspec, hcase⟩ := hguard.version
  obtain rfl := h.history.binding_inj v hv stored (h.history.binding_mem stored hmem)
    (hrv.trans hversion.symm)
  rw [World.settleBinding]
  split_ifs with hgone
  · refine h.drop ?_
    rintro hstrict x hx hxk o ho
    rcases hcase with hadd | ⟨-, -, -, hfree⟩
    · have hnil : v.finalizers ++ [inferenceIdentityBindingFinalizer] = [] :=
        hadd.symm.trans hgone.2
      simp at hnil
    · rw [w.bindings.eq_of_key_eq hx hmem hxk] at ho
      exact hfree hstrict o ho
  · refine h.resave hmem rfl rfl rfl id ?_
    intro hne _
    rcases hcase with hadd | ⟨-, hnone, -⟩
    · change inferenceIdentityBindingFinalizer ∈ b.finalizers
      simp [hadd]
    · exact absurd hnone hne

/-- The status of a stored binding is replaced. -/
theorem Inv.rewriteStatus (h : Inv S w) {stored : Binding} {status : Status}
    (hstored : stored ∈ w.bindings.entries) (hadmitted : status.Admitted)
    (hauthentic : S.Honest →
      (∀ p ∈ status.pendingClusterSPIFFEID, (p.claimID, stored.uid) ∈ w.claims) ∧
      ∀ q ∈ status.ownedClusterSPIFFEID, (q.uid, stored.uid) ∈ w.created)
    (htaxonomic : S.Tidy → status.Taxonomic)
    (haccounted : S.Closed →
      (S.Strict ∨ stored.deleting = false ∨ status.record ≠ unrecorded →
        ∀ o, w.Output stored.uid o → Covers status.record o) ∧
      (status.record ≠ unrecorded → inferenceIdentityBindingFinalizer ∈ stored.finalizers) ∧
      (status.pendingClusterSPIFFEID ≠ none →
        ∀ o, w.Output stored.uid o → o.terminating = false) ∧
      (status.Is .conflict .true_ → status.record = unrecorded)) :
    Inv S (w.saveBinding { stored with status := status }) := by
  have hmem := h.history.binding_mem stored hstored
  refine ⟨h.history.resaveBinding hstored rfl rfl hadmitted,
    fun hh => (h.authentic hh).saveBinding (hauthentic hh).1 (hauthentic hh).2,
    fun ht => (h.classified ht).saveBinding (htaxonomic ht),
    fun hc => (h.accounted hc).saveBinding ?_ (haccounted hc).1 (haccounted hc).2.1
      (haccounted hc).2.2.1 (haccounted hc).2.2.2,
    fun hv => (h.exclusive hv).saveBinding (Or.inl ⟨stored, hmem, rfl, rfl⟩)⟩
  intro v hv hvk
  rw [w.bindings.eq_of_key_eq hv hstored hvk]

/-- A patch of `patchStatus` leaves the record. -/
theorem Inv.ordinaryPatch (h : Inv S w) {base stored : Binding} {status : Status}
    (hstored : w.bindings.get base.key = some stored)
    (hversion : stored.resourceVersion = base.resourceVersion)
    (hadmitted : (stored.patchedBy base status).status.Admitted)
    (hguard : OrdinaryPatch r S log w base status) :
    Inv S (w.saveBinding (stored.patchedBy base status)) := by
  obtain ⟨hmem, hkey⟩ := Store.get_eq_some.mp hstored
  have hstoredMem := h.history.binding_mem stored hmem
  obtain rfl := h.history.binding_inj base hguard.base_mem stored hstoredMem hversion.symm
  rw [Binding.patchedBy, mergeStatus_current] at hadmitted ⊢
  obtain ⟨hpending, howned⟩ := record_eq_iff.mp hguard.record
  refine h.rewriteStatus hmem hadmitted ?_ hguard.taxonomic ?_
  · intro hh
    rw [hpending, howned]
    exact ⟨(h.authentic hh).pending base hstoredMem, (h.authentic hh).owned base hstoredMem⟩
  · intro hc
    have hacc := h.accounted hc
    rw [hguard.record, hpending]
    exact ⟨hacc.covered base hmem, hacc.pinned base hmem, hacc.alive base hmem,
      fun hconflict => (hguard.withdrawn hc hconflict base.key List.mem_cons_self base hmem rfl).1⟩

/-- An ownership patch moves the record as its contract says. -/
theorem Inv.ownershipPatch (h : Inv S w) {base stored : Binding} {status : Status}
    (hstored : w.bindings.get base.key = some stored)
    (hversion : stored.resourceVersion = base.resourceVersion)
    (hadmitted : (stored.patchedBy base status).status.Admitted)
    (hbased : Based S w base) (htransfer : Transfer S log w base status) :
    Inv S (w.saveBinding (stored.patchedBy base status)) := by
  obtain ⟨hmem, hkey⟩ := Store.get_eq_some.mp hstored
  have hstoredMem := h.history.binding_mem stored hmem
  obtain ⟨v, hv, hcopy, hrecord, htracks⟩ := hbased
  have hvv : v.resourceVersion = base.resourceVersion := by rw [hcopy]
  obtain rfl := h.history.binding_inj v hv stored hstoredMem (hvv.trans hversion.symm)
  have huid : v.uid = base.uid := by rw [hcopy]
  rw [Binding.patchedBy] at hadmitted ⊢
  cases htransfer with
  | @reserve name claim hnone hread hgenerated hclaim hfree hpinned =>
    have hmerged := record_mergeStatus (reservedStatus base name claim) hrecord
    obtain ⟨hpending, howned⟩ := record_eq_iff.mp hmerged
    refine h.rewriteStatus hmem hadmitted ?_ ?_ ?_
    · intro _
      rw [hpending, howned, huid]
      simpa [reservedStatus] using hclaim
    · intro ht
      obtain ⟨hunique, hunrendered, hconflicts, hverdict⟩ :=
        mergeStatus_reserved (htracks ht) (h.classified ht v hv).nodup name claim
      refine ⟨consistent_of_waiting [] hunique hunrendered hconflicts
        (Or.inl hverdict), fun _ hready => ?_⟩
      simp [Status.Is, hverdict, reservedVerdicts, waitingVerdicts] at hready
    · intro hc
      refine ⟨fun _ o ho => absurd ho (huid ▸ hfree hc o), fun _ => hpinned hc v hmem huid,
        fun _ o ho => absurd ho (huid ▸ hfree hc o), fun hconflict => ?_⟩
      obtain ⟨-, -, -, hverdict⟩ :=
        mergeStatus_reserved (htracks hc.tidy) (h.classified hc.tidy v hv).nodup name claim
      simp [Status.Is, hverdict, reservedVerdicts, waitingVerdicts, healthy] at hconflict
  | @confirm pending uid hsome hsighted hcreated hlive =>
    rw [mergeStatus_confirmed hrecord] at hadmitted ⊢
    refine h.rewriteStatus hmem hadmitted ?_ ?_ ?_
    · intro hh
      refine ⟨by simp, ?_⟩
      rintro q hq
      cases hq
      exact huid ▸ hcreated hh
    · intro ht
      exact ⟨(h.classified ht v hv).toConsistent.withRecord _ _, by simp⟩
    · intro hc
      have hacc := h.accounted hc
      have hne : v.record ≠ unrecorded := by
        rw [hrecord, hsome]
        simp [unrecorded]
      refine ⟨fun _ o ho => ?_, fun _ => hacc.pinned v hmem hne, by simp, fun hconflict => ?_⟩
      · obtain ⟨o', ho', hname, huid', -⟩ := hlive hc v hmem huid hrecord
        rw [hacc.single base.uid o o' (huid ▸ ho) ho']
        exact Or.inr ⟨_, rfl, hname, huid'⟩
      · exact absurd (hacc.conflict v hmem hconflict) hne
  | clear hsome hvanished hfree =>
    rw [mergeStatus_cleared hrecord] at hadmitted ⊢
    refine h.rewriteStatus hmem hadmitted ?_ ?_ ?_
    · intro _
      simp
    · intro ht
      exact ⟨(h.classified ht v hv).toConsistent.withRecord _ _, by simp⟩
    · intro hc
      exact ⟨fun _ o ho => absurd ho (huid ▸ hfree hc o), fun hne => absurd rfl hne, by simp,
        fun _ => rfl⟩

/-! ## Writes to objects -/

/-- The outputs after an object is saved. -/
theorem output_saveObject {o x : ClusterSPIFFEID} {u : GoString}
    (h : (w.saveObject o).Output u x) :
    (x = { o with resourceVersion := w.revision + 1 } ∧ (o.uid, u) ∈ w.created) ∨
      (w.Output u x ∧ x.name ≠ o.name) := by
  rcases Store.mem_put.mp h.1 with rfl | ⟨hx, hname⟩
  · exact Or.inl ⟨rfl, h.2⟩
  · exact Or.inr ⟨⟨hx, h.2⟩, hname⟩

theorem output_dropObject {name u : GoString} {x : ClusterSPIFFEID}
    (h : (w.dropObject name).Output u x) : w.Output u x :=
  ⟨(Store.mem_erase.mp h.1).1, h.2⟩

/-- One output is put or replaced by one that renders what nobody else renders. -/
theorem Exclusive.putOutput {w' : World} (h : Exclusive w)
    (hversions : w'.bindingVersions = w.bindingVersions) {owner : GoString} {x : ClusterSPIFFEID}
    (hcleared : Cleared w owner x)
    (hout : ∀ u o, w'.Output u o → w.Output u o ∨ (u = owner ∧ o.selectors = x.selectors)) :
    Exclusive w' := by
  obtain ⟨t, ht, hns, hothers⟩ := hcleared
  have hself : ∀ {o : ClusterSPIFFEID} {t' : Boundary}, o.selectors = x.selectors → o.Renders t' →
      t' = t := by
    intro o t' hsel ht'
    rw [ClusterSPIFFEID.Renders, hsel] at ht'
    exact ht'.1.eq_of_admits ht.2
  constructor
  · intro u o ho
    rw [hversions]
    rcases hout u o ho with ho | ⟨rfl, hsel⟩
    · exact h.rendered u o ho
    · refine ⟨t, ?_, hns⟩
      rwa [ClusterSPIFFEID.Renders, hsel]
  · intro u o u' o' t' ho ho' ht₁ ht₂
    rcases hout u o ho with ho | ⟨rfl, hsel⟩ <;> rcases hout u' o' ho' with ho' | ⟨rfl, hsel'⟩
    · exact h.disjoint u o u' o' t' ho ho' ht₁ ht₂
    · exact hothers u o ho (hself hsel' ht₂ ▸ ht₁)
    · exact (hothers u' o' ho' (hself hsel ht₁ ▸ ht₂)).symm
    · rfl

/-- An object is saved that is no output, or stays the output it was. -/
theorem Inv.saveObject (h : Inv S w) {o : ClusterSPIFFEID}
    (hhistory : History (w.saveObject o)) (hauthentic : S.Honest → Authentic (w.saveObject o))
    (hout : S.Closed → (∀ u, (o.uid, u) ∉ w.created) ∨
      ∃ stored ∈ w.objects.entries, stored.name = o.name ∧ stored.uid = o.uid ∧
        clusterSPIFFEIDOwnershipClaim stored = clusterSPIFFEIDOwnershipClaim o ∧
        (o.terminating = stored.terminating ∨ ∀ u, (o.uid, u) ∈ w.created →
          ∀ b ∈ w.bindings.entries, b.uid = u → b.status.pendingClusterSPIFFEID = none))
    (hexclusive : S.Vetted → Exclusive (w.saveObject o)) : Inv S (w.saveObject o) := by
  refine ⟨hhistory, hauthentic, h.classified, fun hc => (h.accounted hc).mapOutputs rfl ?_,
    hexclusive⟩
  intro u x hx
  rcases output_saveObject hx with ⟨rfl, hcreated⟩ | ⟨hx, -⟩
  · rcases hout hc with hforeign | ⟨stored, hmem, hname, huid, hclaim, hterm⟩
    · exact absurd hcreated (hforeign u)
    · exact ⟨stored, ⟨hmem, huid ▸ hcreated⟩, hname, huid, hclaim,
        hterm.imp id fun h => h u hcreated⟩
  · exact ⟨x, hx, rfl, rfl, rfl, Or.inl rfl⟩

theorem Inv.dropObject (h : Inv S w) (name : GoString) : Inv S (w.dropObject name) where
  history := h.history.dropObject name
  authentic := fun hh => (h.authentic hh).dropObject name
  classified := h.classified
  accounted := fun hc => (h.accounted hc).mapOutputs rfl fun _ x hx =>
    ⟨x, output_dropObject hx, rfl, rfl, rfl, Or.inl rfl⟩
  exclusive := fun hv => (h.exclusive hv).mapOutputs rfl fun _ x hx =>
    ⟨x, output_dropObject hx, rfl⟩

theorem Inv.note (h : Inv S w) (ids : List GoString) : Inv S (w.note ids) where
  history := h.history.note ids
  authentic := fun hh => (h.authentic hh).note ids
  classified := h.classified
  accounted := fun hc => (h.accounted hc).mapOutputs rfl fun _ x hx =>
    ⟨x, hx, rfl, rfl, rfl, Or.inl rfl⟩
  exclusive := fun hv => (h.exclusive hv).mapOutputs rfl fun _ x hx => ⟨x, hx, rfl⟩

theorem Inv.issueClaim (h : Inv S w) {claim owner : GoString} (hclaim : claim ∉ w.identifiers)
    (howner : owner ∈ w.identifiers) : Inv S (w.issueClaim claim owner) where
  history := h.history.issueClaim hclaim howner
  authentic := fun hh => (h.authentic hh).issueClaim hclaim owner
  classified := h.classified
  accounted := fun hc => (h.accounted hc).mapOutputs rfl fun _ x hx =>
    ⟨x, hx, rfl, rfl, rfl, Or.inl rfl⟩
  exclusive := fun hv => (h.exclusive hv).mapOutputs rfl fun _ x hx => ⟨x, hx, rfl⟩

/-- The update of an object. -/
theorem Inv.updateObject (h : Inv S w) {owner : GoString} {object stored : ClusterSPIFFEID}
    (hstored : w.objects.get object.name = some stored)
    (hversion : stored.resourceVersion = object.resourceVersion) (huid : stored.uid = object.uid)
    (hguard : ObjectUpdate S w owner object) : Inv S (w.saveObject (stored.replacedBy object)) := by
  obtain ⟨hmem, hname⟩ := Store.get_eq_some.mp hstored
  obtain ⟨v, hv, hrv, -, hclaim⟩ := hguard.version
  obtain rfl := h.history.object_inj v hv stored (h.history.object_mem stored hmem)
    (hrv.trans hversion.symm)
  refine h.saveObject (h.history.resaveObject hmem huid.symm hname.symm) ?_ ?_ ?_
  · intro hh
    refine (h.authentic hh).saveObject ?_ ?_
    · exact hclaim ▸ (h.authentic hh).claim_known v hv
    · intro owner' ho'
      have := (h.authentic hh).claimed v hv owner' (hclaim ▸ ho')
      rwa [huid] at this
  · intro _
    exact Or.inr ⟨v, hmem, hname, huid, hclaim, Or.inl rfl⟩
  · intro hv'
    refine (h.exclusive hv').putOutput (x := object) rfl (hguard.cleared hv') ?_
    intro u x hx
    rcases output_saveObject hx with ⟨rfl, hcreated⟩ | ⟨hx, -⟩
    · exact Or.inr ⟨h.history.owner_eq hcreated (hguard.created hv'.quiet.closed.honest), rfl⟩
    · exact Or.inl hx

/-- A stored object is marked as terminating, by its operator or, when it is nobody's output,
by others. -/
theorem Inv.terminate (h : Inv S w) {stored : ClusterSPIFFEID} (hmem : stored ∈ w.objects.entries)
    (hconfirmed : S.Closed → ∀ u, (stored.uid, u) ∈ w.created →
      ∀ b ∈ w.bindings.entries, b.uid = u → b.status.pendingClusterSPIFFEID = none) :
    Inv S (w.saveObject stored.markedDeleted) := by
  have hv := h.history.object_mem stored hmem
  refine h.saveObject (h.history.resaveObject hmem rfl rfl) ?_ ?_ ?_
  · intro hh
    exact (h.authentic hh).saveObject ((h.authentic hh).claim_known stored hv)
      ((h.authentic hh).claimed stored hv)
  · exact fun hc => Or.inr ⟨stored, hmem, rfl, rfl, rfl, Or.inr (hconfirmed hc)⟩
  · intro hv'
    refine (h.exclusive hv').mapOutputs rfl ?_
    intro u x hx
    rcases output_saveObject hx with ⟨rfl, hcreated⟩ | ⟨hx, -⟩
    · exact ⟨stored, ⟨hmem, hcreated⟩, rfl⟩
    · exact ⟨x, hx, rfl⟩

/-- The outputs after a create. -/
theorem output_create (h : History w) {fresh owner u : GoString} {o x : ClusterSPIFFEID}
    (hfresh : fresh ∉ w.identifiers)
    (hx : ((w.credit fresh owner).saveObject (o.createdAs fresh)).Output u x) :
    (x = { o.createdAs fresh with resourceVersion := w.revision + 1 } ∧ u = owner) ∨
      w.Output u x := by
  rcases output_saveObject hx with ⟨rfl, hcreated⟩ | ⟨⟨hmem, hcreated⟩, -⟩
  · refine Or.inl ⟨rfl, ?_⟩
    rcases List.mem_cons.mp hcreated with heq | hcreated
    · exact (Prod.mk.inj heq).2
    · exact absurd (h.created_known _ hcreated).1 hfresh
  · rcases List.mem_cons.mp hcreated with heq | hcreated
    · have hknown := h.object_known x (h.object_mem x hmem)
      rw [(Prod.mk.inj heq).1] at hknown
      exact absurd hknown hfresh
    · exact Or.inr ⟨hmem, hcreated⟩

/-- A create. -/
theorem Inv.create (h : Inv S w) {fresh owner : GoString} {o : ClusterSPIFFEID}
    (hfresh : fresh ∉ w.identifiers) (habsent : w.objects.get o.name = none)
    (hguard : Creation S w owner o) :
    Inv S ((w.credit fresh owner).saveObject (o.createdAs fresh)) := by
  have habsent := Store.get_eq_none.mp habsent
  have hcredit : History (w.credit fresh owner) := h.history.credit hfresh hguard.known
  refine ⟨hcredit.saveObject ?_ List.mem_cons_self, fun hh => ?_, h.classified, fun hc => ?_,
    fun hv => ?_⟩
  · intro v hv huid
    have hknown := h.history.object_known v hv
    rw [huid] at hknown
    exact absurd hknown hfresh
  · refine ((h.authentic hh).credit fresh owner).saveObject ?_ ?_
    · exact List.mem_cons_of_mem _ (h.history.claims_known _ (hguard.claimed hh)).1
    · intro owner' ho'
      have howner : owner' = owner := h.history.claims_inj _ ho' _ (hguard.claimed hh) rfl
      rw [howner]
      exact List.mem_cons_self
  · have hacc := h.accounted hc
    -- the slot is free, so the binding has no output yet
    have hnone : ∀ x, ¬w.Output owner x := fun x hx =>
      habsent x hx.1 (hguard.covered hc x hx)
    constructor
    · intro b hb hcase x hx
      rcases output_create h.history hfresh hx with ⟨rfl, hu⟩ | hx
      · rcases hguard.recorded hc b hb hu with hrecord | ⟨hstrict, hdeleting, hrecord⟩ | ⟨y, hy, hname⟩
        · rw [hrecord]
          exact Or.inl ⟨_, rfl, rfl, rfl⟩
        · rcases hcase with hcase | hcase | hcase
          · exact absurd hcase hstrict
          · rw [hdeleting] at hcase
            cases hcase
          · exact absurd hrecord hcase
        · exact absurd hname (habsent y hy)
      · exact hacc.covered b hb hcase x hx
    · intro hstrict u x hx
      rcases output_create h.history hfresh hx with ⟨-, rfl⟩ | hx
      · exact hguard.stored hstrict
      · exact hacc.stored hstrict u x hx
    · intro u x y hx hy
      rcases output_create h.history hfresh hx with ⟨rfl, rfl⟩ | hx <;>
        rcases output_create h.history hfresh hy with ⟨rfl, hu⟩ | hy
      · rfl
      · exact absurd hy (hnone y)
      · exact absurd hx (hu ▸ hnone x)
      · exact hacc.single u x y hx hy
    · exact hacc.pinned
    · intro b hb hpending x hx
      rcases output_create h.history hfresh hx with ⟨rfl, -⟩ | hx
      · rfl
      · exact hacc.alive b hb hpending x hx
    · exact hacc.conflict
  · refine (h.exclusive hv).putOutput (x := o) rfl (hguard.cleared hv) ?_
    intro u x hx
    rcases output_create h.history hfresh hx with ⟨rfl, hu⟩ | hx
    · exact Or.inr ⟨hu, rfl⟩
    · exact Or.inl hx

/-! ## Both sides -/

/-- **The operator keeps the invariant.** A call made within its contract leaves the invariant,
whatever answer it gets. -/
theorem Inv.respond (h : Inv S w) {c : Call} {choice : Choice} (hguard : Guard r S log w c)
    (hfresh : w.Fresh choice.fresh) : Inv S (respond choice c w).2 := by
  have heffect := respond_effect choice c w
  generalize (Kleym.respond choice c w).2 = w' at heffect ⊢
  cases heffect with
  | none => exact h
  | updateBinding hstored hversion huid => exact h.updateBinding hstored hversion hguard
  | @patchBindingStatus kind base stored status _ _ hstored hversion hadmitted =>
    cases kind with
    | ownership => exact h.ownershipPatch hstored hversion hadmitted hguard.1 hguard.2
    | ordinary => exact h.ordinaryPatch hstored hversion hadmitted hguard
  | create habsent => exact h.create hfresh.2 habsent hguard
  | updateObject hstored hversion huid => exact h.updateObject hstored hversion huid hguard
  | terminate hstored huid =>
    refine h.terminate (Store.get_eq_some.mp hstored).1 ?_
    intro hc u hu
    rw [huid] at hu
    rw [h.history.owner_eq hu (Deletion.created hguard hc.honest)]
    exact Deletion.confirmed hguard hc
  | remove hstored huid => exact h.dropObject _
  | issue => exact h.issueClaim hfresh.2 hguard

/-- An object that the operator has not created is nobody's output. -/
theorem World.Foreign.not_created {o : ClusterSPIFFEID} (h : w.Foreign o) (u : GoString) :
    (o.uid, u) ∉ w.created :=
  fun hmem => h (List.mem_map.mpr ⟨_, hmem, rfl⟩)

/-- A fresh identifier is nobody's UID. -/
theorem History.not_output_of_fresh (h : History w) {uid : GoString} (huid : uid ∉ w.identifiers)
    (o : ClusterSPIFFEID) : ¬w.Output uid o :=
  fun ho => huid (h.created_known _ ho.2).2

/-- A new binding. -/
theorem Inv.createBinding (h : Inv S w) {key : NamespacedName} {uid : GoString}
    {finalizers : List GoString} {spec : BindingSpec} (habsent : w.bindings.get key = none)
    (hfresh : w.Fresh uid) :
    Inv S ((w.note [uid]).saveBinding ⟨key, uid, 0, 1, false, finalizers, spec, {}⟩) := by
  have hnote := h.note [uid]
  have hfree := h.history.not_output_of_fresh hfresh.2
  have hadmitted : ({} : Status).Admitted := by decide
  refine ⟨hnote.history.saveBinding ?_ List.mem_cons_self hadmitted,
    fun hh => (hnote.authentic hh).saveBinding (by simp) (by simp),
    fun ht => Classified.saveBinding (hnote.classified ht) taxonomic_empty,
    fun hc => (hnote.accounted hc).saveBinding ?_ ?_ ?_ (by simp) (fun _ => rfl),
    fun hv => (hnote.exclusive hv).saveBinding (Or.inr hfree)⟩
  · intro v hv huid
    have hknown := h.history.binding_known v hv
    rw [show v.uid = uid from huid] at hknown
    exact absurd hknown hfresh.2
  · exact fun v hv hkey => absurd hkey (Store.get_eq_none.mp habsent v hv)
  · exact fun _ o ho => absurd ho (hfree o)
  · exact fun hne => absurd rfl hne

/-- A binding is marked as deleted, or goes away when nothing holds it. -/
theorem Inv.deleteBinding (h : Inv S w) {b : Binding} (hb : b ∈ w.bindings.entries) :
    Inv S (w.settleBinding b.markedDeleted) := by
  rw [World.settleBinding]
  split_ifs with hgone
  · refine h.drop ?_
    intro hstrict v hv hkey o ho
    obtain rfl := w.bindings.eq_of_key_eq hv hb hkey
    have hacc := h.accounted hstrict.closed
    -- an output would be recorded, and a record holds the binding
    have hrecord : v.record ≠ unrecorded := by
      intro hnone
      have hcovers := hacc.covered v hv (Or.inl hstrict) o ho
      rw [hnone] at hcovers
      rcases hcovers with ⟨_, hp, -⟩ | ⟨_, hq, -⟩
      · cases hp
      · cases hq
    have hpinned := hacc.pinned v hv hrecord
    rw [show v.finalizers = [] from hgone.2] at hpinned
    cases hpinned
  · exact h.resave hb rfl rfl rfl (by simp [Binding.markedDeleted]) fun _ => id

/-- Somebody else writes an object: a new one, or one that is not the operator's. -/
theorem Inv.saveForeign (h : Inv S w) {o : ClusterSPIFFEID} (ids : List GoString)
    (hhistory : History ((w.note ids).saveObject o))
    (hknown : clusterSPIFFEIDOwnershipClaim o ∈ ids ++ w.identifiers)
    (hclaimed : S.Honest → ∀ owner, (clusterSPIFFEIDOwnershipClaim o, owner) ∈ w.claims →
      (o.uid, owner) ∈ w.created)
    (hforeign : S.Closed → ∀ u, (o.uid, u) ∉ w.created) :
    Inv S ((w.note ids).saveObject o) := by
  have hnote := h.note ids
  refine hnote.saveObject hhistory ?_ (fun hc => Or.inl (hforeign hc)) ?_
  · exact fun hh => (hnote.authentic hh).saveObject hknown (hclaimed hh)
  · intro hv
    refine (hnote.exclusive hv).mapOutputs rfl ?_
    intro u x hx
    rcases output_saveObject hx with ⟨rfl, hcreated⟩ | ⟨hx, -⟩
    · exact absurd hcreated (hforeign hv.quiet.closed u)
    · exact ⟨x, hx, rfl⟩

/-- Pools are not concerned. -/
theorem Inv.withPools (h : Inv S w) (pools : Store InferencePool.key)
    (served : List GroupVersionKind) : Inv S { w with pools := pools, served := served } where
  history := { h.history with }
  authentic := fun hh => { h.authentic hh with }
  classified := h.classified
  accounted := fun hc => { h.accounted hc with }
  exclusive := fun hv => { h.exclusive hv with }

/-- **Others keep the invariant.** -/
theorem Inv.user (h : Inv S w) {op : UserOp} (hop : op.Permitted S w) : Inv S (op.apply w) := by
  cases op with
  | createBinding key uid finalizers spec => exact h.createBinding hop.1 hop.2
  | editBinding key spec =>
    rw [UserOp.apply]
    split
    · exact h
    · rename_i b hb
      exact h.resave (Store.get_eq_some.mp hb).1 rfl rfl rfl id fun _ => id
  | deleteBinding key =>
    rw [UserOp.apply]
    split
    · exact h
    · rename_i b hb
      exact h.deleteBinding (Store.get_eq_some.mp hb).1
  | writeBinding key finalizers status =>
    rw [UserOp.apply]
    split
    · exact h
    · rename_i b hb
      have hforgery : ¬S.Honest := by simp [Setting.Honest, hop.1]
      refine ⟨h.history.settleBinding (Store.get_eq_some.mp hb).1 rfl rfl hop.2,
        fun hh => absurd hh hforgery, fun ht => absurd ht.honest hforgery,
        fun hc => absurd hc.honest hforgery,
        fun hv => absurd hv.quiet.closed.honest hforgery⟩
  | putPool pool => exact h.withPools (w.pools.put pool) w.served
  | deletePool key => exact h.withPools (w.pools.erase key) w.served
  | serve kinds => exact h.withPools w.pools kinds
  | createObject uid object =>
    obtain ⟨habsent, hfresh, hunissued, -⟩ := hop
    refine h.saveForeign [uid, clusterSPIFFEIDOwnershipClaim object]
      (o := object.createdAs uid) ((h.history.note _).saveObject ?_ List.mem_cons_self) ?_ ?_ ?_
    · intro v hv huid
      have hknown := h.history.object_known v hv
      rw [show v.uid = uid from huid] at hknown
      exact absurd hknown hfresh.2
    · exact List.mem_cons_of_mem _ List.mem_cons_self
    · intro _ owner howner
      exact absurd (List.mem_map.mpr ⟨_, howner, rfl⟩) hunissued
    · exact fun _ u hu => hfresh.2 (h.history.created_known _ hu).1
  | modifyObject object =>
    rw [UserOp.apply]
    split
    · exact h
    · rename_i stored hstored
      obtain ⟨hmem, hname⟩ := Store.get_eq_some.mp hstored
      obtain ⟨hclaim, hforeign⟩ := hop.2 stored hstored
      refine h.saveForeign [clusterSPIFFEIDOwnershipClaim object]
        (o := { stored.replacedBy object with uid := stored.uid })
        ((h.history.note _).resaveObject hmem rfl hname.symm) List.mem_cons_self ?_ ?_
      · intro hh owner howner
        rcases hclaim with hclaim | hclaim
        · exact (h.authentic hh).claimed stored (h.history.object_mem stored hmem) owner
            (hclaim ▸ howner)
        · exact absurd (List.mem_map.mpr ⟨_, howner, rfl⟩) hclaim
      · intro hc u
        rcases hforeign with hforeign | hforeign
        · rw [hc.2] at hforeign
          cases hforeign
        · exact hforeign.not_created u
  | terminateObject name =>
    rw [UserOp.apply]
    split
    · exact h
    · rename_i stored hstored
      refine h.terminate (Store.get_eq_some.mp hstored).1 ?_
      intro hc u hu
      rcases hop stored hstored with hforeign | hforeign
      · rw [hc.2] at hforeign
        cases hforeign
      · exact absurd hu (hforeign.not_created u)
  | removeObject name => exact h.dropObject name

end Kleym
