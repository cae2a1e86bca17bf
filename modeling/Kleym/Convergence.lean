import Kleym.Progress

/-!
# The ends of a reconcile without faults

The last steps of each path of a reconcile, when nothing fails: the output is brought in line,
unless an object that the record does not name has its name, or the server refuses its labels
because the name of the binding is too long for one; a state error is published once the
output has been asked to go; a status is published with the record that is stored by then; and a
binding that is being deleted is let go, or waits for its output.
-/

namespace Kleym

open GoString Prog Protocol

variable {r : Reconciler} {S : Setting} {v v' v'' : World} {m m' q b : Binding} {plan : Plan}

/-! ## The output -/

/-- The object that is desired for a binding. -/
def Reconciler.desiredFor (r : Reconciler) (key : NamespacedName) (plan : Plan) : ClusterSPIFFEID :=
  desiredClusterSPIFFEID r.platform key plan r.config.clusterSPIFFEIDClassName

/-- An object that the record does not name is on the name that is desired. -/
def Taken (r : Reconciler) (v : World) (m : Binding) (plan : Plan) : Prop :=
  ∃ o, v.objects.get (desiredName r.platform m.key plan) = some o ∧ ¬Covers m.record o

/-- The server refuses the labels of the output. -/
def Barred (r : Reconciler) (m : Binding) (plan : Plan) : Prop :=
  ¬(r.desiredFor m.key plan).ValidLabels

/-- That is a matter of the binding's name: a label value has at most 63 bytes. -/
theorem barred_iff (hkey : m.key.Admitted) : Barred r m plan ↔ 63 < m.key.name.length := by
  have hlabels : Json.asStringMap (r.desiredFor m.key plan).labels =
      some (managedClusterSPIFFEIDLabels m.key) := asStringMap_ofStringMap _
  rw [Barred, ClusterSPIFFEID.ValidLabels, hlabels, Option.getD_some,
    managedClusterSPIFFEIDLabels_valid_iff hkey, not_le]

/-- The record is free for the desired name: it names that, or nothing. -/
def Vacant (r : Reconciler) (m : Binding) (plan : Plan) : Prop :=
  recordedClusterSPIFFEIDName m.status = [] ∨
    recordedClusterSPIFFEIDName m.status = desiredName r.platform m.key plan

theorem Vacant.lookupName {record : ManagedOutputRecord} (h : Vacant r m plan)
    (hrecord : m.record = record.asRecord) (hcomplete : record.Complete) :
    lookupName record (desiredName r.platform m.key plan) = desiredName r.platform m.key plan := by
  rw [Vacant, recordedName_of_record hrecord] at h
  cases record with
  | unclaimed => rfl
  | pending name claimID => exact h.resolve_left (ne_nil_of_trimSpace hcomplete)
  | confirmed name uid => exact h.resolve_left (ne_nil_of_trimSpace hcomplete.1)

/-- The output of a binding is brought in line, unless its name is taken or its labels are
refused. -/
theorem smoothly_reconcileClusterSPIFFEID (hplan : plan.podSelector.wellFormed = true)
    (hv : Orderly r S v) (hm : Mirrors False v m) (hvacant : Vacant r m plan) :
    Smoothly r S (reconcileClusterSPIFFEID r.platform m plan (r.desiredFor m.key plan)) (fun x v' =>
      (Carried False v m v' x.1 ∧ ∃ status o, x.2 = .ok status ∧
        InPlace r.platform v' x.1 plan (r.desiredFor m.key plan) o status) ∨
      Declined m.key (Taken r v m plan ∨ Barred r m plan) v' x) v := by
  have hforward : Smoothly r S
      (reconcileClusterSPIFFEID r.platform m plan (r.desiredFor m.key plan))
      (fun x v' => (∃ status, x.2 = .ok status) ∨
        Declined m.key (Taken r v m plan ∨ Barred r m plan) v' x) v := by
    have hname : (r.desiredFor m.key plan).name ≠ [] := desiredName_ne_nil r.platform m.key plan
    refine (smoothly_observe hv hm _).bind hv ?_
    rintro a v₁ - ⟨rfl, record, observation, rfl, hrecorded, hcomplete, hobs⟩
    have hlookup : lookupName record (r.desiredFor m.key plan).name =
        desiredName r.platform m.key plan := hvacant.lookupName hrecorded hcomplete
    obtain ⟨hnil, -⟩ | ⟨-, rfl⟩ := hobs
    · rw [hlookup] at hnil
      exact absurd hnil hname
    rw [hlookup]
    have hfound : ∀ o, v₁.objects.get (desiredName r.platform m.key plan) = some o →
        v₁.objects.get o.name = some o := by
      intro o ho
      rw [(Store.get_eq_some.mp ho).2]
      exact ho
    refine (smoothly_authorize hv hm hrecorded hcomplete hfound).bind hv ?_
    rintro ⟨m₁, a⟩ v₂ hv₂ ⟨hcarried, hobjects, hgranted⟩
    cases hgranted with
    | slot hnone hrecord =>
      rw [hnone]
      have hdeclined := hcarried.continues.key
      refine (smoothly_create hv₂ hcarried.mirrors hname (hobjects ▸ hnone) ?_).mono hv₂
        fun _ _ _ h => h.imp_right fun h => hdeclined ▸ h.imp Or.inr
      refine hrecord.imp_left ?_
      rintro ⟨name, claimID, hpending⟩
      cases record with
      | pending name claimID => exact ⟨claimID, rfl⟩
      | unclaimed => cases (Prod.mk.inj (hrecorded.symm.trans hpending)).1
      | confirmed name uid => cases (Prod.mk.inj (hrecorded.symm.trans hpending)).1
    | held hsome =>
      refine (smoothly_update hv₂ (hobjects ▸ hfound _ hsome)).bind hv₂ ?_
      rintro a v₃ - (⟨status, rfl⟩ | ⟨rfl, hlabels, err, rfl, hkind⟩)
      · exact Or.inl ⟨status, rfl⟩
      · exact Or.inr ⟨hcarried.mirrors, hcarried.continues.key, ⟨err, rfl, hkind⟩, Or.inr hlabels⟩
    | foreign hsome hforeign hkind =>
      exact Or.inr ⟨hcarried.mirrors, hcarried.continues.key, ⟨_, rfl, hkind⟩,
        Or.inl ⟨_, hsome, hforeign⟩⟩
  refine (smoothly_goes hv hforward).mono hv ?_
  rintro ⟨m₁, a⟩ v₁ - ⟨⟨status, rfl⟩ | hdeclined, hgoes⟩
  · obtain ⟨hcarried, o, hplace⟩ := Goes.reconcileClusterSPIFFEID hplan hm hvacant hgoes
    exact Or.inl ⟨hcarried, status, o, rfl, hplace⟩
  · exact Or.inr hdeclined

theorem smoothly_reconcileClusterSPIFFEIDs (hplan : plan.podSelector.wellFormed = true)
    (hv : Orderly r S v) (hm : Mirrors False v m) (hvacant : Vacant r m plan) :
    Smoothly r S (reconcileClusterSPIFFEIDs r.platform r.config.clusterSPIFFEIDClassName [plan] m)
      (fun x v' => (Carried False v m v' x.1 ∧ ∃ status o, x.2 = .ok [status] ∧
          InPlace r.platform v' x.1 plan (r.desiredFor m.key plan) o status) ∨
        Declined m.key (Taken r v m plan ∨ Barred r m plan) v' x) v := by
  refine (smoothly_reconcileClusterSPIFFEID hplan hv hm hvacant).bind hv ?_
  rintro ⟨m₁, a⟩ v₁ - (⟨hcarried, status, o, rfl, hplace⟩ | ⟨hm₁, hkey, ⟨err, rfl, hkind⟩, hreason⟩)
  · exact Or.inl ⟨hcarried, status, o, rfl, hplace⟩
  · exact Or.inr ⟨hm₁, hkey, ⟨err, rfl, hkind⟩, hreason⟩

/-- The output under an old name is gone, or on its way out. -/
inductive Renamed (r : Reconciler) (v : World) (m : Binding) (plan : Plan) (v' : World)
    (m' : Binding) : Except GoError Bool → Prop
  | done (hvacant : Vacant r m' plan) (htaken : Taken r v' m' plan → Taken r v m plan) :
      Renamed r v m plan v' m' (.ok false)
  | waiting {o : ClusterSPIFFEID} (hholds : Holds v' m' o) (hterminating : o.terminating = true)
      (hname : o.name ≠ desiredName r.platform m.key plan)
      (hheld : ∃ o₀, Holds v m o₀ ∧ o₀.name = o.name) :
      Renamed r v m plan v' m' (.ok true)

theorem smoothly_cleanupChanged (hv : Orderly r S v) (hm : Mirrors False v m) :
    Smoothly r S (cleanupChangedClusterSPIFFEIDName r.platform m
      (desiredName r.platform m.key plan)) (fun x v' => Carried False v m v' x.1 ∧
        Renamed r v m plan v' x.1 x.2) v := by
  rw [cleanupChangedClusterSPIFFEIDName]
  split_ifs with hsame
  · exact ⟨.refl hm, .done hsame id⟩
  have hold : desiredName r.platform m.key plan ≠ recordedClusterSPIFFEIDName m.status :=
    fun h => hsame (Or.inr h.symm)
  refine (smoothly_cleanupManaged hv hm).bind hv ?_
  rintro ⟨m₁, a⟩ v₁ hv₁ ⟨rfl, hdismissed⟩
  refine (smoothly_listManaged hv₁ hdismissed.carried.mirrors).bind hv₁ ?_
  rintro ⟨m₂, a⟩ v₂ hv₂ ⟨found, rfl, hlisted⟩
  have hcleaned := hdismissed.cleanedUp hlisted
  rcases hcleaned.settles with ⟨rfl, hnone⟩ | ⟨o, rfl, hlives⟩
  · dsimp only
    rw [if_neg (not_not.mpr (recordedName_unrecorded hnone))]
    refine ⟨hcleaned.carried, .done (Or.inl (recordedName_unrecorded hnone)) ?_⟩
    rintro ⟨o, hget, -⟩
    rw [hcleaned.carried.continues.key, hcleaned.elsewhere _ hold] at hget
    refine ⟨o, hget, fun hcovers => hold ?_⟩
    have hname : o.name = desiredName r.platform m.key plan := (Store.get_eq_some.mp hget).2
    have hholds : Holds v m o := ⟨hname ▸ hget, hcovers⟩
    exact hname.symm.trans (hholds.name (hv.readable hm))
  · obtain ⟨⟨o₀, hheld, hsame⟩, hterminating⟩ := hcleaned.remains o hlives.holds
    refine ⟨hcleaned.carried,
      .waiting hlives.holds hterminating (fun h => hold ?_) ⟨o₀, hheld, hsame⟩⟩
    rw [← h, ← hsame, hheld.name (hv.readable hm)]

/-! ## What is published -/

/-- A binding is stored with these conditions. -/
structure Reports (v : World) (key : NamespacedName) (b : Binding)
    (verdicts : ConditionType → Option Verdict) : Prop where
  stored : v.bindings.get key = some b
  verdict : b.status.verdict = verdicts

/-- What is published of a copy: the record of the binding stays what it is. -/
theorem Publishes.final {exact : Prop} {status : Status} (h : Publishes m.key status v v')
    (hm : Mirrors exact v m) : ∃ b, Reports v' m.key b status.verdict ∧ Continues m b ∧
      b.record = m.record ∧ v'.objects = v.objects := by
  obtain ⟨persisted, hget, hrecord, -⟩ := hm
  obtain ⟨stored, final, hstored, hfinal, hcontinues, hstatus⟩ := h.copy
  obtain rfl : stored = { m with status := persisted } := Option.some.inj (hstored.symm.trans hget)
  refine ⟨final, ⟨hfinal, by rw [hstatus]; rfl⟩, ?_, ?_, h.objects⟩
  · rw [Continues] at hcontinues ⊢
    rw [hcontinues]
  · rw [Binding.record, hstatus, Status.record_withRecordOf]
    exact hrecord

theorem Holds.congr {o : ClusterSPIFFEID} (h : Holds v' m' o) (hobjects : v'.objects = v.objects)
    (hrecord : m'.record = m.record) : Holds v m o :=
  ⟨hobjects ▸ h.1, hrecord ▸ h.2⟩

/-- A binding that reports a failure, and whose output is gone or on its way out. -/
structure Failed (v : World) (key : NamespacedName) (b : Binding) (err : StateError) : Prop
    extends Reports v key b (failureVerdicts err.conditionType err.reason err.message) where
  remains : ∀ o, Holds v b o → o.terminating = true

theorem StateError.Reportable.cleans {err : StateError} (h : err.Reportable) :
    shouldCleanupManagedClusterSPIFFEIDs err.conditionType = true ∧ err.conditionType ≠ .ready := by
  obtain ⟨hconflict, hreason⟩ := h
  rcases htype : err.conditionType <;> rw [htype] at hconflict hreason <;>
    simp_all [failureReasons, shouldCleanupManagedClusterSPIFFEIDs]

theorem smoothly_cleanupAfterStateError (hv : Orderly r S v) (hm : Mirrors False v m) :
    Smoothly r S (cleanupAfterStateError r.platform m) (fun x v' => x.2 = .ok () ∧
      Carried False v m v' x.1 ∧ ∀ o, Holds v' x.1 o → o.terminating = true) v := by
  refine (smoothly_cleanupManaged hv hm).bind hv ?_
  rintro ⟨m₁, a⟩ v₁ hv₁ ⟨rfl, hdismissed⟩
  refine (smoothly_listManaged hv₁ hdismissed.carried.mirrors).bind hv₁ ?_
  rintro ⟨m₂, a⟩ v₂ hv₂ ⟨found, rfl, hlisted⟩
  have hcleaned := hdismissed.cleanedUp hlisted
  rcases hcleaned.settles with ⟨rfl, hnone⟩ | ⟨o, rfl, hlives⟩
  · refine (smoothly_clear hv₂ hcleaned.carried.mirrors).mono hv₂ ?_
    rintro ⟨m₃, a⟩ v₃ - ⟨rfl, hcarried, hrecord, -⟩
    exact ⟨rfl, hcleaned.carried.trans hcarried,
      fun o ho => absurd ho (not_holds_unrecorded hrecord)⟩
  · exact ⟨rfl, hcleaned.carried, fun o ho => (hcleaned.remains o ho).2⟩

/-- A state error is published once the output has been asked to go. -/
theorem smoothly_settleStateError {err : StateError} (herr : err.Reportable) (hv : Orderly r S v)
    (hm : Mirrors False v m) :
    Smoothly r S (r.settleStateError m err) (fun a v' =>
      a = .ok ⟨if isInfrastructureNotReadyReason err.reason then infraNotReadyRequeueAfter else 0⟩ ∧
      ∃ b, Failed v' m.key b err) v := by
  have happly : Smoothly r S (applyStateError r.platform m err) (fun x v' => x.2 = .ok () ∧
      ∃ m₁, Carried False v m v' m₁ ∧ (∀ o, Holds v' m₁ o → o.terminating = true) ∧
        x.1 = { m₁ with status := applyFailureStatus m₁.status m₁.generation err }) v := by
    rw [applyStateError, if_pos herr.cleans.1]
    refine (smoothly_cleanupAfterStateError hv hm).bind hv ?_
    rintro ⟨m₁, a⟩ v₁ - ⟨rfl, hcarried, hremains⟩
    exact ⟨rfl, m₁, hcarried, hremains, rfl⟩
  refine happly.bind hv ?_
  rintro ⟨m₁, a⟩ v₁ hv₁ ⟨rfl, m₂, hcarried, hremains, rfl⟩
  let failed : Binding := { m₂ with status := applyFailureStatus m₂.status m₂.generation err }
  refine (smoothly_publishOutcome (m := failed) hv₁ hcarried.mirrors.stored).bind hv₁ ?_
  rintro a v₂ hv₂ ⟨rfl, hpublishes⟩
  obtain ⟨b, hreports, -, hrecord, hobjects⟩ :=
    Publishes.final (m := m₂) hpublishes hcarried.mirrors
  have hkey : m₂.key = m.key := hcarried.continues.key
  have hfailed : Failed v₂ m.key b err := by
    refine ⟨⟨hkey ▸ hreports.stored, hreports.verdict.trans ?_⟩, fun o ho => ?_⟩
    · exact verdict_applyFailureStatus m₂.status m₂.generation err herr.cleans.2
    · exact hremains o (ho.congr hobjects hrecord)
  refine (smoothly_recordEvent _ _ _).bind hv₂ ?_
  rintro ⟨⟩ v₃ - rfl
  split_ifs
  · exact ⟨rfl, b, hfailed⟩
  · exact ⟨rfl, b, hfailed⟩

/-- A binding that is Ready, with its output live and as desired. -/
structure Delivered (r : Reconciler) (v : World) (key : NamespacedName) (b : Binding) (plan : Plan)
    (o : ClusterSPIFFEID) : Prop extends Reports v key b successVerdicts where
  lives : Lives v b o
  name : o.name = desiredName r.platform key plan
  inSync : clusterSPIFFEIDInSync o (r.desiredFor key plan) = true

/-- An error of the reconcile is in the status. -/
def Admits (v : World) (key : NamespacedName) (err : GoError) : Prop :=
  ∃ b, Reports v key b (failureVerdicts .renderFailure .managedOutputApplyFailed
    (newManagedOutputApplyFailedStateError err).message)

theorem Publishes.admits {exact : Prop} {err : GoError} {status : Status} {generation : ℕ}
    (h : Publishes m.key (applyFailureStatus status generation
      (newManagedOutputApplyFailedStateError err)) v v') (hm : Mirrors exact v m) :
    Admits v' m.key err := by
  obtain ⟨b, hreports, -⟩ := h.final hm
  refine ⟨b, hreports.stored, hreports.verdict.trans ?_⟩
  exact verdict_applyFailureStatus status generation _ fun htype => by cases htype

theorem smoothly_applyOutput (hplan : plan.podSelector.wellFormed = true) (hv : Orderly r S v)
    (hm : Mirrors False v m) (hvacant : Vacant r m plan) :
    Smoothly r S (r.applyOutput m plan) (fun a v' =>
      (a = .ok ⟨0⟩ ∧ ∃ b o, Delivered r v' m.key b plan o) ∨
      ∃ err, a = .error err ∧ (Taken r v m plan ∨ Barred r m plan) ∧ Admits v' m.key err) v := by
  refine (smoothly_reconcileClusterSPIFFEIDs hplan hv hm hvacant).bind hv ?_
  rintro ⟨m₁, a⟩ v₁ hv₁ (⟨hcarried, status, o, rfl, hplace⟩ |
    ⟨hm₁, hkey, ⟨err, rfl, hkind⟩, hreason⟩)
  · let succeeded : Binding := { m₁ with
      status := applySuccessStatus m₁.status m₁.generation [plan] [status] }
    refine (smoothly_publishOutcome (m := succeeded) hv₁ hcarried.mirrors.stored).bind hv₁ ?_
    rintro a v₂ hv₂ ⟨rfl, hpublishes⟩
    obtain ⟨b, hreports, -, hrecord, hobjects⟩ :=
      Publishes.final (m := m₁) hpublishes hcarried.mirrors
    have hkey : m₁.key = m.key := hcarried.continues.key
    refine (smoothly_recordEvent _ _ _).bind hv₂ ?_
    rintro ⟨⟩ v₃ - rfl
    refine Or.inl ⟨rfl, b, o, ⟨hkey ▸ hreports.stored, hreports.verdict.trans ?_⟩, ?_, hplace.name,
      hplace.inSync⟩
    · exact verdict_applySuccessStatus _ _ _ _
    · exact ⟨hobjects ▸ hplace.lives.stored, hplace.lives.name, hplace.lives.uid,
        hrecord.trans hplace.lives.record⟩
  · dsimp only
    rw [if_neg hkind]
    refine (smoothly_reportApplyFailure hv₁ hm₁.stored err).mono hv₁ ?_
    rintro a v₂ - ⟨rfl, hpublishes⟩
    exact Or.inr ⟨err, rfl, hreason, hkey ▸ hpublishes.admits hm₁⟩

/-! ## The finalizer -/

theorem smooth_updateFinalizers {finalizers : List GoString} {a : Except GoError Binding}
    (hb : v.bindings.get b.key = some b)
    (h : Smooth r S (.updateBinding { b with finalizers := finalizers }) v a v') :
    a = .ok { b with finalizers := finalizers, resourceVersion := v.revision + 1 } ∧
      v' = v.settleBinding { b with finalizers := finalizers } := by
  obtain ⟨choice, -, -, hfault, hrespond⟩ := h.answer
  rw [respond, hfault] at hrespond
  change v.replaceBinding { b with finalizers := finalizers } = (a, v') at hrespond
  have hreplaced : b.replacedBy { b with finalizers := finalizers } =
      { b with finalizers := finalizers } := by
    simp [Binding.replacedBy]
  rw [World.replaceBinding, hb] at hrespond
  dsimp only at hrespond
  rw [if_neg (by simp), hreplaced] at hrespond
  exact ⟨(Prod.mk.inj hrespond).1.symm, (Prod.mk.inj hrespond).2.symm⟩

/-- The binding has the finalizer now, and is otherwise what it was. -/
structure Guarded (v : World) (b : Binding) (v' : World) (b' : Binding) : Prop
    extends Finalized v b v' b' where
  spec : b'.spec = b.spec
  record : b'.record = b.record
  uid : b'.uid = b.uid
  objects : v'.objects = v.objects

theorem smoothly_ensureFinalizer (hv : Orderly r S v) (hb : v.bindings.get b.key = some b)
    (hpresent : b.deleting = false) :
    Smoothly r S (Reconciler.ensureFinalizer b) (fun a v' => ∃ b', a = .ok b' ∧
      Guarded v b v' b') v := by
  have hok : Smoothly r S (Reconciler.ensureFinalizer b) (fun a v' => ∃ b', a = .ok b' ∧
      b'.spec = b.spec ∧ b'.record = b.record ∧ b'.uid = b.uid ∧ v'.objects = v.objects) v := by
    rw [Reconciler.ensureFinalizer]
    split_ifs with hfinalizer
    · exact ⟨b, rfl, rfl, rfl, rfl, rfl⟩
    · refine alone_perform (c := Call.updateBinding _) fun a v₁ hsmooth _ => ?_
      obtain ⟨rfl, rfl⟩ := smooth_updateFinalizers hb hsmooth
      refine ⟨_, rfl, rfl, rfl, rfl, ?_⟩
      rw [World.settleBinding, if_neg (by simp)]
      rfl
  refine (smoothly_goes hv hok).mono hv ?_
  rintro a v₁ - ⟨⟨b', rfl, hspec, hrecord, huid, hobjects⟩, hgoes⟩
  exact ⟨b', rfl, Goes.ensureFinalizer hb hpresent hgoes, hspec, hrecord, huid, hobjects⟩

/-- A binding that is done with: its finalizer is off, and it claims nothing. -/
structure Released (v : World) (key : NamespacedName) : Prop where
  finalizer : ∀ b, v.bindings.get key = some b → inferenceIdentityBindingFinalizer ∉ b.finalizers
  record : ∀ b, v.bindings.get key = some b → b.record = unrecorded

theorem smoothly_removeFinalizer (hv : Orderly r S v) (hm : Mirrors True v m)
    (hrecord : m.record = unrecorded) :
    Smoothly r S (Reconciler.removeFinalizer m)
      (fun a v' => a = .ok ⟨0⟩ ∧ Released v' m.key) v := by
  rw [Reconciler.removeFinalizer, if_neg (not_not.mpr (recordedName_unrecorded hrecord))]
  refine (alone_perform (c := Call.updateBinding { m with
      finalizers := m.finalizers.filter (· ≠ inferenceIdentityBindingFinalizer) })
    (Q := fun a v' => (∃ updated, a = .ok updated) ∧ Released v' m.key)
    fun a v₂ hsmooth _ => ?_).bind hv ?_
  · obtain ⟨rfl, rfl⟩ := smooth_updateFinalizers hm.current hsmooth
    refine ⟨⟨_, rfl⟩, fun b hb => ?_, fun b hb => ?_⟩
    · rw [get_settleBinding hb]
      simp
    · rw [get_settleBinding hb]
      exact hrecord
  · rintro a v₂ - ⟨⟨updated, rfl⟩, hreleased⟩
    exact ⟨rfl, hreleased⟩

/-- A binding that waits for its output to go away. -/
def Waits (v : World) (key : NamespacedName) : Prop :=
  ∃ b o, v.bindings.get key = some b ∧ Holds v b o ∧ o.terminating = true

/-- The deletion of a binding is finished, or waits for its output. -/
theorem smoothly_reconcileDelete (hv : Orderly r S v) (hb : v.bindings.get b.key = some b)
    (hfinalizer : inferenceIdentityBindingFinalizer ∈ b.finalizers) :
    Smoothly r S (r.reconcileDelete b) (fun a v' => (a = .ok ⟨0⟩ ∧ Released v' b.key) ∨
      (a = .ok ⟨deleteVerificationRequeueAfter⟩ ∧ Waits v' b.key ∧ ∃ o, Holds v b o)) v := by
  rw [Reconciler.reconcileDelete, if_neg (not_not.mpr hfinalizer)]
  refine (smoothly_cleanupManaged hv (mirrors_of_get hb)).bind hv ?_
  rintro ⟨m₁, a⟩ v₁ hv₁ ⟨rfl, hdismissed⟩
  refine (smoothly_listManaged hv₁ hdismissed.carried.mirrors).bind hv₁ ?_
  rintro ⟨m₂, a⟩ v₂ hv₂ ⟨found, rfl, hlisted⟩
  have hcleaned := hdismissed.cleanedUp hlisted
  have hkey : m₂.key = b.key := hcleaned.carried.continues.key
  rcases hcleaned.settles with ⟨rfl, hnone⟩ | ⟨o, rfl, hlives⟩
  · refine (smoothly_removeFinalizer hv₂ hcleaned.carried.mirrors hnone).mono hv₂ ?_
    rintro a v₃ - ⟨rfl, hreleased⟩
    exact Or.inl ⟨rfl, hkey ▸ hreleased⟩
  · obtain ⟨⟨o₀, hheld, -⟩, hterminating⟩ := hcleaned.remains o hlives.holds
    exact Or.inr ⟨rfl, ⟨m₂, o, hkey ▸ hcleaned.carried.mirrors.current, hlives.holds, hterminating⟩,
      o₀, hheld⟩

end Kleym
