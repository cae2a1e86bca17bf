import Kleym.Naming
import Kleym.Trial
import Kleym.Traffic

/-!
# The names in the records

Where records are written by the operator only, every name in a record was rendered for its
binding, and every identifier in it was handed out by somebody who hands out no blanks. So a
record is never one that `managedOutputRecordFromStatus` refuses, whatever happened in the run.
-/

namespace Kleym

open GoString Prog

variable {r : Reconciler} {S : Setting} {P : Platform} {w : World}

/-! ## Rendered names -/

theorem plain_of_labelBytes {s : GoString} (h : ∀ b ∈ s, labelByte b = true) : Plain s := by
  have hspaces : (spaceRunes.all fun p => p.all fun c => !labelByte c) = true := by decide
  intro c hc p hp hcp
  have hlabel := List.all_eq_true.mp (List.all_eq_true.mp hspaces p hp) c hcp
  rw [h c hc] at hlabel
  cases hlabel

/-- A rendered name has the bytes of a label, whatever it is rendered from. -/
theorem labelByte_of_mem_desiredName {key : NamespacedName} {plan : Plan} {b : UInt8}
    (h : b ∈ desiredName P key plan) : labelByte b = true := by
  have hsanitized : ∀ {s : GoString}, b ∈ sanitizeDNSLabel P s → labelByte b = true :=
    fun h => labelByte_of_mem_sanitizeBytes (mem_of_mem_trimByte h)
  have hcut : ∀ {base : GoString} {n : ℕ}, (b ∈ base → labelByte b = true) →
      b ∈ cutBase base n → labelByte b = true := by
    intro base n hbase h
    rw [cutBase] at h
    split_ifs at h
    · exact List.all_eq_true.mp (by decide : (str "kleym").all labelByte = true) b h
    · exact hbase (List.mem_of_mem_take (mem_of_mem_trimByte h))
    · exact hbase h
  have hmode : ∀ c ∈ modeText P plan.identityAnchor.kind, labelByte c = true :=
    (isDNSLabel_iff.mp (isDNSLabel_modeText plan.identityAnchor.kind)).2.2
  have hhash : ∀ c ∈ hashSuffix P plan.spiffeID, labelByte c = true := fun c hc => by
    rw [labelByte, lowerAlphanumeric_of_lowerHex (lowerHex_of_mem_hashSuffix hc), Bool.true_or]
  have hdash : ∀ c ∈ str "-", labelByte c = true :=
    List.all_eq_true.mp (by decide : (str "-").all labelByte = true)
  rw [desiredName, buildClusterSPIFFEIDName_eq] at h
  simp only [List.mem_append] at h
  rcases h with (((h | h) | h) | h) | h
  · exact hcut hsanitized h
  · exact hdash b h
  · exact hmode b h
  · exact hdash b h
  · exact hhash b h

theorem plain_desiredName (P : Platform) (key : NamespacedName) (plan : Plan) :
    Plain (desiredName P key plan) :=
  plain_of_labelBytes fun _ => labelByte_of_mem_desiredName

/-! ## The invariant -/

/-- The names in the record of a binding were rendered for it. -/
structure Binding.WellNamed (P : Platform) (b : Binding) : Prop where
  pending : ∀ pending ∈ b.status.pendingClusterSPIFFEID,
    ∃ plan, pending.name = desiredName P b.key plan
  owned : ∀ owned ∈ b.status.ownedClusterSPIFFEID, ∃ plan, owned.name = desiredName P b.key plan

/-- Only the record and the key matter. -/
theorem Binding.WellNamed.of_record {b b' : Binding} (h : b.WellNamed P)
    (hrecord : b'.record = b.record) (hkey : b'.key = b.key) : b'.WellNamed P := by
  obtain ⟨hpending, howned⟩ := Prod.mk.inj hrecord
  constructor
  · rw [hpending, hkey]
    exact h.pending
  · rw [howned, hkey]
    exact h.owned

/-- What holds of the names, identifiers and labels in a cluster. -/
structure World.WellNamed (P : Platform) (w : World) : Prop where
  bindings : ∀ b ∈ w.bindingVersions, b.WellNamed P
  uids : ∀ o ∈ w.objectVersions, trimSpace o.uid ≠ []
  labels : ∀ o ∈ w.objectVersions, o.ValidLabels
  claims : ∀ e ∈ w.claims, trimSpace e.1 ≠ []

namespace World.WellNamed

theorem initial (P : Platform) (served : List GroupVersionKind) :
    (World.initial served).WellNamed P := by
  constructor <;> simp [World.initial]

theorem saveBinding (h : w.WellNamed P) {b : Binding} (hb : b.WellNamed P) :
    (w.saveBinding b).WellNamed P where
  bindings := List.forall_mem_cons.mpr ⟨hb.of_record rfl rfl, h.bindings⟩
  uids := h.uids
  labels := h.labels
  claims := h.claims

theorem dropBinding (h : w.WellNamed P) (key : NamespacedName) : (w.dropBinding key).WellNamed P :=
  { h with }

theorem settleBinding (h : w.WellNamed P) {b : Binding} (hb : b.WellNamed P) :
    (w.settleBinding b).WellNamed P := by
  rw [World.settleBinding]
  split_ifs
  · exact h.dropBinding b.key
  · exact h.saveBinding hb

theorem saveObject (h : w.WellNamed P) {o : ClusterSPIFFEID} (huid : trimSpace o.uid ≠ [])
    (hlabels : o.ValidLabels) : (w.saveObject o).WellNamed P where
  bindings := h.bindings
  uids := List.forall_mem_cons.mpr ⟨huid, h.uids⟩
  labels := List.forall_mem_cons.mpr ⟨hlabels, h.labels⟩
  claims := h.claims

theorem stored (h : w.WellNamed P) (hhistory : History w) {key : NamespacedName} {b : Binding}
    (hb : w.bindings.get key = some b) : b.WellNamed P :=
  h.bindings b (hhistory.binding_mem b (Store.get_eq_some.mp hb).1)

theorem object (h : w.WellNamed P) (hhistory : History w) {name : GoString} {o : ClusterSPIFFEID}
    (ho : w.objects.get name = some o) : trimSpace o.uid ≠ [] ∧ o.ValidLabels := by
  have hmem := hhistory.object_mem o (Store.get_eq_some.mp ho).1
  exact ⟨h.uids o hmem, h.labels o hmem⟩

/-- An ownership patch: what is reserved was rendered, what is confirmed was reserved. -/
theorem ownershipPatch (h : w.WellNamed r.platform) (hinv : Inv S w) {log : Log}
    {scope : Scope} {base stored : Binding} {status : Status}
    (hstored : w.bindings.get base.key = some stored)
    (hversion : stored.resourceVersion = base.resourceVersion) (hbased : Based S w base)
    (htransfer : Transfer S log w base status)
    (hconfined : Confined r scope (.patchBindingStatus .ownership base status)) :
    (w.saveBinding (stored.patchedBy base status)).WellNamed r.platform := by
  obtain ⟨-, hsame, -⟩ := hbased.stored_eq hinv.history hstored hversion
  have hkey : stored.key = base.key := (Store.get_eq_some.mp hstored).2
  have hrecord : (stored.patchedBy base status).record = status.record :=
    record_mergeStatus status hsame
  obtain ⟨hpending, howned⟩ := Prod.mk.inj hrecord
  refine h.saveBinding ⟨?_, ?_⟩
  · rw [hpending]
    change ∀ pending ∈ status.pendingClusterSPIFFEID,
      ∃ plan, pending.name = desiredName r.platform stored.key plan
    rw [hkey]
    exact hconfined.2 rfl
  · rw [howned]
    cases htransfer with
    | reserve =>
      intro owned hmem
      cases hmem
    | clear =>
      intro owned hmem
      cases hmem
    | @confirm pending uid hpend =>
      intro owned hmem
      obtain rfl := Option.some.inj hmem
      have hmine : stored.status.pendingClusterSPIFFEID = some pending :=
        (Prod.mk.inj (hsame.trans hpend)).1
      exact (h.stored hinv.history hstored).pending pending hmine

theorem ordinaryPatch (h : w.WellNamed P) (hinv : Inv S w) {log : Log} {base stored : Binding}
    {status : Status} (hstored : w.bindings.get base.key = some stored)
    (hversion : stored.resourceVersion = base.resourceVersion)
    (hpatch : OrdinaryPatch r S log w base status) :
    (w.saveBinding (stored.patchedBy base status)).WellNamed P := by
  have hmem := hinv.history.binding_mem stored (Store.get_eq_some.mp hstored).1
  obtain rfl := hinv.history.binding_inj stored hmem base hpatch.base_mem hversion
  refine h.saveBinding ((h.bindings stored hmem).of_record ?_ rfl)
  exact (record_mergeStatus status rfl).trans hpatch.record

/-- A call within its contract and its bounds keeps the names. -/
theorem respond (h : w.WellNamed r.platform) (hinv : Inv S w) {log : Log} {scope : Scope}
    {c : Call} {choice : Choice} (hguard : Guard r S log w c) (hconfined : Confined r scope c)
    (hfresh : w.Fresh choice.fresh) : (Kleym.respond choice c w).2.WellNamed r.platform := by
  have heffect := respond_effect choice c w
  generalize (Kleym.respond choice c w).2 = w' at heffect ⊢
  cases heffect with
  | none => exact h
  | updateBinding hstored =>
    exact h.settleBinding ((h.stored hinv.history hstored).of_record rfl rfl)
  | @patchBindingStatus kind base stored status _ _ hstored hversion hadmitted =>
    cases kind with
    | ownership => exact h.ownershipPatch hinv hstored hversion hguard.1 hguard.2 hconfined
    | ordinary => exact h.ordinaryPatch hinv hstored hversion hguard
  | @create owner _ object _ habsent hlabels =>
    exact { h.saveObject (o := object.createdAs choice.fresh) hfresh.1 hlabels with }
  | updateObject hstored hversion huid hlabels =>
    obtain ⟨hnamed, -⟩ := h.object hinv.history hstored
    rw [huid] at hnamed
    exact h.saveObject hnamed hlabels
  | terminate hstored huid =>
    obtain ⟨hnamed, hlabels⟩ := h.object hinv.history hstored
    exact h.saveObject hnamed hlabels
  | remove hstored huid => exact { h with }
  | issue => exact { h with claims := List.forall_mem_cons.mpr ⟨hfresh.1, h.claims⟩ }

/-- Where others do not write records, they keep the names too. -/
theorem user (h : w.WellNamed P) (hS : S.Honest) (hhistory : History w) {op : UserOp}
    (hop : op.Permitted S w) : (op.apply w).WellNamed P := by
  cases op with
  | createBinding key uid finalizers spec =>
    have hnew : Binding.WellNamed P ⟨key, uid, 0, 1, false, finalizers, spec, {}⟩ := by
      constructor <;> intro _ hmem <;> cases hmem
    exact { h.saveBinding hnew with }
  | editBinding key spec =>
    rw [UserOp.apply]
    split
    · exact h
    · rename_i b hb
      have hnamed := h.stored hhistory hb
      exact h.saveBinding (hnamed.of_record rfl rfl)
  | deleteBinding key =>
    rw [UserOp.apply]
    split
    · exact h
    · rename_i b hb
      have hnamed := h.stored hhistory hb
      exact h.settleBinding (hnamed.of_record rfl rfl)
  | writeBinding key finalizers status =>
    have hforgery := hop.1
    rw [hS] at hforgery
    cases hforgery
  | createObject uid object =>
    exact { h.saveObject (o := object.createdAs uid) hop.2.1.1 hop.2.2.2 with }
  | modifyObject object =>
    rw [UserOp.apply]
    split
    · exact h
    · rename_i stored hstored
      obtain ⟨hnamed, -⟩ := h.object hhistory hstored
      exact { h.saveObject (o := { stored.replacedBy object with uid := stored.uid }) hnamed
        hop.1 with }
  | terminateObject name =>
    rw [UserOp.apply]
    split
    · exact h
    · rename_i stored hstored
      obtain ⟨hnamed, hlabels⟩ := h.object hhistory hstored
      exact h.saveObject hnamed hlabels
  | _ => exact { h with }

end World.WellNamed

/-! ## Runs -/

/-- In every state of every run without forged records the names are in order, and every
reconcile under way stays in a namespace. -/
theorem Reachable.confined {s : SystemState} (hS : S.Honest) (h : Reachable r S s) :
    s.world.WellNamed r.platform ∧
      ∀ t ∈ s.threads, ∃ namespace_, Stays r (.whole namespace_) (fun _ => True) t.prog := by
  induction h with
  | refl => exact ⟨.initial r.platform [], nofun⟩
  | tail hs hstep ih =>
    obtain ⟨hnamed, hthreads⟩ := ih
    cases hstep with
    | user op hop => exact ⟨hnamed.user hS (Reachable.inv hs).history hop, hthreads⟩
    | start key =>
      exact ⟨hnamed, List.forall_mem_cons.mpr ⟨⟨key.namespace_, stays_whole r key⟩, hthreads⟩⟩
    | answer choice hchoice =>
      rename_i w before after c k log
      obtain ⟨namespace_, hcall⟩ := hthreads ⟨.call c k, log⟩ (by simp)
      have hguard : Guard r S log w c :=
        Reachable.guarded hs (k := k) (List.mem_append_right _ List.mem_cons_self)
      refine ⟨hnamed.respond (Reachable.inv hs) hguard hcall.1 hchoice.fresh, fun t ht => ?_⟩
      rcases List.mem_append.mp ht with ht | ht
      · exact hthreads t (List.mem_append_left _ ht)
      rcases List.mem_cons.mp ht with rfl | ht
      · exact ⟨namespace_, hcall.2 _ (truthful_whole namespace_ choice c w)⟩
      · exact hthreads t (List.mem_append_right _ (List.mem_cons_of_mem _ ht))
    | stop =>
      refine ⟨hnamed, fun t ht => hthreads t ?_⟩
      rcases List.mem_append.mp ht with ht | ht <;> simp [ht]

/-! ## Complete records -/

/-- The record of a binding is one that `managedOutputRecordFromStatus` reads. -/
def Binding.Readable (b : Binding) : Prop :=
  ∃ record, managedOutputRecordFromStatus b.status = .ok record

theorem World.WellNamed.readable (h : w.WellNamed P) (hS : S.Honest) (hinv : Inv S w) {b : Binding}
    (hb : b ∈ w.bindingVersions) : b.Readable := by
  have hnamed := h.bindings b hb
  obtain ⟨hone, -, huid⟩ := hinv.history.admitted b hb
  have hpending := (hinv.authentic hS).pending b hb
  rw [Binding.Readable, managedOutputRecordFromStatus]
  rcases hp : b.status.pendingClusterSPIFFEID with _ | pending <;>
    rcases ho : b.status.ownedClusterSPIFFEID with _ | owned
  · exact ⟨.unclaimed, rfl⟩
  · obtain ⟨plan, hname⟩ := hnamed.owned owned ho
    have hblank : trimSpace owned.name ≠ [] := by
      rw [hname, (plain_desiredName P b.key plan).trimSpace]
      exact desiredName_ne_nil P b.key plan
    exact ⟨_, if_neg (not_or.mpr ⟨hblank, (huid owned ho).2⟩)⟩
  · obtain ⟨plan, hname⟩ := hnamed.pending pending hp
    have hblank : trimSpace pending.name ≠ [] := by
      rw [hname, (plain_desiredName P b.key plan).trimSpace]
      exact desiredName_ne_nil P b.key plan
    exact ⟨_, if_neg (not_or.mpr ⟨hblank, h.claims _ (hpending pending hp)⟩)⟩
  · exact absurd ⟨by rw [hp]; rfl, by rw [ho]; rfl⟩ hone

end Kleym
