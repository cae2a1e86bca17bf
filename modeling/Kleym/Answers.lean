import Kleym.Operator

/-!
# What an answer tells

One lemma for each call: what a reconcile knows of the cluster once it has the answer.
-/

namespace Kleym

open GoString

variable {r : Reconciler} {S : Setting} {s s' : Scene}

/-- The past of the cluster only grows over a call. -/
theorem Answered.grows {c : Call} {a : Answer c} (h : Answered S c s a s') :
    Grows s.world s'.world := by
  obtain ⟨choice, -, hrespond⟩ := h.choice
  have hgrows := grows_respond choice c s.world
  rwa [hrespond] at hgrows

/-- What a call does, whatever its answer says. -/
theorem Answered.effect {c : Call} {a : Answer c} (h : Answered S c s a s') :
    ∃ fresh, s.world.Fresh fresh ∧ Effect c s.world fresh s'.world := by
  obtain ⟨choice, hadmissible, hrespond⟩ := h.choice
  have heffect := respond_effect choice c s.world
  rw [hrespond] at heffect
  exact ⟨choice.fresh, hadmissible.fresh, heffect⟩

/-- The answer is in the log. -/
theorem Answered.mem_log {c : Call} {a : Answer c} (h : Answered S c s a s') :
    ⟨c, a⟩ ∈ s'.log := by
  rw [h.log]
  exact List.mem_append_right _ List.mem_cons_self

theorem Answered.log_subset {c : Call} {a : Answer c} (h : Answered S c s a s') :
    s.log ⊆ s'.log := by
  rw [h.log]
  exact List.subset_append_left _ _

/-- The operator's calls for one binding are calm, and spare all others. -/
theorem Answered.calm {c : Call} {a : Answer c} (h : Answered S c s a s') (hinv : Inv S s.world)
    (hguard : Guard r S s.log s.world c) {owner : GoString} (hcall : CallFor owner c) :
    Calm S s.world s'.world ∧ ∀ u, u ≠ owner → Spares S u s.world s'.world := by
  obtain ⟨choice, -, hrespond⟩ := h.choice
  have hcalm := fun u => @calm_respond r S s.log s.world u hinv c choice owner hguard hcall
  rw [hrespond] at hcalm
  exact ⟨(hcalm owner).1, fun u => (hcalm u).2⟩

/-! ## Reads -/

theorem Answered.getBinding {key : NamespacedName} {a : Except GoError Binding}
    (h : Answered S (.getBinding key) s a s') (hinv : Inv S s.world) :
    s'.world = s.world ∧ ∀ m, a = .ok m → m.key = key ∧ m ∈ s.world.bindingVersions ∧
      (S.Tidy → m ∈ s.world.bindings.entries) := by
  obtain ⟨choice, hadmissible, hrespond⟩ := h.choice
  obtain ⟨hworld, ha⟩ := Fault.strike_read hrespond
  refine ⟨hworld, ?_⟩
  rintro m rfl
  rcases ha with ha | ⟨err, -, ha⟩
  · obtain ⟨hkey, hmem, hcurrent⟩ := World.readBinding_ok ha.symm
    exact ⟨hkey, hmem.elim (hinv.history.binding_mem m) id,
      fun ht => hcurrent (hadmissible.current ht.2.1)⟩
  · cases ha

theorem Answered.listBindings {reader : NamespacedName} {namespace_ : GoString}
    {a : Except GoError (List Binding)} (h : Answered S (.listBindings reader namespace_) s a s')
    (hinv : Inv S s.world) :
    s'.world = s.world ∧ S.listing reader s.world = true ∧ ∀ items, a = .ok items →
      (∀ p ∈ items, p.key.namespace_ = namespace_ ∧ p ∈ s.world.bindingVersions) ∧
      (S.Tidy → items.Perm (s.world.bindings.entries.filter fun b =>
        b.key.namespace_ = namespace_)) := by
  obtain ⟨choice, hadmissible, hrespond⟩ := h.choice
  obtain ⟨hworld, ha⟩ := Fault.strike_read hrespond
  refine ⟨hworld, hadmissible.listing reader rfl, ?_⟩
  rintro items rfl
  rcases ha with ha | ⟨err, -, ha⟩
  · cases ha
    refine ⟨fun p hp => ?_, fun ht => ?_⟩
    · obtain ⟨hns, hmem⟩ := World.mem_readBindings choice.order.2 hp
      exact ⟨hns, hmem.elim (hinv.history.binding_mem p) id⟩
    · rw [hadmissible.current ht.2.1]
      exact World.readBindings_current choice.order.2 namespace_
  · cases ha

theorem Answered.getPool {gvk : GroupVersionKind} {key : NamespacedName}
    {a : Except GoError InferencePool} (h : Answered S (.getPool gvk key) s a s') :
    s'.world = s.world ∧ PoolAnswered gvk key a ∧
      ∀ pool, a = .ok pool → pool ∈ s.world.pools.entries := by
  obtain ⟨choice, hadmissible, hrespond⟩ := h.choice
  obtain ⟨hworld, ha⟩ := Fault.strike_read hrespond
  refine ⟨hworld, ?_⟩
  rcases ha with rfl | ⟨err, herr, rfl⟩
  · exact ⟨s.world.readPool_answered gvk key, fun _ => World.mem_pools_of_readPool⟩
  · exact ⟨hadmissible.plain err herr, by rintro _ ⟨⟩⟩

theorem Answered.getClusterSPIFFEID {name : GoString} {a : Except GoError ClusterSPIFFEID}
    (h : Answered S (.getClusterSPIFFEID name) s a s') (hinv : Inv S s.world) :
    s'.world = s.world ∧
    (∀ o, a = .ok o → o.name = name ∧ o ∈ s.world.objectVersions ∧
      (S.Tidy → o ∈ s.world.objects.entries)) ∧
    ∀ err, a = .error err → err.kind = .notFound → S.Tidy →
      ∀ o ∈ s.world.objects.entries, o.name ≠ name := by
  obtain ⟨choice, hadmissible, hrespond⟩ := h.choice
  obtain ⟨hworld, ha⟩ := Fault.strike_read hrespond
  refine ⟨hworld, ?_, ?_⟩
  · rintro o rfl
    rcases ha with ha | ⟨err, -, ha⟩
    · obtain ⟨hname, hmem, hcurrent⟩ := World.readObject_ok ha.symm
      exact ⟨hname, hmem.elim (hinv.history.object_mem o) id,
        fun ht => hcurrent (hadmissible.current ht.2.1)⟩
    · cases ha
  · rintro err rfl hkind ht
    rcases ha with ha | ⟨err', herr, ha⟩
    · rw [hadmissible.current ht.2.1] at ha
      exact World.readObject_error ha.symm
    · cases ha
      exact absurd hkind (hadmissible.truthful ht.2.1 rfl err herr)

/-! ## Writes -/

theorem Answered.patchBindingStatus {kind : PatchKind} {base target : Binding} {status : Status}
    (h : Answered S (.patchBindingStatus kind base status) s
      (.ok target : Except GoError Binding) s') :
    ∃ stored, s.world.bindings.get base.key = some stored ∧
      stored.resourceVersion = base.resourceVersion ∧
      target = { stored.patchedBy base status with resourceVersion := s.world.revision + 1 } ∧
      s'.world = s.world.saveBinding (stored.patchedBy base status) := by
  obtain ⟨choice, -, hrespond⟩ := h.choice
  have hserved := Fault.strike_ok hrespond
  rcases s.world.patchStatusOf_cases base status with ⟨err, hcase⟩ | ⟨stored, h₁, h₂, -, hcase⟩
  · cases hcase.symm.trans hserved
  · have heq := hcase.symm.trans hserved
    rw [Prod.mk.injEq, Except.ok.injEq] at heq
    exact ⟨stored, h₁, h₂, heq.1.symm, heq.2.symm⟩

theorem Answered.updateBinding {b target : Binding}
    (h : Answered S (.updateBinding b) s (.ok target : Except GoError Binding) s') :
    ∃ stored, s.world.bindings.get b.key = some stored ∧
      stored.resourceVersion = b.resourceVersion ∧ stored.uid = b.uid ∧
      target = { stored.replacedBy b with resourceVersion := s.world.revision + 1 } ∧
      s'.world = s.world.settleBinding (stored.replacedBy b) := by
  obtain ⟨choice, -, hrespond⟩ := h.choice
  have hserved := Fault.strike_ok hrespond
  rcases s.world.replaceBinding_cases b with ⟨err, hcase⟩ | ⟨stored, h₁, h₂, h₃, hcase⟩
  · cases hcase.symm.trans hserved
  · have heq := hcase.symm.trans hserved
    rw [Prod.mk.injEq, Except.ok.injEq] at heq
    exact ⟨stored, h₁, h₂, h₃, heq.1.symm, heq.2.symm⟩

theorem Answered.createClusterSPIFFEID {owner : GoString} {object created : ClusterSPIFFEID}
    (h : Answered S (.createClusterSPIFFEID owner object) s
      (.ok created : Except GoError ClusterSPIFFEID) s') :
    ∃ fresh, s.world.Fresh fresh ∧ s.world.objects.get object.name = none ∧
      created = { object.createdAs fresh with resourceVersion := s.world.revision + 1 } ∧
      s'.world = (s.world.credit fresh owner).saveObject (object.createdAs fresh) := by
  obtain ⟨choice, hadmissible, hrespond⟩ := h.choice
  have hserved := Fault.strike_ok hrespond
  rcases s.world.createObject_cases choice.fresh owner object with ⟨err, hcase⟩ | ⟨h₁, -, hcase⟩
  · cases hcase.symm.trans hserved
  · have heq := hcase.symm.trans hserved
    rw [Prod.mk.injEq, Except.ok.injEq] at heq
    exact ⟨choice.fresh, hadmissible.fresh, h₁, heq.1.symm, heq.2.symm⟩

theorem Answered.updateClusterSPIFFEID {owner : GoString} {object updated : ClusterSPIFFEID}
    (h : Answered S (.updateClusterSPIFFEID owner object) s
      (.ok updated : Except GoError ClusterSPIFFEID) s') :
    ∃ stored, s.world.objects.get object.name = some stored ∧
      updated = { stored.replacedBy object with resourceVersion := s.world.revision + 1 } := by
  obtain ⟨choice, -, hrespond⟩ := h.choice
  have hserved := Fault.strike_ok hrespond
  rcases s.world.replaceObject_cases object with ⟨err, hcase⟩ | ⟨stored, h₁, -, -, -, hcase⟩
  · cases hcase.symm.trans hserved
  · have heq := hcase.symm.trans hserved
    rw [Prod.mk.injEq, Except.ok.injEq] at heq
    exact ⟨stored, h₁, heq.1.symm⟩

theorem Answered.newUUID {owner claim : GoString} (h : Answered S (.newUUID owner) s claim s') :
    s'.world = s.world.issueClaim claim owner ∧ s.world.Fresh claim := by
  obtain ⟨choice, hadmissible, hrespond⟩ := h.choice
  have heq := Prod.mk.inj hrespond
  rw [← heq.1, ← heq.2]
  exact ⟨rfl, hadmissible.fresh⟩

end Kleym
