import Kleym.Isolation
import Kleym.Ownership

/-!
# Reconciles that nobody disturbs

A reconcile that runs on its own, with reads that say what is there: what one of the
functions of `Controller` has done to the cluster when it returns without an error. A
write may still fail, with or without having taken effect.

The copy of a binding that such a function works on mirrors the stored binding all along:
it has the same version and the same record, and while nobody has changed its status in
memory it is the stored binding. Each result below says how the copy that comes back
mirrors what is stored then, and what the function has seen.
-/

namespace Kleym

open GoString Prog

/-! ## The calls -/

/-- A call that only asks for something. -/
def Call.isRead : Call → Bool
  | .getBinding _ => true
  | .listBindings _ _ => true
  | .getPool _ _ => true
  | .getClusterSPIFFEID _ => true
  | _ => false

/-- A create, an update, a delete or a patch. -/
def Call.isWrite : Call → Bool
  | .updateBinding _ => true
  | .patchBindingStatus _ _ _ => true
  | .createClusterSPIFFEID _ _ => true
  | .updateClusterSPIFFEID _ _ => true
  | .deleteClusterSPIFFEID _ _ _ => true
  | _ => false

/-- A choice under which reads say what is there. -/
def Choice.Faithful (choice : Choice) (c : Call) : Prop :=
  choice.reading = .current ∧ (c.isRead = true → choice.fault = .none)

/-- A call is answered under a faithful choice. -/
def Served (c : Call) (v : World) (a : Answer c) (v' : World) : Prop :=
  ∃ choice : Choice, choice.Faithful c ∧ respond choice c v = (a, v')

/-- Besides, the invariant holds afterwards, and what is done for one binding leaves the
outputs of the others alone. -/
structure Kept (S : Setting) (c : Call) (v : World) (a : Answer c) (v' : World) : Prop where
  served : Served c v a v'
  inv : Inv S v'
  others : ∀ owner o, c.mutatesFor ≠ some owner → v.Output owner o → v'.Output owner o

/-- An undisturbed run of a piece of the operator's code. -/
abbrev Goes (S : Setting) {α : Type} : Op α → World → α → World → Prop := Leads (Kept S)

variable {S : Setting} {v v' v'' : World} {m m' m'' : Binding} {P : Platform}

/-! ## What a call returns -/

theorem Served.effect {c : Call} {a : Answer c} (h : Served c v a v') :
    ∃ fresh, Effect c v fresh v' := by
  obtain ⟨choice, -, hrespond⟩ := h
  have heffect := respond_effect choice c v
  rw [hrespond] at heffect
  exact ⟨choice.fresh, heffect⟩

theorem Served.getBinding {key : NamespacedName} {a : Except GoError Binding}
    (h : Served (.getBinding key) v a v') : v' = v ∧ a = v.readBinding .current key := by
  obtain ⟨choice, ⟨hreading, hfault⟩, hrespond⟩ := h
  rw [respond, hreading, hfault rfl] at hrespond
  cases hrespond
  exact ⟨rfl, rfl⟩

theorem Served.listBindings {reader : NamespacedName} {namespace_ : GoString}
    {a : Except GoError (List Binding)} (h : Served (.listBindings reader namespace_) v a v') :
    v' = v ∧ ∃ items, a = .ok items ∧
      items.Perm (v.bindings.entries.filter fun b => b.key.namespace_ = namespace_) := by
  obtain ⟨choice, ⟨hreading, hfault⟩, hrespond⟩ := h
  rw [respond, hreading, hfault rfl] at hrespond
  cases hrespond
  exact ⟨rfl, _, rfl, World.readBindings_current choice.order.2 namespace_⟩

theorem Served.getPool {gvk : GroupVersionKind} {key : NamespacedName}
    {a : Except GoError InferencePool} (h : Served (.getPool gvk key) v a v') :
    v' = v ∧ a = v.readPool gvk key := by
  obtain ⟨choice, ⟨-, hfault⟩, hrespond⟩ := h
  rw [respond, hfault rfl] at hrespond
  cases hrespond
  exact ⟨rfl, rfl⟩

theorem Served.getClusterSPIFFEID {name : GoString} {a : Except GoError ClusterSPIFFEID}
    (h : Served (.getClusterSPIFFEID name) v a v') : v' = v ∧ a = v.readObject .current name := by
  obtain ⟨choice, ⟨hreading, hfault⟩, hrespond⟩ := h
  rw [respond, hreading, hfault rfl] at hrespond
  cases hrespond
  exact ⟨rfl, rfl⟩

theorem Served.recordTerminalOutcome {status : Status}
    (h : Served (.recordTerminalOutcome status) v () v') : v' = v := by
  obtain ⟨choice, -, hrespond⟩ := h
  cases hrespond
  rfl

theorem Served.recordEvent {warning : Bool} {reason : Reason} {message : GoString}
    (h : Served (.recordEvent warning reason message) v () v') : v' = v := by
  obtain ⟨choice, -, hrespond⟩ := h
  cases hrespond
  rfl

/-- What is served to one call of a run. -/
theorem Goes.served {c : Call} {a : Answer c} (h : Goes S (perform c) v a v') : Served c v a v' :=
  (leads_perform.mp h).served

/-- A patch that is answered with success has taken effect. -/
theorem Goes.patchBindingStatus {kind : PatchKind} {base target : Binding} {status : Status}
    (h : Goes S (Kleym.patchBindingStatus kind base status) v (.ok target) v') :
    ∃ stored, v.bindings.get base.key = some stored ∧
      stored.resourceVersion = base.resourceVersion ∧
      target = { stored.patchedBy base status with resourceVersion := v.revision + 1 } ∧
      v' = v.saveBinding (stored.patchedBy base status) := by
  obtain ⟨choice, -, hrespond⟩ := Goes.served h
  have hpatched : v.patchStatusOf base status = (.ok target, v') := Fault.strike_ok hrespond
  rcases v.patchStatusOf_cases base status with ⟨err, herr⟩ | ⟨stored, hget, hversion, -, hok⟩
  · rw [herr] at hpatched
    cases hpatched
  · rw [hok] at hpatched
    cases hpatched
    exact ⟨stored, hget, hversion, rfl, rfl⟩

/-- An update of a binding that is answered with success has taken effect. -/
theorem Goes.updateBinding {b updated : Binding}
    (h : Goes S (Kleym.updateBinding b) v (.ok updated) v') :
    ∃ stored, v.bindings.get b.key = some stored ∧
      updated = { stored.replacedBy b with resourceVersion := v.revision + 1 } ∧
      v' = v.settleBinding (stored.replacedBy b) := by
  obtain ⟨choice, -, hrespond⟩ := Goes.served h
  have hreplaced : v.replaceBinding b = (.ok updated, v') := Fault.strike_ok hrespond
  rcases v.replaceBinding_cases b with ⟨err, herr⟩ | ⟨stored, hget, -, -, hok⟩
  · rw [herr] at hreplaced
    cases hreplaced
  · rw [hok] at hreplaced
    cases hreplaced
    exact ⟨stored, hget, rfl, rfl⟩

/-- A create that is answered with success has taken effect. -/
theorem Goes.createClusterSPIFFEID {owner : GoString} {object created : ClusterSPIFFEID}
    (h : Goes S (Kleym.createClusterSPIFFEID owner object) v (.ok created) v') :
    ∃ uid, created = { object.createdAs uid with resourceVersion := v.revision + 1 } ∧
      v'.objects = v.objects.put created ∧ v'.bindings = v.bindings ∧ v'.poolView = v.poolView := by
  obtain ⟨choice, -, hrespond⟩ := Goes.served h
  have hcreated : v.createObject choice.fresh owner object = (.ok created, v') :=
    Fault.strike_ok hrespond
  rcases v.createObject_cases choice.fresh owner object with ⟨err, herr⟩ | ⟨-, -, hok⟩
  · rw [herr] at hcreated
    cases hcreated
  · rw [hok] at hcreated
    cases hcreated
    exact ⟨choice.fresh, rfl, rfl, rfl, rfl⟩

/-- So has an update of an object. -/
theorem Goes.updateClusterSPIFFEID {owner : GoString} {object updated : ClusterSPIFFEID}
    (h : Goes S (Kleym.updateClusterSPIFFEID owner object) v (.ok updated) v') :
    ∃ stored : ClusterSPIFFEID,
      updated = { stored.replacedBy object with resourceVersion := v.revision + 1 } ∧
      v'.objects = v.objects.put updated ∧ v'.bindings = v.bindings ∧ v'.poolView = v.poolView := by
  obtain ⟨choice, -, hrespond⟩ := Goes.served h
  have hreplaced : v.replaceObject object = (.ok updated, v') := Fault.strike_ok hrespond
  rcases v.replaceObject_cases object with ⟨err, herr⟩ | ⟨stored, -, -, -, -, hok⟩
  · rw [herr] at hreplaced
    cases hreplaced
  · rw [hok] at hreplaced
    cases hreplaced
    exact ⟨stored, rfl, rfl, rfl, rfl⟩

theorem Goes.newUUID {owner claim : GoString} (h : Goes S (Kleym.newUUID owner) v claim v') :
    v'.bindings = v.bindings ∧ v'.objects = v.objects ∧ v'.poolView = v.poolView := by
  obtain ⟨choice, -, hrespond⟩ := Goes.served h
  cases hrespond
  exact ⟨rfl, rfl, rfl⟩

/-! ## Copies that mirror what is stored -/

/-- A copy of the stored binding: only the status may differ, and the record does not. An
exact copy is the stored binding. -/
def Mirrors (exact : Prop) (v : World) (m : Binding) : Prop :=
  ∃ status : Status, v.bindings.get m.key = some { m with status := status } ∧
    status.record = m.record ∧ (exact → status = m.status)

/-- Nothing has changed besides the objects and the binding under a key. -/
structure Beside (key : NamespacedName) (v v' : World) : Prop where
  poolView : v'.poolView = v.poolView
  others : ∀ k, k ≠ key → v'.bindings.get k = v.bindings.get k

theorem Beside.refl (key : NamespacedName) (v : World) : Beside key v v :=
  ⟨rfl, fun _ _ => rfl⟩

theorem Beside.trans {key : NamespacedName} (h : Beside key v v') (h' : Beside key v' v'') :
    Beside key v v'' :=
  ⟨h'.poolView.trans h.poolView, fun k hk => (h'.others k hk).trans (h.others k hk)⟩

/-- Everybody but the binding with this UID keeps the outputs it had. -/
def OthersKeep (u : GoString) (v v' : World) : Prop :=
  ∀ owner o, owner ≠ u → v.Output owner o → v'.Output owner o

theorem OthersKeep.trans {u : GoString} (h : OthersKeep u v v') (h' : OthersKeep u v' v'') :
    OthersKeep u v v'' :=
  fun owner o hne ho => h' owner o hne (h owner o hne ho)

/-- The operator's configuration in a status. -/
def Status.config (status : Status) : GoString × GoString :=
  (status.trustDomain, status.clusterSPIFFEIDClassName)

/-- What a function that works on the copy `m` does: it returns a later copy, which
mirrors what is stored then, and leaves other bindings alone. -/
structure Carried (exact : Prop) (v : World) (m : Binding) (v' : World) (m' : Binding) : Prop where
  mirrors : Mirrors exact v' m'
  continues : Continues m m'
  config : m'.status.config = m.status.config
  beside : Beside m.key v v'
  others : OthersKeep m.uid v v'

theorem Carried.refl {exact : Prop} (h : Mirrors exact v m) : Carried exact v m v m :=
  ⟨h, .refl m, rfl, .refl m.key v, fun _ _ _ ho => ho⟩

theorem Carried.trans {exact : Prop} (h : Carried exact v m v' m')
    (h' : Carried exact v' m' v'' m'') : Carried exact v m v'' m'' :=
  ⟨h'.mirrors, h.continues.trans h'.continues, h'.config.trans h.config,
    h.beside.trans (h.continues.key ▸ h'.beside), h.others.trans (h.continues.uid ▸ h'.others)⟩

/-- Changes to the objects do not touch copies. -/
theorem Carried.objects {exact : Prop} (h : Carried exact v m v' m')
    (hbindings : v''.bindings = v'.bindings) (hpools : v''.poolView = v'.poolView)
    (hothers : OthersKeep m.uid v' v'') : Carried exact v m v'' m' := by
  refine ⟨?_, h.continues, h.config, h.beside.trans ⟨hpools, fun k _ => by rw [hbindings]⟩,
    h.others.trans hothers⟩
  obtain ⟨status, hget, hcopy⟩ := h.mirrors
  exact ⟨status, by rw [hbindings, hget], hcopy⟩

theorem Mirrors.current (h : Mirrors True v m) : v.bindings.get m.key = some m := by
  obtain ⟨status, hget, -, hstatus⟩ := h
  rw [hget, hstatus trivial]

theorem mirrors_of_get (h : v.bindings.get m.key = some m) : Mirrors True v m :=
  ⟨m.status, h, rfl, fun _ => rfl⟩

/-- A copy whose status is changed in memory, without its record. -/
theorem Mirrors.withStatus {exact : Prop} (h : Mirrors exact v m) {status : Status}
    (hrecord : status.record = m.record) : Mirrors False v { m with status := status } := by
  obtain ⟨persisted, hget, hsame, -⟩ := h
  exact ⟨persisted, hget, hsame.trans hrecord.symm, False.elim⟩

theorem beside_saveBinding {key : NamespacedName} {b : Binding} (hb : b.key = key) :
    Beside key v (v.saveBinding b) := by
  refine ⟨rfl, fun k hk => ?_⟩
  refine Store.get_put.trans (if_neg fun h => hk ?_)
  exact h.symm.trans hb

theorem get_saveBinding (v : World) (b : Binding) :
    (v.saveBinding b).bindings.get b.key = some { b with resourceVersion := v.revision + 1 } :=
  Store.get_put.trans (if_pos rfl)

/-- An ownership patch that succeeds. -/
theorem Goes.patchOwnershipStatus {exact : Prop} {status : Status} (hm : Mirrors exact v m)
    (hconfig : status.config = m.status.config)
    (h : Goes S (Kleym.patchOwnershipStatus m status) v (m', .ok ()) v') :
    Carried exact v m v' m' ∧ m'.status = status ∧ v'.objects = v.objects := by
  obtain ⟨err | target, v₁, hpatch, hrest⟩ := leads_bind.mp h
  · cases hrest.1
  obtain ⟨hm', rfl⟩ := hrest
  cases hm'
  obtain ⟨stored, hget, -, rfl, rfl⟩ := Goes.patchBindingStatus hpatch
  obtain ⟨persisted, hget', hrecord, hstatus⟩ := hm
  obtain rfl : stored = { m with status := persisted } := Option.some.inj (hget.symm.trans hget')
  refine ⟨⟨⟨_, get_saveBinding v _, record_mergeStatus status hrecord, fun hexact => ?_⟩, rfl,
    hconfig, beside_saveBinding rfl, fun _ _ _ ho => ho⟩, rfl, rfl⟩
  rw [hstatus hexact]
  exact mergeStatus_current m.status status

/-! ## Resolving a record -/

/-- The record of a binding that owns an object by its UID. -/
def confirmedRecord (name uid : GoString) : Record := (none, some ⟨name, uid⟩)

theorem Goes.confirm {exact : Prop} {name uid : GoString} (hm : Mirrors exact v m)
    (h : Goes S (confirmClusterSPIFFEIDOwnership P m name uid) v (m', .ok ()) v') :
    Carried exact v m v' m' ∧ m'.record = confirmedRecord name uid ∧ uid ≠ [] ∧
      v'.objects = v.objects := by
  rw [confirmClusterSPIFFEIDOwnership] at h
  split_ifs at h with huid
  · cases h.1
  · have hconfig : (confirmedStatus m name uid).config = m.status.config := rfl
    obtain ⟨hcarried, hstatus, hobjects⟩ := Goes.patchOwnershipStatus hm hconfig h
    exact ⟨hcarried, by rw [Binding.record, hstatus]; rfl, huid, hobjects⟩

theorem Goes.clear {exact : Prop} (hm : Mirrors exact v m)
    (h : Goes S (clearClusterSPIFFEIDOwnership m) v (m', .ok ()) v') :
    Carried exact v m v' m' ∧ m'.record = unrecorded ∧ v'.objects = v.objects := by
  rw [clearClusterSPIFFEIDOwnership] at h
  split_ifs at h with hnone
  · obtain ⟨hm', rfl⟩ := h
    cases hm'
    exact ⟨.refl hm, Prod.ext hnone.1 hnone.2, rfl⟩
  · have hconfig : (clearedStatus m).config = m.status.config := rfl
    obtain ⟨hcarried, hstatus, hobjects⟩ := Goes.patchOwnershipStatus hm hconfig h
    exact ⟨hcarried, by rw [Binding.record, hstatus]; rfl, hobjects⟩

/-- What a look at a record finds under the name it looks under. -/
theorem Goes.observe {name : GoString} {observation : ManagedOutputObservation}
    (h : Goes S (observeManagedClusterSPIFFEID m name) v (.ok observation) v') :
    v' = v ∧ ∃ record, managedOutputRecordFromStatus m.status = .ok record ∧
      ((lookupName record name = [] ∧ observation = classifyManagedClusterSPIFFEID record none) ∨
        lookupName record name ≠ [] ∧ observation =
          classifyManagedClusterSPIFFEID record (v.objects.get (lookupName record name))) := by
  rw [observeManagedClusterSPIFFEID] at h
  rcases hrecord : managedOutputRecordFromStatus m.status with err | record
  · rw [hrecord] at h
    cases h.1
  rw [hrecord] at h
  dsimp only at h
  split_ifs at h with hname
  · obtain ⟨hobs, rfl⟩ := h
    cases hobs
    exact ⟨rfl, record, rfl, Or.inl ⟨hname, rfl⟩⟩
  · obtain ⟨a, v₁, hread, hrest⟩ := leads_bind.mp h
    obtain ⟨rfl, rfl⟩ := (Goes.served hread).getClusterSPIFFEID
    rw [World.readObject] at hrest
    rcases hget : v₁.objects.get (lookupName record name) with _ | object
    · rw [hget] at hrest
      obtain ⟨hobs, rfl⟩ := hrest
      cases hobs
      exact ⟨rfl, record, rfl, Or.inr ⟨hname, by rw [hget]⟩⟩
    · rw [hget] at hrest
      obtain ⟨hobs, rfl⟩ := hrest
      cases hobs
      exact ⟨rfl, record, rfl, Or.inr ⟨hname, by rw [hget]⟩⟩

/-- The record in the two fields of a status. -/
def ManagedOutputRecord.asRecord : ManagedOutputRecord → Record
  | .unclaimed => unrecorded
  | .pending name claimID => (some ⟨name, claimID⟩, none)
  | .confirmed name uid => confirmedRecord name uid

/-- What `managedOutputRecordFromStatus` asks of a record. -/
def ManagedOutputRecord.Complete : ManagedOutputRecord → Prop
  | .unclaimed => True
  | .pending name _ => trimSpace name ≠ []
  | .confirmed name uid => trimSpace name ≠ [] ∧ uid ≠ []

theorem record_of_fromStatus {status : Status} {record : ManagedOutputRecord}
    (h : managedOutputRecordFromStatus status = .ok record) :
    status.record = record.asRecord ∧ record.Complete := by
  rw [managedOutputRecordFromStatus] at h
  split at h
  · cases h
  · rename_i pending hpending howned
    split_ifs at h with hblank
    cases h
    exact ⟨Prod.ext hpending howned, (not_or.mp hblank).1⟩
  · rename_i owned hpending howned
    split_ifs at h with hblank
    cases h
    exact ⟨Prod.ext hpending howned, not_or.mp hblank⟩
  · rename_i hpending howned
    cases h
    exact ⟨Prod.ext hpending howned, trivial⟩

theorem fromStatus_confirmed {status : Status} {name uid : GoString} (hname : trimSpace name ≠ [])
    (huid : uid ≠ []) (h : status.record = confirmedRecord name uid) :
    managedOutputRecordFromStatus status = .ok (.confirmed name uid) := by
  obtain ⟨hpending, howned⟩ := Prod.mk.inj h
  rw [managedOutputRecordFromStatus, hpending, howned]
  exact if_neg (not_or.mpr ⟨hname, huid⟩)

/-- A stored object is the one that a binding's record names, by its UID. -/
structure Lives (v : World) (b : Binding) (o : ClusterSPIFFEID) : Prop where
  stored : v.objects.get o.name = some o
  name : trimSpace o.name ≠ []
  uid : o.uid ≠ []
  record : b.record = confirmedRecord o.name o.uid

theorem Lives.objects {o : ClusterSPIFFEID} (h : Lives v m o) (hobjects : v'.objects = v.objects) :
    Lives v' m o :=
  ⟨by rw [hobjects, h.stored], h.name, h.uid, h.record⟩

/-- What the record of a binding comes to once it is resolved: it names the listed object,
or nothing. -/
def Settles (v : World) (b : Binding) (objects : List ClusterSPIFFEID) : Prop :=
  (objects = [] ∧ b.record = unrecorded) ∨ ∃ o, objects = [o] ∧ Lives v b o

/-- How `listManagedClusterSPIFFEIDs` ends when it has cleared the record. -/
def listedCleared :
    Binding × Except GoError Unit → Op (Binding × Except GoError (List ClusterSPIFFEID))
  | (binding, .error err) => ret (binding, .error err)
  | (binding, .ok ()) => ret (binding, .ok [])

theorem Goes.listedCleared {exact : Prop} {objects : List ClusterSPIFFEID} (hm : Mirrors exact v m)
    (h : Goes S (clearClusterSPIFFEIDOwnership m >>= Kleym.listedCleared) v (m', .ok objects) v') :
    Carried exact v m v' m' ∧ Settles v m' objects ∧ v'.objects = v.objects := by
  obtain ⟨⟨m₁, err | ⟨⟩⟩, v₁, hclear, hend⟩ := leads_bind.mp h
  · cases hend.1
  obtain ⟨hresult, rfl⟩ := hend
  cases hresult
  obtain ⟨hcarried, hnone, hobjects⟩ := Goes.clear hm hclear
  exact ⟨hcarried, Or.inl ⟨rfl, hnone⟩, hobjects⟩

/-- Looking for what a binding owns resolves its record. -/
theorem Goes.listManaged {exact : Prop} {objects : List ClusterSPIFFEID} (hm : Mirrors exact v m)
    (h : Goes S (listManagedClusterSPIFFEIDs P m) v (m', .ok objects) v') :
    Carried exact v m v' m' ∧ Settles v m' objects ∧ v'.objects = v.objects := by
  obtain ⟨err | observation, v₁, hobserve, hrest⟩ := leads_bind.mp h
  · cases hrest.1
  obtain ⟨rfl, record, hrecord, hobs⟩ := Goes.observe hobserve
  obtain ⟨hrecorded, hcomplete⟩ := record_of_fromStatus hrecord
  cases record with
  | unclaimed =>
    obtain ⟨-, rfl⟩ | ⟨hne, -⟩ := hobs
    · obtain ⟨hresult, rfl⟩ := hrest
      cases hresult
      exact ⟨.refl hm, Or.inl ⟨rfl, hrecorded⟩, rfl⟩
    · exact absurd rfl hne
  | pending name claimID =>
    obtain ⟨rfl, -⟩ | ⟨-, rfl⟩ := hobs
    · exact absurd rfl hcomplete
    rcases hget : v₁.objects.get name with _ | o
    · simp only [lookupName, hget, classifyManagedClusterSPIFFEID] at hrest
      exact Goes.listedCleared hm hrest
    obtain ⟨-, rfl⟩ := Store.get_eq_some.mp hget
    simp only [lookupName, hget, classifyManagedClusterSPIFFEID] at hrest
    split_ifs at hrest with hmatch
    · obtain ⟨⟨m₁, err | ⟨⟩⟩, v₂, hconfirm, hend⟩ := leads_bind.mp hrest
      · cases hend.1
      obtain ⟨hresult, rfl⟩ := hend
      cases hresult
      obtain ⟨hcarried, hconfirmed, huid, hobjects⟩ := Goes.confirm hm hconfirm
      exact ⟨hcarried, Or.inr ⟨o, rfl, hget, hcomplete, huid, hconfirmed⟩, hobjects⟩
    · exact Goes.listedCleared hm hrest
  | confirmed name uid =>
    obtain ⟨rfl, -⟩ | ⟨-, rfl⟩ := hobs
    · exact absurd rfl hcomplete.1
    rcases hget : v₁.objects.get name with _ | o
    · simp only [lookupName, hget, classifyManagedClusterSPIFFEID] at hrest
      exact Goes.listedCleared hm hrest
    simp only [lookupName, hget, classifyManagedClusterSPIFFEID] at hrest
    split_ifs at hrest with hmatch
    · obtain ⟨hresult, rfl⟩ := hrest
      cases hresult
      obtain ⟨rfl, rfl⟩ := hmatch
      exact ⟨.refl hm, Or.inr ⟨o, rfl, hget, hcomplete.1, hcomplete.2, hrecorded⟩, rfl⟩
    · exact Goes.listedCleared hm hrest

/-- Deletions leave everything but the objects of their binding. -/
theorem Goes.deleteManagedObjects {owner : GoString} {objects : List ClusterSPIFFEID}
    {a : Except GoError Unit} (h : Goes S (Kleym.deleteManagedObjects owner objects) v a v') :
    v'.bindings = v.bindings ∧ v'.poolView = v.poolView ∧ OthersKeep owner v v' := by
  have hbound : Always (fun c => ∃ name uid, c = .deleteClusterSPIFFEID owner name uid)
      (fun _ => True) (Kleym.deleteManagedObjects owner objects) :=
    always_deleteManagedObjects (fun name uid => ⟨name, uid, rfl⟩) objects
  refine (Leads.relates (F := fun v v' => v'.bindings = v.bindings ∧ v'.poolView = v.poolView ∧
    OthersKeep owner v v') (fun _ => ⟨rfl, rfl, fun _ _ _ ho => ho⟩) ?_ ?_ hbound h).2
  · exact fun h h' => ⟨h'.1.trans h.1, h'.2.1.trans h.2.1, h.2.2.trans h'.2.2⟩
  rintro c v₁ a v₂ ⟨name, uid, rfl⟩ hcall
  have hothers : OthersKeep owner v₁ v₂ := fun owner' o hne ho =>
    hcall.others owner' o (fun h => hne (Option.some.inj h).symm) ho
  obtain ⟨fresh, heffect⟩ := hcall.served.effect
  cases heffect <;> exact ⟨rfl, rfl, hothers⟩

theorem Goes.cleanupManaged {exact : Prop} (hm : Mirrors exact v m)
    (h : Goes S (cleanupManagedClusterSPIFFEIDs P m) v (m', .ok ()) v') :
    Carried exact v m v' m' := by
  obtain ⟨⟨m₁, err | objects⟩, v₁, hlist, hrest⟩ := leads_bind.mp h
  · cases hrest.1
  obtain ⟨a, v₂, hdelete, hend⟩ := leads_bind.mp hrest
  obtain ⟨hresult, rfl⟩ := hend
  cases hresult
  obtain ⟨hcarried, -, -⟩ := Goes.listManaged hm hlist
  obtain ⟨hbindings, hpools, hothers⟩ := Goes.deleteManagedObjects hdelete
  exact hcarried.objects hbindings hpools (hcarried.continues.uid ▸ hothers)

/-! ## Publishing a status -/

/-- A status with the record of another one. -/
def Status.withRecordOf (status persisted : Status) : Status :=
  { status with
    pendingClusterSPIFFEID := persisted.pendingClusterSPIFFEID
    ownedClusterSPIFFEID := persisted.ownedClusterSPIFFEID }

@[simp] theorem Status.record_withRecordOf (status persisted : Status) :
    (status.withRecordOf persisted).record = persisted.record := rfl

/-- The status of the binding under a key is the given one, except for the record, which is
the one it had. -/
structure Publishes (key : NamespacedName) (status : Status) (v v' : World) : Prop where
  objects : v'.objects = v.objects
  created : v'.created = v.created
  beside : Beside key v v'
  stored : ∃ (stored : Binding) (version : ℕ), v.bindings.get key = some stored ∧
    v'.bindings.get key = some { stored with
      status := status.withRecordOf stored.status, resourceVersion := version }

theorem Publishes.trans {key : NamespacedName} {status : Status} (h : Publishes key status v v')
    (h' : Publishes key status v' v'') : Publishes key status v v'' := by
  refine ⟨h'.objects.trans h.objects, h'.created.trans h.created, h.beside.trans h'.beside, ?_⟩
  obtain ⟨stored, version, hget, hget'⟩ := h.stored
  obtain ⟨stored', version', hstored', hget''⟩ := h'.stored
  obtain rfl := Option.some.inj (hget'.symm.trans hstored')
  exact ⟨stored, version', hget, hget''⟩

theorem publishes_saveBinding (status : Status) {latest : Binding}
    (hlatest : v.bindings.get latest.key = some latest) :
    Publishes latest.key status v
      (v.saveBinding (latest.patchedBy latest (status.withRecordOf latest.status))) := by
  refine ⟨rfl, rfl, beside_saveBinding rfl, latest, v.revision + 1, hlatest, ?_⟩
  refine (get_saveBinding v (latest.patchedBy latest _)).trans ?_
  rw [Binding.patchedBy, mergeStatus_current]

theorem Goes.patchStatusOnce {status : Status} {a : Except GoError Unit}
    (h : Goes S (Kleym.patchStatusOnce m status) v (m', a) v') :
    (a = .ok () → Publishes m.key status v v') ∧ (v' = v ∨ Publishes m.key status v v') := by
  obtain ⟨read, v₁, hread, hrest⟩ := leads_bind.mp h
  obtain ⟨rfl, rfl⟩ := (Goes.served hread).getBinding
  rw [World.readBinding] at hrest
  rcases hget : v₁.bindings.get m.key with _ | latest
  · rw [hget] at hrest
    obtain ⟨hresult, rfl⟩ := hrest
    cases hresult
    exact ⟨nofun, Or.inl rfl⟩
  rw [hget] at hrest
  obtain ⟨-, hkey⟩ := Store.get_eq_some.mp hget
  have hlatest : v₁.bindings.get latest.key = some latest := hkey ▸ hget
  dsimp only at hrest
  split_ifs at hrest with hsame
  · obtain ⟨hresult, rfl⟩ := hrest
    have hpublishes : Publishes m.key status v₁ v₁ :=
      ⟨rfl, rfl, .refl m.key v₁, latest, latest.resourceVersion, hget,
        by rw [hget]; exact congrArg some (congrArg (fun s => { latest with status := s }) hsame)⟩
    exact ⟨fun _ => hpublishes, Or.inr hpublishes⟩
  · have hpublishes := publishes_saveBinding status hlatest
    rw [hkey] at hpublishes
    obtain ⟨err | updated, v₂, hpatch, hend⟩ := leads_bind.mp hrest
    · obtain ⟨hresult, rfl⟩ := hend
      cases hresult
      -- The patch has taken effect all the same, or not at all.
      obtain ⟨fresh, heffect⟩ := (Goes.served hpatch).effect
      refine ⟨nofun, ?_⟩
      cases heffect with
      | none => exact Or.inl rfl
      | patchBindingStatus hstored =>
        obtain rfl := Option.some.inj (hlatest.symm.trans hstored)
        exact Or.inr hpublishes
    · obtain ⟨-, rfl⟩ := hend
      obtain ⟨stored, hstored, -, -, rfl⟩ := Goes.patchBindingStatus hpatch
      obtain rfl := Option.some.inj (hlatest.symm.trans hstored)
      exact ⟨fun _ => hpublishes, Or.inr hpublishes⟩

/-- Attempts that fail with a conflict are made again. -/
theorem Goes.patchStatusRetrying {status : Status} {retries : ℕ}
    (h : Goes S (Kleym.patchStatusRetrying m status retries) v (m', .ok ()) v') :
    Publishes m.key status v v' := by
  induction retries generalizing v with
  | zero => exact (Goes.patchStatusOnce h).1 rfl
  | succ retries ih =>
    obtain ⟨⟨m₁, err | ⟨⟩⟩, v₁, honce, hrest⟩ := leads_bind.mp h
    · dsimp only at hrest
      split_ifs at hrest
      · rcases (Goes.patchStatusOnce honce).2 with rfl | hpublishes
        · exact ih hrest
        · exact hpublishes.trans (ih hrest)
      · cases hrest.1
    · obtain ⟨-, rfl⟩ := hrest
      exact (Goes.patchStatusOnce honce).1 rfl

theorem Goes.publishOutcome (h : Goes S (Kleym.publishOutcome m) v (.ok ()) v') :
    Publishes m.key m.status v v' := by
  obtain ⟨⟨m₁, err | ⟨⟩⟩, v₁, hpatch, hrest⟩ := leads_bind.mp h
  · cases hrest.1
  obtain ⟨⟨⟩, v₂, hnote, -, rfl⟩ := leads_bind.mp hrest
  obtain rfl := (Goes.served hnote).recordTerminalOutcome
  exact Goes.patchStatusRetrying hpatch

end Kleym
