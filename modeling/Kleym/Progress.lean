import Kleym.Records
import Kleym.Quiescence

/-!
# Reconciles without faults

A reconcile that runs on its own, reads what is there, and whose calls do not fail: what the
server refuses it refuses for a reason. Deletions may still take their time.

Two refusals that the cluster of the model does not have count as faults. The client sends no
request for a pool whose name cannot be part of a path, such as `a/b`: the reconcile ends with
that error, and does not report that the pool is missing. And the CRD bounds the length of the
message of a condition, which a pool reference of that size would exceed.

In an orderly cluster none of the functions of `Controller` then returns an error, with the
exceptions that are meant: an object that belongs to nobody on the name of an output is refused,
and a peer whose pool reference is blank stops the evaluation. Every copy of a binding mirrors
what is stored, so its patches are based on the current version; every record can be read; an
object that a record names is the one that was just looked up.

`Undisturbed` and `Aftermath` say what each function has done when it returns without an error.
Here is that it does return so, and what the objects look like afterwards.
-/

namespace Kleym

open GoString Prog Protocol

/-! ## The rules -/

/-- A cluster in which the invariant holds and the records are in order. -/
structure Orderly (r : Reconciler) (S : Setting) (v : World) : Prop where
  honest : S.Honest
  inv : Inv S v
  named : v.WellNamed r.platform

/-- How a call is answered when nothing goes wrong: as the setting admits, from the current
state, and without a fault. -/
def Unfailing (S : Setting) (c : Call) (v : World) (a : Answer c) (v' : World) : Prop :=
  ∃ choice : Choice, Admissible S choice c v ∧ choice.reading = .current ∧ choice.fault = .none ∧
    respond choice c v = (a, v')

/-- Besides, the cluster stays orderly. -/
structure Smooth (r : Reconciler) (S : Setting) (c : Call) (v : World) (a : Answer c)
    (v' : World) : Prop where
  kept : Kept S c v a v'
  answer : ∃ choice : Choice, v.Fresh choice.fresh ∧ choice.reading = .current ∧
    choice.fault = .none ∧ respond choice c v = (a, v')
  named : v'.WellNamed r.platform

/-- The rules of a reconcile without faults. -/
def smoothProtocol (r : Reconciler) (S : Setting) : Protocol Call Answer World :=
  Protocol.alone (Smooth r S) (Orderly r S) fun _ _ _ _ hv h => ⟨hv.honest, h.kept.inv, h.named⟩

/-- Without faults, a piece of the operator's code ends in `Q`. -/
abbrev Smoothly (r : Reconciler) (S : Setting) {α : Type} (p : Op α) (Q : α → World → Prop)
    (v : World) : Prop :=
  (smoothProtocol r S).Safe p Q v

variable {r : Reconciler} {S : Setting} {v v' v'' : World} {m m' q b : Binding} {plan : Plan}

/-- A safe piece of code that stays in a namespace keeps a cluster orderly. -/
theorem smooth_of_leads {α : Type} {p : Op α} {Q : α → Scene → Prop} {V : α → Prop} {log : Log}
    {namespace_ : GoString} {a : α} (hv : Orderly r S v)
    (hsafe : (operatorProtocol r S).Safe p Q ⟨v, log⟩) (hstays : Stays r (.whole namespace_) V p)
    (h : Leads (Unfailing S) p v a v') : Leads (Smooth r S) p v a v' := by
  induction p generalizing v log with
  | ret b => exact h
  | call c k ih =>
    obtain ⟨a₁, v₁, ⟨choice, hchoice, hcurrent, hfault, hrespond⟩, hrest⟩ := h
    have hguard := hsafe.guarded hv.inv
    have hkept := Kept.of_serves hv.honest hv.inv hguard
      ⟨choice, hchoice, ⟨hcurrent, fun _ => hfault⟩, hrespond⟩
    have hnamed := hv.named.respond hv.inv hguard hstays.1 hchoice.fresh
    have htruthful := truthful_whole namespace_ choice c v
    rw [hrespond] at hnamed htruthful
    have hanswered : Answered S c ⟨v, log⟩ a₁ ⟨v₁, log ++ [⟨c, a₁⟩]⟩ :=
      ⟨⟨choice, hchoice, hrespond⟩, rfl⟩
    exact ⟨a₁, v₁, ⟨hkept, ⟨choice, hchoice.fresh, hcurrent, hfault, hrespond⟩, hnamed⟩,
      ih a₁ ⟨hv.honest, hkept.inv, hnamed⟩ (hsafe.answer hv.inv hanswered).2
        (hstays.2 a₁ htruthful) hrest⟩

/-- A run without faults is an undisturbed one. -/
theorem goes_of_smooth {α : Type} {p : Op α} {a : α} (h : Leads (Smooth r S) p v a v') :
    Goes S p v a v' :=
  Leads.mono (fun hsmooth => hsmooth.kept) h

/-- What is known of undisturbed runs can be used. -/
theorem smoothly_goes {α : Type} {p : Op α} {Q : α → World → Prop} (hv : Orderly r S v)
    (h : Smoothly r S p Q v) :
    Smoothly r S p (fun a v' => Q a v' ∧ Goes S p v a v') v :=
  h.leading.mono hv fun _ _ _ hrun => ⟨hrun.1, goes_of_smooth hrun.2⟩

/-! ## Patches -/

theorem smooth_patch {kind : PatchKind} {base stored : Binding} {status : Status}
    {a : Except GoError Binding} (hstored : v.bindings.get base.key = some stored)
    (hversion : stored.resourceVersion = base.resourceVersion)
    (hadmitted : (stored.patchedBy base status).status.Admitted)
    (h : Smooth r S (.patchBindingStatus kind base status) v a v') : ∃ target, a = .ok target := by
  obtain ⟨choice, -, -, hfault, hrespond⟩ := h.answer
  rw [respond, hfault] at hrespond
  change v.patchStatusOf base status = (a, v') at hrespond
  rw [World.patchStatusOf, hstored] at hrespond
  dsimp only at hrespond
  rw [if_neg (not_ne_iff.mpr hversion), if_pos hadmitted] at hrespond
  exact ⟨_, (Prod.mk.inj hrespond).1.symm⟩

/-- Whether a status is admitted is a matter of its record. -/
theorem Status.Admitted.of_record {status status' : Status} (h : status.Admitted)
    (hrecord : status'.record = status.record) : status'.Admitted := by
  obtain ⟨hpending, howned⟩ := Prod.mk.inj hrecord
  rw [Status.Admitted, hpending, howned]
  exact h

theorem smoothly_patchOwnershipStatus {exact : Prop} {status : Status} (hv : Orderly r S v)
    (hm : Mirrors exact v m) (hadmitted : status.Admitted)
    (hconfig : status.config = m.status.config) :
    Smoothly r S (patchOwnershipStatus m status) (fun x v' => x.2 = .ok () ∧
      Carried exact v m v' x.1 ∧ x.1.status = status ∧ v'.objects = v.objects) v := by
  have hok : Smoothly r S (patchOwnershipStatus m status) (fun x _ => x.2 = .ok ()) v := by
    obtain ⟨persisted, hget, hrecord, -⟩ := hm
    refine (alone_perform (c := Call.patchBindingStatus .ownership m status)
      (Q := fun a _ => ∃ target, a = .ok target) fun a v₁ hsmooth _ => ?_).bind hv ?_
    · exact smooth_patch hget rfl (hadmitted.of_record (record_mergeStatus status hrecord)) hsmooth
    · rintro a v₁ - ⟨target, rfl⟩
      exact rfl
  refine (smoothly_goes hv hok).mono hv ?_
  rintro ⟨m', a⟩ v₁ - ⟨rfl, hgoes⟩
  exact ⟨rfl, Goes.patchOwnershipStatus hm hconfig hgoes⟩

theorem smoothly_confirm {exact : Prop} {name uid : GoString} (hv : Orderly r S v)
    (hm : Mirrors exact v m) (hname : name ≠ []) (huid : uid ≠ []) :
    Smoothly r S (confirmClusterSPIFFEIDOwnership r.platform m name uid) (fun x v' =>
      x.2 = .ok () ∧ Carried exact v m v' x.1 ∧ x.1.record = confirmedRecord name uid ∧
      v'.objects = v.objects) v := by
  rw [confirmClusterSPIFFEIDOwnership, if_neg huid]
  have hadmitted : (confirmedStatus m name uid).Admitted := by
    refine ⟨fun h => by simp [confirmedStatus] at h, fun _ h => by simp [confirmedStatus] at h, ?_⟩
    rintro owned ⟨⟩
    exact ⟨hname, huid⟩
  refine (smoothly_patchOwnershipStatus hv hm hadmitted rfl).mono hv ?_
  rintro ⟨m', a⟩ v₁ - ⟨rfl, hcarried, hstatus, hobjects⟩
  exact ⟨rfl, hcarried, by rw [Binding.record, hstatus]; rfl, hobjects⟩

theorem smoothly_clear {exact : Prop} (hv : Orderly r S v) (hm : Mirrors exact v m) :
    Smoothly r S (clearClusterSPIFFEIDOwnership m) (fun x v' =>
      x.2 = .ok () ∧ Carried exact v m v' x.1 ∧ x.1.record = unrecorded ∧
      v'.objects = v.objects) v := by
  have hok : Smoothly r S (clearClusterSPIFFEIDOwnership m) (fun x _ => x.2 = .ok ()) v := by
    rw [clearClusterSPIFFEIDOwnership]
    split_ifs
    · exact rfl
    · have hadmitted : (clearedStatus m).Admitted := by simp [Status.Admitted, clearedStatus]
      exact (smoothly_patchOwnershipStatus hv hm hadmitted rfl).mono hv fun _ _ _ h => h.1
  refine (smoothly_goes hv hok).mono hv ?_
  rintro ⟨m', a⟩ v₁ - ⟨rfl, hgoes⟩
  exact ⟨rfl, Goes.clear hm hgoes⟩

/-! ## What a binding holds -/

/-- A stored object that the record of a binding names. -/
def Holds (v : World) (m : Binding) (o : ClusterSPIFFEID) : Prop :=
  v.objects.get o.name = some o ∧ Covers m.record o

theorem not_holds_unrecorded {o : ClusterSPIFFEID} (h : m.record = unrecorded) : ¬Holds v m o := by
  rintro ⟨-, hcovers⟩
  rw [h] at hcovers
  simp [Covers, unrecorded] at hcovers

theorem holds_pending {name claimID : GoString} {o : ClusterSPIFFEID}
    (h : m.record = (some ⟨name, claimID⟩, none)) :
    Holds v m o ↔ v.objects.get name = some o ∧ clusterSPIFFEIDOwnershipClaim o = claimID := by
  rw [Holds, h]
  constructor
  · rintro ⟨hget, ⟨pending, ⟨⟩, rfl, hclaim⟩ | ⟨owned, ⟨⟩, -⟩⟩
    exact ⟨hget, hclaim⟩
  · rintro ⟨hget, hclaim⟩
    obtain ⟨-, rfl⟩ := Store.get_eq_some.mp hget
    exact ⟨hget, Or.inl ⟨_, rfl, rfl, hclaim⟩⟩

theorem holds_confirmed {name uid : GoString} {o : ClusterSPIFFEID}
    (h : m.record = confirmedRecord name uid) :
    Holds v m o ↔ v.objects.get name = some o ∧ o.uid = uid := by
  rw [Holds, h]
  constructor
  · rintro ⟨hget, ⟨pending, ⟨⟩, -⟩ | ⟨owned, ⟨⟩, rfl, huid⟩⟩
    exact ⟨hget, huid⟩
  · rintro ⟨hget, huid⟩
    obtain ⟨-, rfl⟩ := Store.get_eq_some.mp hget
    exact ⟨hget, Or.inr ⟨_, rfl, rfl, huid⟩⟩

theorem Lives.holds {o : ClusterSPIFFEID} (h : Lives v m o) : Holds v m o :=
  ⟨h.stored, h.record ▸ Or.inr ⟨_, rfl, rfl, rfl⟩⟩

/-- Whether a record can be read is a matter of the record. -/
theorem fromStatus_congr {status status' : Status} (h : status'.record = status.record) :
    managedOutputRecordFromStatus status' = managedOutputRecordFromStatus status := by
  obtain ⟨hpending, howned⟩ := Prod.mk.inj h
  rw [managedOutputRecordFromStatus, managedOutputRecordFromStatus, hpending, howned]

theorem Orderly.readable {exact : Prop} (hv : Orderly r S v) (hm : Mirrors exact v m) :
    m.Readable := by
  obtain ⟨persisted, hget, hrecord, -⟩ := hm
  have hmem := hv.inv.history.binding_mem _ (Store.get_eq_some.mp hget).1
  obtain ⟨record, hread⟩ := hv.named.readable hv.honest hv.inv hmem
  exact ⟨record, (fromStatus_congr hrecord).symm.trans hread⟩

theorem Orderly.uid_ne_nil (hv : Orderly r S v) {name : GoString} {o : ClusterSPIFFEID}
    (h : v.objects.get name = some o) : o.uid ≠ [] := by
  have hblank := (hv.named.object hv.inv.history h).1
  rintro hnil
  rw [hnil, trimSpace_nil] at hblank
  exact hblank rfl

theorem ne_nil_of_trimSpace {s : GoString} (h : trimSpace s ≠ []) : s ≠ [] := by
  rintro rfl
  exact h trimSpace_nil

/-- What a look at a record finds. -/
structure LookedUp (v : World) (m : Binding) (name : GoString) (record : ManagedOutputRecord)
    (observation : ManagedOutputObservation) : Prop where
  recorded : m.record = record.asRecord
  complete : record.Complete
  observation : (lookupName record name = [] ∧
      observation = classifyManagedClusterSPIFFEID record none) ∨
    lookupName record name ≠ [] ∧ observation =
      classifyManagedClusterSPIFFEID record (v.objects.get (lookupName record name))

theorem smoothly_observe {exact : Prop} (hv : Orderly r S v) (hm : Mirrors exact v m)
    (name : GoString) :
    Smoothly r S (observeManagedClusterSPIFFEID m name) (fun a v' => v' = v ∧
      ∃ record observation, a = .ok observation ∧ LookedUp v m name record observation) v := by
  have hok : Smoothly r S (observeManagedClusterSPIFFEID m name)
      (fun a _ => ∃ observation, a = .ok observation) v := by
    obtain ⟨record, hrecord⟩ := hv.readable hm
    rw [observeManagedClusterSPIFFEID, hrecord]
    dsimp only
    split_ifs
    · exact ⟨_, rfl⟩
    · refine (alone_perform (c := Call.getClusterSPIFFEID _)
        (Q := fun a _ => a = v.readObject .current (lookupName record name))
        fun a v₁ hsmooth _ => hsmooth.kept.served.getClusterSPIFFEID.2).bind hv ?_
      rintro a v₁ - rfl
      rw [World.readObject]
      rcases v.objects.get (lookupName record name) with _ | o <;> exact ⟨_, rfl⟩
  refine (smoothly_goes hv hok).mono hv ?_
  rintro a v₁ - ⟨⟨observation, rfl⟩, hgoes⟩
  obtain ⟨rfl, record, hrecord, hobs⟩ := Goes.observe hgoes
  obtain ⟨hrecorded, hcomplete⟩ := record_of_fromStatus hrecord
  exact ⟨rfl, record, observation, rfl, hrecorded, hcomplete, hobs⟩

/-- The record of a binding has been resolved, and the objects are the ones it held. -/
structure Enumerated (exact : Prop) (v : World) (m : Binding) (v' : World) (m' : Binding)
    (found : List ClusterSPIFFEID) : Prop where
  carried : Carried exact v m v' m'
  settles : Settles v m' found
  objects : v'.objects = v.objects
  holds : ∀ o, o ∈ found ↔ Holds v m o

/-- The record is cleared where it names nothing that is there. -/
theorem smoothly_listedCleared {exact : Prop} (hv : Orderly r S v) (hm : Mirrors exact v m)
    (hnone : ∀ o, ¬Holds v m o) :
    Smoothly r S (clearClusterSPIFFEIDOwnership m >>= listedCleared)
      (fun x v' => ∃ objects, x.2 = .ok objects ∧ Enumerated exact v m v' x.1 objects) v := by
  refine (smoothly_clear hv hm).bind hv ?_
  rintro ⟨m₁, a⟩ v₁ - ⟨rfl, hcarried, hrecord, hobjects⟩
  exact ⟨[], rfl, hcarried, Or.inl ⟨rfl, hrecord⟩, hobjects, fun o => by simp [hnone o]⟩

theorem smoothly_listManaged {exact : Prop} (hv : Orderly r S v) (hm : Mirrors exact v m) :
    Smoothly r S (listManagedClusterSPIFFEIDs r.platform m)
      (fun x v' => ∃ objects, x.2 = .ok objects ∧ Enumerated exact v m v' x.1 objects) v := by
  refine (smoothly_observe hv hm []).bind hv ?_
  rintro a v₁ - ⟨rfl, record, observation, rfl, hrecorded, hcomplete, hobs⟩
  cases record with
  | unclaimed =>
    obtain ⟨-, rfl⟩ | ⟨hne, -⟩ := hobs
    · exact ⟨[], rfl, .refl hm, Or.inl ⟨rfl, hrecorded⟩, rfl,
        fun o => by simp [not_holds_unrecorded hrecorded]⟩
    · exact absurd rfl hne
  | pending name claimID =>
    obtain ⟨rfl, -⟩ | ⟨-, rfl⟩ := hobs
    · exact absurd rfl hcomplete
    have hholds : ∀ o, Holds v₁ m o ↔ v₁.objects.get name = some o ∧
        clusterSPIFFEIDOwnershipClaim o = claimID := fun o => holds_pending hrecorded
    rcases hget : v₁.objects.get name with _ | o
    · simp only [lookupName, hget, classifyManagedClusterSPIFFEID]
      exact smoothly_listedCleared hv hm fun o h => by simp [hholds, hget] at h
    obtain ⟨-, rfl⟩ := Store.get_eq_some.mp hget
    simp only [lookupName, hget, classifyManagedClusterSPIFFEID]
    split_ifs with hmatch
    · refine (smoothly_confirm hv hm (ne_nil_of_trimSpace hcomplete)
        (hv.uid_ne_nil hget)).bind hv ?_
      rintro ⟨m₁, a⟩ v₂ - ⟨rfl, hcarried, hconfirmed, hobjects⟩
      refine ⟨[o], rfl, hcarried, Or.inr ⟨o, rfl, hget, hcomplete, hv.uid_ne_nil hget, hconfirmed⟩,
        hobjects, fun o' => ?_⟩
      rw [hholds, hget, List.mem_singleton]
      constructor
      · rintro rfl
        exact ⟨rfl, hmatch.2⟩
      · exact fun h => (Option.some.inj h.1).symm
    · refine smoothly_listedCleared hv hm fun o' h => ?_
      rw [hholds, hget] at h
      obtain ⟨heq, hclaim⟩ := h
      obtain rfl := Option.some.inj heq
      exact hmatch ⟨trivial, hclaim⟩
  | confirmed name uid =>
    obtain ⟨rfl, -⟩ | ⟨-, rfl⟩ := hobs
    · exact absurd rfl hcomplete.1
    have hholds : ∀ o, Holds v₁ m o ↔ v₁.objects.get name = some o ∧ o.uid = uid :=
      fun o => holds_confirmed hrecorded
    rcases hget : v₁.objects.get name with _ | o
    · simp only [lookupName, hget, classifyManagedClusterSPIFFEID]
      exact smoothly_listedCleared hv hm fun o h => by simp [hholds, hget] at h
    obtain ⟨-, rfl⟩ := Store.get_eq_some.mp hget
    simp only [lookupName, hget, classifyManagedClusterSPIFFEID]
    split_ifs with hmatch
    · obtain ⟨-, rfl⟩ := hmatch
      refine ⟨[o], rfl, .refl hm,
        Or.inr ⟨o, rfl, hget, hcomplete.1, hcomplete.2, hrecorded⟩, rfl, fun o' => ?_⟩
      rw [hholds, hget, List.mem_singleton]
      constructor
      · rintro rfl
        exact ⟨rfl, rfl⟩
      · exact fun h => (Option.some.inj h.1).symm
    · refine smoothly_listedCleared hv hm fun o' h => ?_
      rw [hholds, hget] at h
      obtain ⟨heq, huid⟩ := h
      obtain rfl := Option.some.inj heq
      exact hmatch ⟨trivial, huid⟩

theorem Holds.name {o : ClusterSPIFFEID} (h : Holds v m o) (hread : m.Readable) :
    o.name = recordedClusterSPIFFEIDName m.status := by
  obtain ⟨record, hrecord⟩ := hread
  obtain ⟨hrecorded, -⟩ := record_of_fromStatus hrecord
  rw [recordedName_of_record hrecorded]
  cases record with
  | unclaimed => exact absurd h (not_holds_unrecorded hrecorded)
  | pending name claimID => exact (Store.get_eq_some.mp ((holds_pending hrecorded).mp h).1).2
  | confirmed name uid => exact (Store.get_eq_some.mp ((holds_confirmed hrecorded).mp h).1).2

/-! ## Deletions -/

/-- Whatever still has this name is on its way out, and nothing else has changed. -/
structure Dismisses (name : GoString) (v v' : World) : Prop where
  elsewhere : ∀ n, n ≠ name → v'.objects.get n = v.objects.get n
  terminating : ∀ o, v'.objects.get name = some o → o.terminating = true

theorem smooth_delete {owner : GoString} {o : ClusterSPIFFEID} {a : Except GoError Unit}
    (hstored : v.objects.get o.name = some o)
    (h : Smooth r S (.deleteClusterSPIFFEID owner o.name o.uid) v a v') :
    a = .ok () ∧ Dismisses o.name v v' := by
  obtain ⟨choice, -, -, hfault, hrespond⟩ := h.answer
  rw [respond, hfault] at hrespond
  change v.deleteObject choice.lingers o.name o.uid = (a, v') at hrespond
  rw [World.deleteObject, hstored] at hrespond
  dsimp only at hrespond
  rw [if_neg (not_not_intro rfl)] at hrespond
  split_ifs at hrespond
  · obtain ⟨rfl, rfl⟩ := Prod.mk.inj hrespond
    have hget : ∀ n, (v.saveObject o.markedDeleted).objects.get n =
        if o.name = n then some { o.markedDeleted with resourceVersion := v.revision + 1 }
        else v.objects.get n := fun n => Store.get_put
    refine ⟨rfl, fun n hn => ?_, fun o' ho' => ?_⟩
    · rw [hget, if_neg (Ne.symm hn)]
    · rw [hget, if_pos rfl] at ho'
      cases ho'
      rfl
  · obtain ⟨rfl, rfl⟩ := Prod.mk.inj hrespond
    have hget : ∀ n, (v.dropObject o.name).objects.get n =
        if n = o.name then none else v.objects.get n := fun n => Store.get_erase
    refine ⟨rfl, fun n hn => ?_, fun o' ho' => ?_⟩
    · rw [hget, if_neg hn]
    · rw [hget, if_pos rfl] at ho'
      cases ho'

/-- The output of a binding has been asked to go: what is left of it is on its way out. -/
structure Dismissed (exact : Prop) (v : World) (m : Binding) (v' : World) (m' : Binding) :
    Prop where
  carried : Carried exact v m v' m'
  elsewhere : ∀ n, n ≠ recordedClusterSPIFFEIDName m.status → v'.objects.get n = v.objects.get n
  withers : ∀ n o, v'.objects.get n = some o → v.objects.get n = some o ∨ o.terminating = true
  remains : ∀ o, Holds v' m' o → (∃ o₀, Holds v m o₀ ∧ o₀.name = o.name) ∧ o.terminating = true

theorem smoothly_cleanupManaged {exact : Prop} (hv : Orderly r S v) (hm : Mirrors exact v m) :
    Smoothly r S (cleanupManagedClusterSPIFFEIDs r.platform m)
      (fun x v' => x.2 = .ok () ∧ Dismissed exact v m v' x.1) v := by
  refine (smoothly_listManaged hv hm).bind hv ?_
  rintro ⟨m₁, a⟩ v₁ hv₁ ⟨found, rfl, hlisted⟩
  rcases hlisted.settles with ⟨rfl, hnone⟩ | ⟨o, rfl, hlives⟩
  · exact ⟨rfl, hlisted.carried, fun n _ => by rw [hlisted.objects],
      fun n o ho => Or.inl (hlisted.objects ▸ ho),
      fun o ho => absurd ho (not_holds_unrecorded hnone)⟩
  have hstored : v₁.objects.get o.name = some o := by rw [hlisted.objects, hlives.stored]
  have hname : o.name = recordedClusterSPIFFEIDName m.status :=
    ((hlisted.holds o).mp List.mem_cons_self).name (hv.readable hm)
  have hdelete : Smoothly r S (deleteManagedObjects m₁.uid [o])
      (fun a v' => a = .ok () ∧ Dismisses o.name v₁ v') v₁ := by
    refine (alone_perform (c := Call.deleteClusterSPIFFEID m₁.uid o.name o.uid)
      (Q := fun a v' => a = .ok () ∧ Dismisses o.name v₁ v')
      fun a v₂ hsmooth _ => smooth_delete hstored hsmooth).bind hv₁ ?_
    rintro a v₂ - ⟨rfl, hdismisses⟩
    exact ⟨rfl, hdismisses⟩
  refine (smoothly_goes hv₁ hdelete).bind hv₁ ?_
  rintro a v₂ - ⟨⟨rfl, hdismisses⟩, hgoes⟩
  obtain ⟨hbindings, hpools, hothers⟩ := Goes.deleteManagedObjects hgoes
  refine ⟨rfl, hlisted.carried.objects hbindings hpools
    (hlisted.carried.continues.uid ▸ hothers), fun n hn => ?_, fun n o' ho' => ?_, fun o' ho' => ?_⟩
  · rw [hdismisses.elsewhere n (hname ▸ hn), hlisted.objects]
  · by_cases hn : n = o.name
    · exact Or.inr (hdismisses.terminating o' (hn ▸ ho'))
    · rw [hdismisses.elsewhere n hn, hlisted.objects] at ho'
      exact Or.inl ho'
  · have hget := ((holds_confirmed hlives.record).mp ho').1
    exact ⟨⟨o, (hlisted.holds o).mp List.mem_cons_self, (Store.get_eq_some.mp hget).2.symm⟩,
      hdismisses.terminating o' hget⟩

/-- The output of a binding is gone, or it is on its way out. -/
structure CleanedUp (exact : Prop) (v : World) (m : Binding) (v' : World) (m' : Binding)
    (found : List ClusterSPIFFEID) : Prop extends Dismissed exact v m v' m' where
  settles : Settles v' m' found

theorem Dismissed.cleanedUp {exact : Prop} {found : List ClusterSPIFFEID} {m'' : Binding}
    (h : Dismissed exact v m v' m') (h' : Enumerated exact v' m' v'' m'' found) :
    CleanedUp exact v m v'' m'' found := by
  refine ⟨⟨h.carried.trans h'.carried, fun n hn => ?_, fun n o ho => ?_, fun o ho => ?_⟩, ?_⟩
  · rw [h'.objects, h.elsewhere n hn]
  · exact h.withers n o (h'.objects ▸ ho)
  · rcases h'.settles with ⟨-, hnone⟩ | ⟨o', rfl, hlives⟩
    · exact absurd ho (not_holds_unrecorded hnone)
    · obtain ⟨hget, -⟩ := (holds_confirmed hlives.record).mp ho
      rw [h'.objects, hlives.stored] at hget
      obtain rfl := Option.some.inj hget
      exact h.remains o' ((h'.holds o').mp List.mem_cons_self)
  · exact h'.settles.imp_right fun ⟨o, hfound, hlives⟩ => ⟨o, hfound, hlives.objects h'.objects⟩

/-! ## Publishing a status -/

/-- A binding that is stored. -/
def Stored (v : World) (key : NamespacedName) : Prop := ∃ b, v.bindings.get key = some b

theorem Mirrors.stored {exact : Prop} (h : Mirrors exact v m) : Stored v m.key := by
  obtain ⟨persisted, hget, -⟩ := h
  exact ⟨_, hget⟩

theorem smoothly_patchStatusOnce (hv : Orderly r S v) (hstored : Stored v m.key) (status : Status) :
    Smoothly r S (patchStatusOnce m status) (fun x _ => x.2 = .ok ()) v := by
  refine (alone_perform (c := Call.getBinding m.key)
    (Q := fun a v' => v' = v ∧ a = v.readBinding .current m.key)
    fun a v₁ hsmooth _ => hsmooth.kept.served.getBinding).bind hv ?_
  rintro a v₁ - ⟨rfl, rfl⟩
  obtain ⟨latest, hget⟩ := hstored
  obtain ⟨hmem, hkey⟩ := Store.get_eq_some.mp hget
  rw [World.readBinding, hget]
  dsimp only
  split_ifs
  · exact rfl
  have hadmitted : ∀ target : Status, target.record = latest.status.record →
      (latest.patchedBy latest target).status.Admitted := by
    intro target htarget
    refine (hv.inv.history.admitted latest (hv.inv.history.binding_mem latest hmem)).of_record ?_
    rw [Binding.patchedBy, mergeStatus_current, htarget]
  refine (alone_perform (c := Call.patchBindingStatus .ordinary latest _)
    (Q := fun a _ => ∃ target, a = .ok target) fun a v₂ hsmooth _ => ?_).bind hv ?_
  · exact smooth_patch (hkey.symm ▸ hget) rfl (hadmitted (status.withRecordOf latest.status) rfl)
      hsmooth
  · rintro a v₂ - ⟨target, rfl⟩
    exact rfl

theorem smoothly_patchStatus (hv : Orderly r S v) (hstored : Stored v m.key) :
    Smoothly r S (patchStatus m) (fun x v' => x.2 = .ok () ∧ Publishes m.key m.status v v') v := by
  have hok : Smoothly r S (patchStatus m) (fun x _ => x.2 = .ok ()) v := by
    refine (smoothly_patchStatusOnce hv hstored m.status).bind hv ?_
    rintro ⟨m₁, a⟩ v₁ - rfl
    exact rfl
  refine (smoothly_goes hv hok).mono hv ?_
  rintro ⟨m₁, a⟩ v₁ - ⟨rfl, hgoes⟩
  exact ⟨rfl, Goes.patchStatusRetrying hgoes⟩

theorem smoothly_publishOutcome (hv : Orderly r S v) (hstored : Stored v m.key) :
    Smoothly r S (publishOutcome m) (fun a v' => a = .ok () ∧ Publishes m.key m.status v v') v := by
  refine (smoothly_patchStatus hv hstored).bind hv ?_
  rintro ⟨m₁, a⟩ v₁ hv₁ ⟨rfl, hpublishes⟩
  refine (alone_perform (c := Call.recordTerminalOutcome m₁.status) (Q := fun _ v' => v' = v₁)
    fun a v₂ hsmooth _ => hsmooth.kept.served.recordTerminalOutcome).bind hv₁ ?_
  rintro ⟨⟩ v₂ - rfl
  exact ⟨rfl, hpublishes⟩

theorem smoothly_recordEvent (warning : Bool) (reason : Reason) (message : GoString) :
    Smoothly r S (recordEvent warning reason message) (fun _ v' => v' = v) v :=
  alone_perform fun _ _ hsmooth _ => hsmooth.kept.served.recordEvent

/-- A failure to apply the output is published, and returned. -/
theorem smoothly_reportApplyFailure {α : Type} (hv : Orderly r S v) (hstored : Stored v m.key)
    (applyErr : GoError) :
    Smoothly r S (reportApplyFailure (α := α) m applyErr) (fun a v' => a = .error applyErr ∧
      Publishes m.key (applyFailureStatus m.status m.generation
        (newManagedOutputApplyFailedStateError applyErr)) v v') v := by
  let failed : Binding := { m with
    status := applyFailureStatus m.status m.generation
      (newManagedOutputApplyFailedStateError applyErr) }
  refine (smoothly_publishOutcome (m := failed) hv hstored).bind hv ?_
  rintro a v₁ hv₁ ⟨rfl, hpublishes⟩
  refine (smoothly_recordEvent _ _ _).bind hv₁ ?_
  rintro ⟨⟩ v₂ - rfl
  exact ⟨rfl, hpublishes⟩

/-! ## Applying the output -/

theorem smooth_newUUID {owner claim : GoString} (h : Smooth r S (.newUUID owner) v claim v') :
    claim ≠ [] ∧ v'.bindings = v.bindings ∧ v'.objects = v.objects := by
  obtain ⟨choice, hfresh, -, -, hrespond⟩ := h.answer
  obtain ⟨rfl, rfl⟩ := Prod.mk.inj hrespond
  exact ⟨ne_nil_of_trimSpace hfresh.1, rfl, rfl⟩

theorem smoothly_reserve {name : GoString} (hv : Orderly r S v) (hm : Mirrors False v m)
    (hrecord : m.record = unrecorded) (hname : name ≠ []) :
    Smoothly r S (reserveClusterSPIFFEIDClaim r.platform m name) (fun x v' =>
      (∃ claim, x.2 = .ok claim) ∧ Mirrors False v' x.1 ∧ x.1.key = m.key ∧
      v'.objects = v.objects) v := by
  rw [reserveClusterSPIFFEIDClaim, fromStatus_unrecorded hrecord]
  refine (alone_perform (c := Call.newUUID m.uid) (Q := fun claim v' => claim ≠ [] ∧
    v'.bindings = v.bindings ∧ v'.objects = v.objects)
    fun a v₁ hsmooth _ => smooth_newUUID hsmooth).bind hv ?_
  rintro claim v₁ hv₁ ⟨hclaim, hbindings, hobjects⟩
  have hm₁ : Mirrors False v₁ m := by
    obtain ⟨persisted, hget, hcopy⟩ := hm
    exact ⟨persisted, hbindings ▸ hget, hcopy⟩
  have hadmitted : (reservedStatus m name claim).Admitted := by
    refine ⟨fun h => by simp [reservedStatus] at h, ?_, fun _ h => by simp [reservedStatus] at h⟩
    rintro pending ⟨⟩
    exact ⟨hname, hclaim⟩
  refine (smoothly_patchOwnershipStatus hv₁ hm₁ hadmitted rfl).bind hv₁ ?_
  rintro ⟨m₂, a⟩ v₂ - ⟨rfl, hcarried, -, hobjects'⟩
  exact ⟨⟨claim, rfl⟩, hcarried.mirrors, hcarried.continues.key, hobjects'.trans hobjects⟩

/-- A write came to nothing, for this reason; the copy still mirrors what is stored. -/
structure Declined {α : Type} (key : NamespacedName) (reason : Prop) (v' : World)
    (x : Binding × Except GoError α) : Prop where
  mirrors : Mirrors False v' x.1
  key : x.1.key = key
  error : ∃ err, x.2 = .error err ∧ err.kind ≠ .noMatch
  reason : reason

theorem Declined.imp {α : Type} {key : NamespacedName} {reason reason' : Prop}
    {x : Binding × Except GoError α} (h : Declined key reason v x) (himp : reason → reason') :
    Declined key reason' v x :=
  ⟨h.mirrors, h.key, h.error, himp h.reason⟩

/-- On a free name an object is created, unless it has labels that the server refuses. -/
theorem smooth_create {owner : GoString} {object : ClusterSPIFFEID}
    {a : Except GoError ClusterSPIFFEID} (hfree : v.objects.get object.name = none)
    (h : Smooth r S (.createClusterSPIFFEID owner object) v a v') :
    v'.bindings = v.bindings ∧
      ((∃ created, a = .ok created ∧ created.name = object.name ∧ created.uid ≠ []) ∨
        a = .error (invalidError objectResource object.name) ∧ ¬object.ValidLabels) := by
  obtain ⟨choice, hfresh, -, hfault, hrespond⟩ := h.answer
  rw [respond, hfault] at hrespond
  change v.createObject choice.fresh owner object = (a, v') at hrespond
  rw [World.createObject, hfree] at hrespond
  split_ifs at hrespond with hlabels
  · obtain ⟨rfl, rfl⟩ := Prod.mk.inj hrespond
    exact ⟨rfl, Or.inl ⟨_, rfl, rfl, ne_nil_of_trimSpace hfresh.1⟩⟩
  · obtain ⟨rfl, rfl⟩ := Prod.mk.inj hrespond
    exact ⟨rfl, Or.inr ⟨rfl, hlabels⟩⟩

section Apply

variable {desired : ClusterSPIFFEID}

theorem smoothly_submit {claimID : GoString} (hv : Orderly r S v) (hm : Mirrors False v m)
    (hname : desired.name ≠ []) (hfree : v.objects.get desired.name = none) :
    Smoothly r S (submitManagedClusterSPIFFEID r.platform m plan desired claimID)
      (fun x v' => (∃ status, x.2 = .ok status) ∨ Declined m.key (¬desired.ValidLabels) v' x) v := by
  have hslot : v.objects.get (setClusterSPIFFEIDOwnershipClaim desired claimID).name = none := hfree
  refine (alone_perform (c := Call.createClusterSPIFFEID m.uid _)
    (Q := fun a v' => v'.bindings = v.bindings ∧
      ((∃ created, a = .ok created ∧ created.name = desired.name ∧ created.uid ≠ []) ∨
        a = .error (invalidError objectResource desired.name) ∧ ¬desired.ValidLabels))
    fun a v₁ hsmooth _ => smooth_create hslot hsmooth).bind hv ?_
  rintro a v₁ hv₁ ⟨hbindings, hcreated⟩
  have hm₁ : Mirrors False v₁ m := by
    obtain ⟨persisted, hget, hcopy⟩ := hm
    exact ⟨persisted, hbindings ▸ hget, hcopy⟩
  rcases hcreated with ⟨created, rfl, hcreated, huid⟩ | ⟨rfl, hlabels⟩
  · dsimp only
    rw [if_neg huid]
    refine (smoothly_confirm hv₁ hm₁ (hcreated ▸ hname) huid).bind hv₁ ?_
    rintro ⟨m₂, a⟩ v₂ - ⟨rfl, -⟩
    exact Or.inl ⟨_, rfl⟩
  · dsimp only
    rw [if_neg (by rintro ⟨⟩)]
    exact Or.inr ⟨hm₁, rfl, ⟨_, rfl, by rintro ⟨⟩⟩, hlabels⟩

/-- A free name and no claim that is in the way: the object is created, if its labels are fine. -/
theorem smoothly_create {observation : ManagedOutputObservation} (hv : Orderly r S v)
    (hm : Mirrors False v m) (hname : desired.name ≠ [])
    (hfree : v.objects.get desired.name = none)
    (hrecord : (∃ claimID, observation = .pendingOutputAbsent claimID) ∨ m.record = unrecorded) :
    Smoothly r S (createManagedClusterSPIFFEID r.platform m plan desired observation)
      (fun x v' => (∃ status, x.2 = .ok status) ∨ Declined m.key (¬desired.ValidLabels) v' x)
      v := by
  by_cases hpending : ∃ claimID, observation = .pendingOutputAbsent claimID
  · obtain ⟨claimID, rfl⟩ := hpending
    exact smoothly_submit hv hm hname hfree
  have hnone := hrecord.resolve_left hpending
  cases observation with
  | pendingOutputAbsent claimID => exact absurd ⟨claimID, rfl⟩ hpending
  | _ =>
    refine (smoothly_reserve hv hm hnone hname).bind hv ?_
    rintro ⟨m₁, a⟩ v₁ hv₁ ⟨⟨claim, rfl⟩, hm₁, hkey, hobjects⟩
    exact hkey ▸ smoothly_submit hv₁ hm₁ hname (hobjects ▸ hfree)

theorem smoothly_update {owner : GoString} {current : ClusterSPIFFEID} (hv : Orderly r S v)
    (hcurrent : v.objects.get current.name = some current) :
    Smoothly r S (updateManagedClusterSPIFFEID r.platform owner plan current desired)
      (fun a v' => (∃ status, a = .ok status) ∨ v' = v ∧ ¬desired.ValidLabels ∧
        ∃ err, a = .error err ∧ err.kind ≠ .noMatch) v := by
  rw [updateManagedClusterSPIFFEID]
  split_ifs
  · exact Or.inl ⟨_, rfl⟩
  refine (alone_perform (c := Call.updateClusterSPIFFEID owner _)
    (Q := fun a v' => (∃ updated, a = .ok updated) ∨ v' = v ∧ ¬desired.ValidLabels ∧
      a = .error (invalidError objectResource current.name)) fun a v₁ hsmooth _ => ?_).bind hv ?_
  · obtain ⟨choice, -, -, hfault, hrespond⟩ := hsmooth.answer
    rw [respond, hfault] at hrespond
    change v.replaceObject (mergeDesiredClusterSPIFFEID current desired) = (a, v₁) at hrespond
    have hget : v.objects.get (mergeDesiredClusterSPIFFEID current desired).name = some current :=
      hcurrent
    rw [World.replaceObject, hget] at hrespond
    dsimp only at hrespond
    have hsame : ¬(current.resourceVersion ≠
        (mergeDesiredClusterSPIFFEID current desired).resourceVersion ∨
        current.uid ≠ (mergeDesiredClusterSPIFFEID current desired).uid) := by
      rintro (h | h) <;> exact h rfl
    rw [if_neg hsame] at hrespond
    split_ifs at hrespond with hlabels
    · exact Or.inl ⟨_, (Prod.mk.inj hrespond).1.symm⟩
    · obtain ⟨rfl, rfl⟩ := Prod.mk.inj hrespond
      have hstored := (hv.named.object hv.inv.history hcurrent).2
      exact Or.inr ⟨rfl, fun hdesired => hlabels (hstored.merge hdesired), rfl⟩
  · rintro a v₁ - (⟨updated, rfl⟩ | ⟨rfl, hlabels, rfl⟩)
    · exact Or.inl ⟨_, rfl⟩
    · exact Or.inr ⟨rfl, hlabels, _, rfl, by rintro ⟨⟩⟩

end Apply

/-- What authorizing comes to: a free slot, the object that is held, or a refusal of an object
that is not. -/
inductive Granted (v : World) (m : Binding) (found : Option ClusterSPIFFEID) (v' : World)
    (m' : Binding) : Except GoError (Option ClusterSPIFFEID) → Prop
  | slot (hfound : found = none)
      (hrecord : (∃ name claimID, m.record = (some ⟨name, claimID⟩, none)) ∨
        m'.record = unrecorded) :
      Granted v m found v' m' (.ok none)
  | held {o : ClusterSPIFFEID} (hfound : found = some o) : Granted v m found v' m' (.ok (some o))
  | foreign {o : ClusterSPIFFEID} {err : GoError} (hfound : found = some o)
      (hforeign : ¬Covers m.record o) (hkind : err.kind ≠ .noMatch) :
      Granted v m found v' m' (.error err)

theorem kind_foreignManagedOutputError (P : Platform) (name : GoString)
    (observation : ManagedOutputObservation) :
    (foreignManagedOutputError P name observation).kind ≠ .noMatch := by
  cases observation <;> (intro h; cases h)

/-- A record that names another object is cleared before the object is refused. -/
theorem smoothly_refuse {found : Option ClusterSPIFFEID} {o : ClusterSPIFFEID} {err : GoError}
    (hv : Orderly r S v) (hm : Mirrors False v m) (hfound : found = some o)
    (hforeign : ¬Covers m.record o) (hkind : err.kind ≠ .noMatch) :
    Smoothly r S (clearClusterSPIFFEIDOwnership m >>= fun x => match x with
      | (binding, .error clearErr) =>
        (ret (binding, .error clearErr) : Op (Binding × Except GoError (Option ClusterSPIFFEID)))
      | (binding, .ok ()) => ret (binding, .error err))
      (fun x v' => Carried False v m v' x.1 ∧ v'.objects = v.objects ∧
        Granted v m found v' x.1 x.2) v := by
  refine (smoothly_clear hv hm).bind hv ?_
  rintro ⟨m₁, a⟩ v₁ - ⟨rfl, hcarried, -, hobjects⟩
  exact ⟨hcarried, hobjects, .foreign hfound hforeign hkind⟩

theorem smoothly_authorize {record : ManagedOutputRecord} {found : Option ClusterSPIFFEID}
    {desired : ClusterSPIFFEID} (hv : Orderly r S v) (hm : Mirrors False v m)
    (hrecord : m.record = record.asRecord) (hcomplete : record.Complete)
    (hfound : ∀ o, found = some o → v.objects.get o.name = some o) :
    Smoothly r S (authorizeManagedOutputApply r.platform m desired
      (classifyManagedClusterSPIFFEID record found)) (fun x v' => Carried False v m v' x.1 ∧
        v'.objects = v.objects ∧ Granted v m found v' x.1 x.2) v := by
  cases record with
  | unclaimed =>
    cases found with
    | none => exact ⟨.refl hm, rfl, .slot rfl (Or.inr hrecord)⟩
    | some o =>
      refine ⟨.refl hm, rfl, .foreign rfl ?_ (kind_foreignManagedOutputError _ _ _)⟩
      rw [hrecord]
      rintro (⟨pending, ⟨⟩, -⟩ | ⟨owned, ⟨⟩, -⟩)
  | pending name claimID =>
    cases found with
    | none => exact ⟨.refl hm, rfl, .slot rfl (Or.inl ⟨name, claimID, hrecord⟩)⟩
    | some o =>
      rw [classifyManagedClusterSPIFFEID]
      split_ifs with hmatch
      · have hget := hfound o rfl
        refine (smoothly_confirm hv hm ?_ (hv.uid_ne_nil hget)).bind hv ?_
        · rw [hmatch.1]
          exact ne_nil_of_trimSpace hcomplete
        · rintro ⟨m₁, a⟩ v₁ - ⟨rfl, hcarried, -, hobjects⟩
          exact ⟨hcarried, hobjects, .held rfl⟩
      · refine smoothly_refuse hv hm rfl ?_ (kind_foreignManagedOutputError _ _ _)
        rw [hrecord]
        rintro (⟨pending, ⟨⟩, hname, hclaim⟩ | ⟨owned, ⟨⟩, -⟩)
        exact hmatch ⟨hname, hclaim⟩
  | confirmed name uid =>
    cases found with
    | none =>
      refine (smoothly_clear hv hm).bind hv ?_
      rintro ⟨m₁, a⟩ v₁ - ⟨rfl, hcarried, hnone, hobjects⟩
      exact ⟨hcarried, hobjects, .slot rfl (Or.inr hnone)⟩
    | some o =>
      rw [classifyManagedClusterSPIFFEID]
      split_ifs with hmatch
      · exact ⟨.refl hm, rfl, .held rfl⟩
      · refine smoothly_refuse hv hm rfl ?_ (kind_foreignManagedOutputError _ _ _)
        rw [hrecord]
        rintro (⟨pending, ⟨⟩, -⟩ | ⟨owned, ⟨⟩, hname, huid⟩)
        exact hmatch ⟨hname, huid⟩

end Kleym
