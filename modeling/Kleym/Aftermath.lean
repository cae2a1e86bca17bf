import Kleym.Trimming
import Kleym.Stillness

/-!
# What an undisturbed reconcile leaves behind

The counterpart of `Stillness`: a reconcile that ran undisturbed and returned without an error
and without asking to come again has left its binding at rest, with its output applied or its
conflict settled. The path it took is read backwards from its result: every other exit returns an
error, asks to come again, or publishes a status that says neither.

A conflict has one more condition. A peer that is being deleted takes part in it only as long as
it has an output, and the reconcile has just withdrawn that.
-/

namespace Kleym

open GoString Prog

variable {r : Reconciler} {S : Setting} {P : Platform} {v v' v'' : World} {m m' q : Binding}
  {plan : Plan}

/-! ## Runs -/

/-- How a call is answered to a reconcile that nobody disturbs: in a way the setting admits,
and reads say what is there. -/
def Serves (S : Setting) (c : Call) (v : World) (a : Answer c) (v' : World) : Prop :=
  ∃ choice : Choice, Admissible S choice c v ∧ choice.Faithful c ∧ respond choice c v = (a, v')

/-- What a call does for one binding leaves the outputs of the others. -/
theorem Kept.of_serves {log : Log} {c : Call} {a : Answer c} (hS : S.Honest) (hinv : Inv S v)
    (hguard : Guard r S log v c) (h : Serves S c v a v') : Kept S c v a v' := by
  obtain ⟨choice, hchoice, hfaithful, hrespond⟩ := h
  obtain ⟨rfl, rfl⟩ := Prod.mk.inj hrespond
  refine ⟨⟨choice, hfaithful, rfl⟩, hinv.respond hguard hchoice.fresh, ?_⟩
  rintro owner o hother ⟨ho, hcreated⟩
  have hgrows := (grows_respond choice c v).created hcreated
  by_contra hgone
  have hgone : o ∉ (respond choice c v).2.objects.entries := fun h => hgone ⟨h, hgrows⟩
  have howner : ∀ owner', (o.uid, owner') ∈ v.created → owner' = owner :=
    fun owner' h' => hinv.history.created_inj _ h' _ hcreated rfl
  rcases mutated_cases ho hgone with ⟨owner', object, rfl, huid⟩ | ⟨owner', name, rfl⟩
  · have hupdate : ObjectUpdate S v owner' object := hguard
    exact hother (congrArg some (howner owner' (huid ▸ hupdate.created hS)))
  · have hdeletion : Deletion S v owner' o.uid := hguard
    exact hother (congrArg some (howner owner' (hdeletion.created hS)))

/-- A safe piece of code keeps to the contracts when nobody disturbs it. -/
theorem goes_of_leads {α : Type} {p : Op α} {Q : α → Scene → Prop} {log : Log} {a : α}
    (hS : S.Honest) (hinv : Inv S v) (hsafe : (operatorProtocol r S).Safe p Q ⟨v, log⟩)
    (h : Leads (Serves S) p v a v') : Goes S p v a v' := by
  induction p generalizing v log with
  | ret b => exact h
  | call c k ih =>
    obtain ⟨a₁, v₁, hserves, hrest⟩ := h
    have hkept := Kept.of_serves hS hinv (hsafe.guarded hinv) hserves
    obtain ⟨choice, hchoice, -, hrespond⟩ := hserves
    have hanswered : Answered S c ⟨v, log⟩ a₁ ⟨v₁, log ++ [⟨c, a₁⟩]⟩ :=
      ⟨⟨choice, hchoice, hrespond⟩, rfl⟩
    exact ⟨a₁, v₁, hkept, ih a₁ hkept.inv (hsafe.answer hinv hanswered).2 hrest⟩

theorem Goes.inv {α : Type} {p : Op α} {a : α} (hinv : Inv S v) (h : Goes S p v a v') :
    Inv S v' :=
  Leads.preserves (F := fun v v' => Inv S v → Inv S v') (fun _ hinv => hinv)
    (fun h h' hinv => h' (h hinv)) (fun hkept _ => hkept.inv) h hinv

theorem Goes.poolView {α : Type} {p : Op α} {a : α} (h : Goes S p v a v') :
    v'.poolView = v.poolView := by
  refine Leads.preserves (F := fun v v' : World => v'.poolView = v.poolView) (fun _ => rfl)
    (fun h h' => h'.trans h) (fun {c v a v'} hkept => ?_) h
  obtain ⟨choice, -, hrespond⟩ := hkept.served
  have hview := poolView_respond choice c v
  rw [hrespond] at hview
  exact hview

/-! ## Applying the output -/

/-- The name of a managed output has a dash in it. -/
theorem trimSpace_desiredName (P : Platform) (key : NamespacedName) (plan : Plan) :
    trimSpace (desiredName P key plan) ≠ [] := by
  have hdash : (45 : UInt8) ∈ desiredName P key plan := by
    rw [desiredName, buildClusterSPIFFEIDName]
    exact List.mem_append_left _ (List.mem_append_right _ (by decide))
  exact trimSpace_ne_nil (by decide) hdash

/-- A call for one binding leaves the outputs of the others. -/
theorem Goes.othersKeep {c : Call} {owner : GoString} {a : Answer c}
    (hc : ∀ owner', c.mutatesFor = some owner' → owner' = owner) (h : Goes S (perform c) v a v') :
    OthersKeep owner v v' :=
  fun owner' o hne ho =>
    (leads_perform.mp h).others owner' o (fun heq => hne (hc owner' heq)) ho

theorem Goes.reserve {name claimID : GoString} (hm : Mirrors False v m)
    (h : Goes S (reserveClusterSPIFFEIDClaim P m name) v (m', .ok claimID) v') :
    Carried False v m v' m' := by
  rw [reserveClusterSPIFFEIDClaim] at h
  split at h
  · cases h.1
  · obtain ⟨claim, v₁, huuid, hrest⟩ := leads_bind.mp h
    obtain ⟨⟨m₁, err | ⟨⟩⟩, v₂, hpatch, hend⟩ := leads_bind.mp hrest
    · cases hend.1
    obtain ⟨hresult, rfl⟩ := hend
    cases hresult
    obtain ⟨hbindings, -, hpools⟩ := Goes.newUUID huuid
    have hissued : Carried False v m v₁ m := (Carried.refl hm).objects hbindings hpools
      (Goes.othersKeep (c := .newUUID m.uid) (by simp [Call.mutatesFor]) huuid)
    have hconfig : (reservedStatus m name claimID).config = m.status.config := rfl
    obtain ⟨hcarried, -⟩ := Goes.patchOwnershipStatus hissued.mirrors hconfig hpatch
    exact hissued.trans hcarried
  · cases h.1

/-- What is authorized is an empty slot, or the live object with its record confirmed. -/
theorem Goes.authorize {record : ManagedOutputRecord} {found current : Option ClusterSPIFFEID}
    {desired : ClusterSPIFFEID} (hm : Mirrors False v m) (hrecord : m.record = record.asRecord)
    (hcomplete : record.Complete)
    (h : Goes S (authorizeManagedOutputApply P m desired
      (classifyManagedClusterSPIFFEID record found)) v (m', .ok current) v') :
    Carried False v m v' m' ∧ v'.objects = v.objects ∧ ∀ o, current = some o → found = some o ∧
      o.name = lookupName record [] ∧ trimSpace o.name ≠ [] ∧ o.uid ≠ [] ∧
      m'.record = confirmedRecord o.name o.uid := by
  cases record with
  | unclaimed =>
    cases found with
    | none =>
      obtain ⟨hresult, rfl⟩ := h
      cases hresult
      exact ⟨.refl hm, rfl, fun _ hnone => by cases hnone⟩
    | some object => cases h.1
  | pending name claimID =>
    cases found with
    | none =>
      obtain ⟨hresult, rfl⟩ := h
      cases hresult
      exact ⟨.refl hm, rfl, fun _ hnone => by cases hnone⟩
    | some object =>
      rw [classifyManagedClusterSPIFFEID] at h
      split_ifs at h with hmatch
      · obtain ⟨⟨m₁, err | ⟨⟩⟩, v₁, hconfirm, hend⟩ := leads_bind.mp h
        · cases hend.1
        obtain ⟨hresult, rfl⟩ := hend
        cases hresult
        obtain ⟨hcarried, hconfirmed, huid, hobjects⟩ := Goes.confirm hm hconfirm
        refine ⟨hcarried, hobjects, fun o ho => ?_⟩
        cases ho
        exact ⟨rfl, hmatch.1, hmatch.1 ▸ hcomplete, huid, hconfirmed⟩
      · obtain ⟨⟨m₁, err | ⟨⟩⟩, v₁, hclear, hend⟩ := leads_bind.mp h <;> cases hend.1
  | confirmed name uid =>
    cases found with
    | none =>
      obtain ⟨⟨m₁, err | ⟨⟩⟩, v₁, hclear, hend⟩ := leads_bind.mp h
      · cases hend.1
      obtain ⟨hresult, rfl⟩ := hend
      cases hresult
      obtain ⟨hcarried, -, hobjects⟩ := Goes.clear hm hclear
      exact ⟨hcarried, hobjects, fun _ hnone => by cases hnone⟩
    | some object =>
      rw [classifyManagedClusterSPIFFEID] at h
      split_ifs at h with hmatch
      · obtain ⟨hresult, rfl⟩ := h
        cases hresult
        obtain ⟨rfl, rfl⟩ := hmatch
        refine ⟨.refl hm, rfl, fun o ho => ?_⟩
        cases ho
        exact ⟨rfl, rfl, hcomplete.1, hcomplete.2, hrecord⟩
      · obtain ⟨⟨m₁, err | ⟨⟩⟩, v₁, hclear, hend⟩ := leads_bind.mp h <;> cases hend.1

/-- The name in a record is the one that is looked up. -/
theorem recordedName_of_record {record : ManagedOutputRecord} (h : m.record = record.asRecord) :
    recordedClusterSPIFFEIDName m.status = lookupName record [] := by
  obtain ⟨hpending, howned⟩ := Prod.mk.inj h
  cases record <;> rw [recordedClusterSPIFFEIDName, hpending, howned] <;> rfl

/-- An output that was just created, or found, and is confirmed. -/
structure InPlace (P : Platform) (v : World) (m : Binding) (plan : Plan)
    (desired o : ClusterSPIFFEID) (status : RenderedClusterSPIFFEIDStatus) : Prop where
  lives : Lives v m o
  name : o.name = desired.name
  inSync : clusterSPIFFEIDInSync o desired = true
  status : status = renderedClusterSPIFFEIDStatus P plan o

section InPlace

variable {key : NamespacedName} {className : GoString} {status : RenderedClusterSPIFFEIDStatus}
  (hplan : plan.podSelector.wellFormed = true)

include hplan

/-- What is created has the desired spec and labels, and a claim besides. -/
theorem inSync_created (claimID uid : GoString) (revision : ℕ) :
    clusterSPIFFEIDInSync { (setClusterSPIFFEIDOwnershipClaim
      (desiredClusterSPIFFEID P key plan className) claimID).createdAs uid with
        resourceVersion := revision } (desiredClusterSPIFFEID P key plan className) = true := by
  refine inSync_desired hplan rfl rfl fun entry hentry => ?_
  exact lookup_of_mem (nodup_managedClusterSPIFFEIDLabels key) hentry

theorem Goes.submit {claimID : GoString} (hm : Mirrors False v m)
    (h : Goes S (submitManagedClusterSPIFFEID P m plan (desiredClusterSPIFFEID P key plan className)
      claimID) v (m', .ok status) v') :
    Carried False v m v' m' ∧
      ∃ o, InPlace P v' m' plan (desiredClusterSPIFFEID P key plan className) o status := by
  obtain ⟨err | created, v₁, hcreate, hrest⟩ := leads_bind.mp h
  · dsimp only at hrest
    split_ifs at hrest <;> cases hrest.1
  dsimp only at hrest
  split_ifs at hrest with huid
  · cases hrest.1
  obtain ⟨⟨m₁, err | ⟨⟩⟩, v₂, hconfirm, hend⟩ := leads_bind.mp hrest
  · cases hend.1
  obtain ⟨hresult, rfl⟩ := hend
  cases hresult
  obtain ⟨uid, hcreated, hobjects, hbindings, hpools⟩ := Goes.createClusterSPIFFEID hcreate
  have hstored : Carried False v m v₁ m := (Carried.refl hm).objects hbindings hpools
    (Goes.othersKeep (c := .createClusterSPIFFEID m.uid _) (by simp [Call.mutatesFor]) hcreate)
  obtain ⟨hcarried, hrecord, -, hobjects'⟩ := Goes.confirm hstored.mirrors hconfirm
  have hname : created.name = desiredName P key plan := by rw [hcreated]; rfl
  refine ⟨hstored.trans hcarried, created, ⟨?_, ?_, huid, hrecord⟩, hname, ?_, rfl⟩
  · rw [hobjects', hobjects]
    exact Store.get_put.trans (if_pos rfl)
  · rw [hname]
    exact trimSpace_desiredName P key plan
  · rw [hcreated]
    exact inSync_created hplan claimID uid _

theorem Goes.create {observation : ManagedOutputObservation} (hm : Mirrors False v m)
    (h : Goes S (createManagedClusterSPIFFEID P m plan (desiredClusterSPIFFEID P key plan className)
      observation) v (m', .ok status) v') :
    Carried False v m v' m' ∧
      ∃ o, InPlace P v' m' plan (desiredClusterSPIFFEID P key plan className) o status := by
  cases observation with
  | pendingOutputAbsent claimID => exact Goes.submit hplan hm h
  | _ =>
    obtain ⟨⟨m₁, err | claimID⟩, v₁, hreserve, hrest⟩ := leads_bind.mp h
    · cases hrest.1
    have hreserved := Goes.reserve hm hreserve
    obtain ⟨hcarried, hplace⟩ := Goes.submit hplan hreserved.mirrors hrest
    exact ⟨hreserved.trans hcarried, hplace⟩

/-- An update of the live output, where one is needed. -/
theorem Goes.update {owner : GoString} {current : ClusterSPIFFEID}
    (hcurrent : v.objects.get current.name = some current)
    (h : Goes S (updateManagedClusterSPIFFEID P owner plan current
      (desiredClusterSPIFFEID P key plan className)) v (.ok status) v') :
    v'.bindings = v.bindings ∧ v'.poolView = v.poolView ∧ OthersKeep owner v v' ∧
      ∃ o, v'.objects.get o.name = some o ∧ o.name = current.name ∧ o.uid = current.uid ∧
        clusterSPIFFEIDInSync o (desiredClusterSPIFFEID P key plan className) = true ∧
        status = renderedClusterSPIFFEIDStatus P plan o := by
  rw [updateManagedClusterSPIFFEID] at h
  split_ifs at h with hsync
  · obtain ⟨hresult, rfl⟩ := h
    cases hresult
    exact ⟨rfl, rfl, fun _ _ _ ho => ho, current, hcurrent, rfl, rfl, hsync, rfl⟩
  · obtain ⟨err | updated, v₁, hupdate, hrest⟩ := leads_bind.mp h
    · cases hrest.1
    obtain ⟨hresult, rfl⟩ := hrest
    cases hresult
    obtain ⟨stored, hupdated, hobjects, hbindings, hpools⟩ := Goes.updateClusterSPIFFEID hupdate
    have hothers : OthersKeep owner v v₁ :=
      Goes.othersKeep (c := .updateClusterSPIFFEID owner _) (by simp [Call.mutatesFor]) hupdate
    refine ⟨hbindings, hpools, hothers, updated, ?_, ?_, ?_, ?_, rfl⟩
    · rw [hobjects]
      exact Store.get_put.trans (if_pos rfl)
    · rw [hupdated]
      rfl
    · rw [hupdated]
      rfl
    · rw [hupdated]
      exact inSync_merge hplan current

/-- Bringing the output in line, once the record names nothing or the desired object. -/
theorem Goes.reconcileClusterSPIFFEID (hm : Mirrors False v m)
    (hname : recordedClusterSPIFFEIDName m.status = [] ∨
      recordedClusterSPIFFEIDName m.status = desiredName P key plan)
    (h : Goes S (Kleym.reconcileClusterSPIFFEID P m plan
      (desiredClusterSPIFFEID P key plan className)) v (m', .ok status) v') :
    Carried False v m v' m' ∧
      ∃ o, InPlace P v' m' plan (desiredClusterSPIFFEID P key plan className) o status := by
  obtain ⟨err | observation, v₁, hobserve, hrest⟩ := leads_bind.mp h
  · cases hrest.1
  obtain ⟨rfl, record, hrecord, hobs⟩ := Goes.observe hobserve
  obtain ⟨hrecorded, hcomplete⟩ := record_of_fromStatus hrecord
  obtain ⟨⟨m₁, err | current⟩, v₂, hauthorize, hrest⟩ := leads_bind.mp hrest
  · cases hrest.1
  obtain ⟨found, hfound, rfl⟩ : ∃ found : Option ClusterSPIFFEID,
      (∀ o, found = some o → v₁.objects.get o.name = some o) ∧
      observation = classifyManagedClusterSPIFFEID record found := by
    rcases hobs with ⟨-, rfl⟩ | ⟨-, rfl⟩
    · exact ⟨none, (fun _ hnone => by cases hnone), rfl⟩
    · refine ⟨_, fun o ho => ?_, rfl⟩
      rw [(Store.get_eq_some.mp ho).2]
      exact ho
  obtain ⟨hcarried, hobjects, hcurrent⟩ := Goes.authorize hm hrecorded hcomplete hauthorize
  cases current with
  | none =>
    obtain ⟨hcreated, hplace⟩ := Goes.create hplan hcarried.mirrors hrest
    exact ⟨hcarried.trans hcreated, hplace⟩
  | some o =>
    obtain ⟨rfl, hlookup, hblank, huid, hconfirmed⟩ := hcurrent o rfl
    have hget := hfound o rfl
    have hdesired : o.name = desiredName P key plan := by
      rw [recordedName_of_record hrecorded, ← hlookup] at hname
      refine hname.resolve_left fun hnil => hblank ?_
      rw [hnil, trimSpace_nil]
    obtain ⟨result, v₃, hupdate, hend⟩ := leads_bind.mp hrest
    obtain ⟨hresult, rfl⟩ := hend
    cases hresult
    obtain ⟨hbindings, hpools, hothers, o', hget', hname', huid', hsync, hstatus⟩ :=
      Goes.update hplan (by rw [hobjects, hget]) hupdate
    refine ⟨hcarried.objects hbindings hpools (hcarried.continues.uid ▸ hothers), o',
      ⟨hget', hname' ▸ hblank, huid' ▸ huid, ?_⟩, hname'.trans hdesired, hsync, hstatus⟩
    rw [hname', huid']
    exact hconfirmed

theorem Goes.reconcileClusterSPIFFEIDs {statuses : List RenderedClusterSPIFFEIDStatus}
    (hm : Mirrors False v m)
    (hname : recordedClusterSPIFFEIDName m.status = [] ∨
      recordedClusterSPIFFEIDName m.status = desiredName P m.key plan)
    (h : Goes S (Kleym.reconcileClusterSPIFFEIDs P className [plan] m) v (m', .ok statuses) v') :
    Carried False v m v' m' ∧ ∃ o status, statuses = [status] ∧
      InPlace P v' m' plan (desiredClusterSPIFFEID P m.key plan className) o status := by
  obtain ⟨⟨m₁, err | status⟩, v₁, hone, hrest⟩ := leads_bind.mp h
  · cases hrest.1
  obtain ⟨hresult, rfl⟩ := hrest
  cases hresult
  obtain ⟨hcarried, o, hplace⟩ := Goes.reconcileClusterSPIFFEID hplan hm hname hone
  exact ⟨hcarried, o, status, rfl, hplace⟩

end InPlace

theorem Settles.unrecorded (h : Settles v m []) : m.record = unrecorded := by
  rcases h with ⟨-, hrecord⟩ | ⟨o, ho, -⟩
  · exact hrecord
  · cases ho

/-- Once the old output is known to be gone, the record names nothing, or what is desired. -/
theorem Goes.cleanupChanged {name : GoString} (hm : Mirrors False v m)
    (h : Goes S (cleanupChangedClusterSPIFFEIDName P m name) v (m', .ok false) v') :
    Carried False v m v' m' ∧ (recordedClusterSPIFFEIDName m'.status = [] ∨
      recordedClusterSPIFFEIDName m'.status = name) := by
  rw [cleanupChangedClusterSPIFFEIDName] at h
  split_ifs at h with hsame
  · obtain ⟨hresult, rfl⟩ := h
    cases hresult
    exact ⟨.refl hm, hsame⟩
  obtain ⟨⟨m₁, err | ⟨⟩⟩, v₁, hcleanup, hrest⟩ := leads_bind.mp h
  · cases hrest.1
  obtain ⟨⟨m₂, err | _ | ⟨o, objects⟩⟩, v₂, hlist, hrest⟩ := leads_bind.mp hrest
  · cases hrest.1
  · have hcleaned := Goes.cleanupManaged hm hcleanup
    obtain ⟨hlisted, hsettles, -⟩ := Goes.listManaged hcleaned.mirrors hlist
    have hnone := recordedName_unrecorded hsettles.unrecorded
    dsimp only at hrest
    rw [if_neg (not_not.mpr hnone)] at hrest
    obtain ⟨hresult, rfl⟩ := hrest
    cases hresult
    exact ⟨hcleaned.trans hlisted, Or.inl hnone⟩
  · cases hrest.1

/-! ## The finalizer -/

/-- A binding with the finalizer, as it is stored when phase 3 is over. -/
structure Finalized (v : World) (b : Binding) (v' : World) (b' : Binding) : Prop where
  stored : v'.bindings.get b'.key = some b'
  key : b'.key = b.key
  present : b'.deleting = false
  finalizer : inferenceIdentityBindingFinalizer ∈ b'.finalizers
  beside : Beside b.key v v'

theorem Goes.ensureFinalizer {b b' : Binding} (hb : v.bindings.get b.key = some b)
    (hpresent : b.deleting = false)
    (h : Goes S (Reconciler.ensureFinalizer b) v (.ok b') v') : Finalized v b v' b' := by
  rw [Reconciler.ensureFinalizer] at h
  split_ifs at h with hfinalizer
  · obtain ⟨hresult, rfl⟩ := h
    cases hresult
    exact ⟨hb, rfl, hpresent, hfinalizer, .refl b.key v⟩
  · obtain ⟨stored, hget, rfl, rfl⟩ := Goes.updateBinding h
    obtain rfl : stored = b := Option.some.inj (hget.symm.trans hb)
    have hsettle : v.settleBinding (stored.replacedBy { stored with
        finalizers := stored.finalizers ++ [inferenceIdentityBindingFinalizer] }) =
        v.saveBinding (stored.replacedBy { stored with
          finalizers := stored.finalizers ++ [inferenceIdentityBindingFinalizer] }) := by
      rw [World.settleBinding, if_neg]
      simp [Binding.replacedBy]
    rw [hsettle]
    exact ⟨get_saveBinding v _, rfl, hpresent, by simp [Binding.replacedBy],
      beside_saveBinding rfl⟩

/-! ## One binding after the other -/

/-- What a loop does that works on stored bindings, one after the other: each is stored in a
later copy, and everybody else keeps what they have. -/
structure Touched (v : World) (items : List Binding) (v' : World) (items' : List Binding) :
    Prop where
  continues : List.Forall₂ Continues items items'
  stored : ∀ q ∈ items', v'.bindings.get q.key = some q
  poolView : v'.poolView = v.poolView
  others : ∀ k, k ∉ items.map Binding.key → v'.bindings.get k = v.bindings.get k
  outputs : ∀ owner o, (∀ q ∈ items, q.uid ≠ owner) → v.Output owner o → v'.Output owner o

theorem Touched.nil (v : World) : Touched v [] v [] :=
  ⟨.nil, List.forall_mem_nil _, rfl, fun _ _ => rfl, fun _ _ _ ho => ho⟩

theorem touched_self (hq : v.bindings.get q.key = some q) : Touched v [q] v [q] :=
  ⟨.cons (.refl q) .nil, List.forall_mem_singleton.mpr hq, rfl, fun _ _ => rfl, fun _ _ _ ho => ho⟩

theorem Carried.touched {q' : Binding} (h : Carried True v q v' q') : Touched v [q] v' [q'] := by
  refine ⟨.cons h.continues .nil, List.forall_mem_singleton.mpr h.mirrors.current,
    h.beside.poolView, fun k hk => h.beside.others k ?_, fun owner o hne => h.others owner o ?_⟩
  · rintro rfl
    exact hk (List.mem_singleton.mpr rfl)
  · exact (hne q List.mem_cons_self).symm

theorem Touched.cons {items items' : List Binding} {q' : Binding} (h : Touched v [q] v' [q'])
    (h' : Touched v' items v'' items') (hnew : q.key ∉ items.map Binding.key) :
    Touched v (q :: items) v'' (q' :: items') := by
  obtain ⟨hq, -⟩ := List.forall₂_cons.mp h.continues
  have hstored : v''.bindings.get q'.key = some q' := by
    rw [h'.others q'.key (by rwa [hq.key])]
    exact h.stored q' List.mem_cons_self
  refine ⟨.cons hq h'.continues, List.forall_mem_cons.mpr ⟨hstored, h'.stored⟩,
    h'.poolView.trans h.poolView, fun k hk => ?_, fun owner o hne ho => ?_⟩
  · rw [List.map_cons, List.mem_cons, not_or] at hk
    rw [h'.others k hk.2, h.others k (by simpa using hk.1)]
  · rw [List.forall_mem_cons] at hne
    exact h'.outputs owner o hne.2 (h.outputs owner o (List.forall_mem_singleton.mpr hne.1) ho)

/-- Those that come later are stored as they were. -/
theorem Touched.stored_rest {items : List Binding} {q' : Binding} (h : Touched v [q] v' [q'])
    (hitems : ∀ x ∈ items, v.bindings.get x.key = some x) (hnew : q.key ∉ items.map Binding.key) :
    ∀ x ∈ items, v'.bindings.get x.key = some x := by
  intro x hx
  rw [h.others x.key, hitems x hx]
  rw [List.map_singleton, List.mem_singleton]
  intro heq
  exact hnew (heq ▸ List.mem_map_of_mem hx)

/-- Every binding there was is there in a later copy, and nothing else is. -/
def LaterCopies (v v' : World) : Prop :=
  ∀ k, Option.Rel Continues (v.bindings.get k) (v'.bindings.get k)

theorem continues_same (found : Option Binding) : Option.Rel Continues found found := by
  cases found with
  | none => exact .none
  | some q => exact .some (.refl q)

theorem Beside.laterCopies {key : NamespacedName} (h : Beside key v v')
    (hown : Option.Rel Continues (v.bindings.get key) (v'.bindings.get key)) :
    LaterCopies v v' := by
  intro k
  by_cases hk : k = key
  · exact hk ▸ hown
  · rw [h.others k hk]
    exact continues_same _

theorem LaterCopies.trans (h : LaterCopies v v') (h' : LaterCopies v' v'') : LaterCopies v v'' := by
  intro k
  have hk := h k
  have hk' := h' k
  generalize v'.bindings.get k = found at hk hk'
  generalize v.bindings.get k = before at hk ⊢
  generalize v''.bindings.get k = after at hk' ⊢
  cases hk with
  | none => exact hk'
  | some hq =>
    cases hk' with
    | some hq' => exact .some (hq.trans hq')

theorem Touched.keys {items items' : List Binding} (h : Touched v items v' items') :
    items'.map Binding.key = items.map Binding.key := by
  have hall := h.continues
  clear h
  induction hall with
  | nil => rfl
  | cons hq _ ih => rw [List.map_cons, List.map_cons, hq.key, ih]

theorem Touched.exists_before {items items' : List Binding} (h : Touched v items v' items') :
    ∀ q' ∈ items', ∃ q ∈ items, Continues q q' := by
  have hall := h.continues
  clear h
  induction hall with
  | nil => exact List.forall_mem_nil _
  | cons hq _ ih =>
    refine List.forall_mem_cons.mpr ⟨⟨_, List.mem_cons_self, hq⟩, fun x hx => ?_⟩
    obtain ⟨x', hx', hcontinues⟩ := ih x hx
    exact ⟨x', List.mem_cons_of_mem _ hx', hcontinues⟩

theorem Touched.laterCopies {items items' : List Binding} (h : Touched v items v' items')
    (hitems : ∀ q ∈ items, v.bindings.get q.key = some q) : LaterCopies v v' := by
  intro k
  by_cases hk : k ∈ items.map Binding.key
  · rw [← h.keys] at hk
    obtain ⟨q', hq', rfl⟩ := List.mem_map.mp hk
    obtain ⟨q, hq, hcontinues⟩ := h.exists_before q' hq'
    rw [hcontinues.key, hitems q hq, ← hcontinues.key, h.stored q' hq']
    exact .some hcontinues
  · rw [h.others k hk]
    exact continues_same _

/-! ## Evaluating the namespace -/

theorem Lives.ne_unrecorded {o : ClusterSPIFFEID} (h : Lives v m o) : m.record ≠ unrecorded := by
  rw [h.record]
  intro hnone
  cases (Prod.mk.inj hnone).2

/-- Holding still is a matter of the pools and the objects. -/
theorem Still.congr (h : Still r v q) (hobjects : v'.objects = v.objects)
    (hpools : v'.poolView = v.poolView) : Still r v' q := by
  have hrendered : renderedOf r v' q = renderedOf r v q := renderedOf_eq hpools (.refl q)
  cases h with
  | gone hdeleting hrecord => exact .gone hdeleting hrecord
  | rendered hplan hlives =>
    refine .rendered (hrendered.trans hplan) fun hdeleting => ?_
    obtain ⟨o, ho⟩ := hlives hdeleting
    exact ⟨o, ho.objects hobjects⟩
  | failed hfails hstate hpresent hrecord =>
    exact .failed (hrendered.trans hfails) hstate hpresent hrecord

theorem relevantPlan_congr (hpools : v'.poolView = v.poolView) :
    relevantPlan r m plan v' q = relevantPlan r m plan v q := by
  rw [relevantPlan, relevantPlan, renderedOf_eq hpools (.refl q)]

/-- What comes of a peer in an evaluation: it blocks, or it holds still from then on. -/
structure Heard (r : Reconciler) (m : Binding) (plan : Plan) (v : World) (q : Binding)
    (v' : World) (q' : Binding) (verdict : PeerVerdict) : Prop where
  carried : Carried True v q v' q'
  objects : v'.objects = v.objects
  still : verdict = .blocksRecovery ∨
    Still r v' q' ∧ verdict = verdictOf (relevantPlan r m plan v' q')

theorem Goes.renderPeer {q' : Binding} {verdict : PeerVerdict} (hkey : q.key ≠ m.key)
    (hq : Mirrors True v q) (hlives : q.deleting = true → ∃ o, Lives v q o)
    (h : Goes S (r.renderPeer m plan q) v (q', .ok verdict) v') :
    Heard r m plan v q v' q' verdict := by
  rw [Reconciler.renderPeer, if_neg hkey] at h
  obtain ⟨rendered, v₁, hrender, hrest⟩ := leads_bind.mp h
  obtain ⟨hrendered, rfl⟩ := goes_pools (pools_renderIdentityForBinding r q) hrender
  rcases rendered with err | p
  · dsimp only at hrest
    rcases hstate : errorsAsStateError err with _ | stateErr
    · rw [hstate] at hrest
      cases hrest.1
    rw [hstate] at hrest
    obtain ⟨⟨q₁, listErr | _ | ⟨o, objects⟩⟩, v₂, hlist, hend⟩ := leads_bind.mp hrest
    · cases hend.1
    · obtain ⟨hresult, rfl⟩ := hend
      cases hresult
      obtain ⟨hcarried, hsettles, hobjects⟩ := Goes.listManaged hq hlist
      have hnone : q'.record = unrecorded := hsettles.unrecorded
      have hfails : renderedOf r v₂ q' = .error err :=
        (renderedOf_eq hcarried.beside.poolView hcarried.continues).trans hrendered.symm
      have hkey' : q'.key ≠ m.key := by rwa [hcarried.continues.key]
      refine ⟨hcarried, hobjects, Or.inr ⟨?_, ?_⟩⟩
      · by_cases hdeleting : q'.deleting = true
        · exact .gone hdeleting hnone
        · exact .failed hfails hstate (Bool.eq_false_iff.mpr hdeleting) hnone
      · rw [relevantPlan, if_neg hkey', hfails]
        split_ifs <;> rfl
    · obtain ⟨hresult, rfl⟩ := hend
      cases hresult
      obtain ⟨hcarried, -, hobjects⟩ := Goes.listManaged hq hlist
      exact ⟨hcarried, hobjects, Or.inl rfl⟩
  · obtain ⟨hresult, rfl⟩ := hrest
    cases hresult
    have hplan : renderedOf r v₁ q = .ok p := hrendered.symm
    refine ⟨.refl hq, rfl, Or.inr ⟨.rendered hplan hlives, ?_⟩⟩
    have hnot : ¬(q.deleting = true ∧ q.record = unrecorded) := by
      rintro ⟨hdeleting, hnone⟩
      obtain ⟨o, ho⟩ := hlives hdeleting
      exact ho.ne_unrecorded hnone
    rw [relevantPlan, if_neg hkey, if_neg hnot, hplan]
    rfl

theorem Goes.evaluatePeer {q' : Binding} {verdict : PeerVerdict} (hkey : q.key ≠ m.key)
    (hq : Mirrors True v q)
    (h : Goes S (r.identityForConflictEvaluation m plan q) v (q', .ok verdict) v') :
    Heard r m plan v q v' q' verdict := by
  rw [Reconciler.identityForConflictEvaluation] at h
  split_ifs at h with hdeleting
  · obtain ⟨⟨q₁, err | _ | ⟨o, objects⟩⟩, v₁, hlist, hrest⟩ := leads_bind.mp h
    · cases hrest.1
    · obtain ⟨hresult, rfl⟩ := hrest
      cases hresult
      obtain ⟨hcarried, hsettles, hobjects⟩ := Goes.listManaged hq hlist
      have hgone : q'.deleting = true ∧ q'.record = unrecorded :=
        ⟨hcarried.continues.deleting.trans hdeleting, hsettles.unrecorded⟩
      refine ⟨hcarried, hobjects, Or.inr ⟨.gone hgone.1 hgone.2, ?_⟩⟩
      rw [relevantPlan, if_neg (by rwa [hcarried.continues.key]), if_pos hgone]
      rfl
    · obtain ⟨hcarried, hsettles, hobjects⟩ := Goes.listManaged hq hlist
      have hlives : ∃ o, Lives v₁ q₁ o := by
        rcases hsettles with ⟨hnil, -⟩ | ⟨o, -, ho⟩
        · cases hnil
        · exact ⟨o, ho.objects hobjects⟩
      have hrendered := Goes.renderPeer (by rwa [hcarried.continues.key]) hcarried.mirrors
        (fun _ => hlives) hrest
      exact ⟨hcarried.trans hrendered.carried, hrendered.objects.trans hobjects, hrendered.still⟩
  · exact Goes.renderPeer hkey hq (fun h => absurd h hdeleting) h

/-- What the loop over a listing leaves when it ends without a peer that blocks. -/
structure Scanned (r : Reconciler) (m : Binding) (plan : Plan) (v : World) (items : List Binding)
    (scan : PeerScan) (v' : World) (items' : List Binding) (scan' : PeerScan) : Prop
    extends Touched v items v' items' where
  still : StillListing r m v' items'
  objects : v'.objects = v.objects
  own : v'.bindings.get m.key = v.bindings.get m.key
  result : scan' = collected r m plan v' items' scan

theorem collected_cons (scan : PeerScan) (items : List Binding) :
    collected r m plan v (q :: items) scan =
      collected r m plan v items (scan.add q (relevantPlan r m plan v q)) := rfl

/-- Members that block stay in a scan. -/
theorem unblocked_of_scanPeer {scan scan' : PeerScan}
    (h : Goes S (r.scanPeer m plan scan q) v (.ok scan') v') (hfree : scan'.blockedMembers = []) :
    scan.blockedMembers = [] := by
  obtain ⟨⟨q', err | verdict⟩, v₁, -, hrest⟩ := leads_bind.mp h
  · cases hrest.1
  cases verdict <;> obtain ⟨hresult, -⟩ := hrest <;> cases hresult
  · exact hfree
  · exact hfree
  · exact (List.append_eq_nil_iff.mp hfree).1

theorem unblocked_of_scan {items : List Binding} {scan scan' : PeerScan}
    (h : Goes S (Prog.foldM (r.scanPeer m plan) items scan) v (.ok scan') v')
    (hfree : scan'.blockedMembers = []) : scan.blockedMembers = [] := by
  induction items generalizing v scan with
  | nil =>
    cases h.1
    exact hfree
  | cons q items ih =>
    obtain ⟨err | scan₁, v₁, hstep, hrest⟩ := leads_bind.mp h
    · cases hrest.1
    · exact unblocked_of_scanPeer hstep (ih hrest)

theorem Goes.scanPeer {scan scan' : PeerScan} (hq : v.bindings.get q.key = some q)
    (hown : q.key = m.key → q.deleting = false)
    (h : Goes S (r.scanPeer m plan scan q) v (.ok scan') v') (hfree : scan'.blockedMembers = []) :
    ∃ q', Scanned r m plan v [q] scan v' [q'] scan' := by
  obtain ⟨⟨q', err | verdict⟩, v₁, hevaluate, hrest⟩ := leads_bind.mp h
  · cases hrest.1
  -- either way, the copy that comes back is stored and holds still, unless it blocks
  have hcases : verdict = .blocksRecovery ∨ verdict = verdictOf (relevantPlan r m plan v₁ q') ∧
      Touched v [q] v₁ [q'] ∧ StillListing r m v₁ [q'] ∧ v₁.objects = v.objects ∧
      v₁.bindings.get m.key = v.bindings.get m.key := by
    by_cases hkey : q.key = m.key
    · rw [Reconciler.identityForConflictEvaluation, hown hkey, if_neg Bool.false_ne_true,
        Reconciler.renderPeer, if_pos hkey] at hevaluate
      obtain ⟨hresult, rfl⟩ := hevaluate
      cases hresult
      refine Or.inr ⟨?_, touched_self hq, ?_, rfl, rfl⟩
      · rw [relevantPlan, if_pos hkey]
        rfl
      · exact List.forall_mem_singleton.mpr (Or.inl ⟨hkey, hown hkey⟩)
    · have hheard := Goes.evaluatePeer hkey (mirrors_of_get hq) hevaluate
      rcases hheard.still with hblocks | ⟨hstill, hverdict⟩
      · exact Or.inl hblocks
      refine Or.inr ⟨hverdict, hheard.carried.touched, ?_, hheard.objects,
        hheard.carried.beside.others m.key (Ne.symm hkey)⟩
      refine List.forall_mem_singleton.mpr (Or.inr ⟨?_, hstill⟩)
      rwa [hheard.carried.continues.key]
  rcases hcases with rfl | ⟨rfl, htouched, hstill, hobjects, hself⟩
  · obtain ⟨hresult, rfl⟩ := hrest
    cases hresult
    simp at hfree
  have hresult : scan' = scan.add q' (relevantPlan r m plan v₁ q') ∧ v₁ = v' := by
    cases hplan : relevantPlan r m plan v₁ q' <;> rw [hplan] at hrest <;>
      exact ⟨(Except.ok.inj hrest.1).symm, hrest.2⟩
  obtain ⟨rfl, rfl⟩ := hresult
  exact ⟨q', htouched, hstill, hobjects, hself, rfl⟩

/-- One peer after the other. -/
theorem Scanned.cons {items items' : List Binding} {scan scan₁ scan' : PeerScan} {q' : Binding}
    (h : Scanned r m plan v [q] scan v' [q'] scan₁)
    (h' : Scanned r m plan v' items scan₁ v'' items' scan') (hnew : q.key ∉ items.map Binding.key) :
    Scanned r m plan v (q :: items) scan v'' (q' :: items') scan' := by
  refine ⟨h.toTouched.cons h'.toTouched hnew, List.forall_mem_cons.mpr ⟨?_, h'.still⟩,
    h'.objects.trans h.objects, h'.own.trans h.own, ?_⟩
  · exact (h.still q' List.mem_cons_self).imp_right fun ⟨hkey, hstill⟩ =>
      ⟨hkey, hstill.congr h'.objects h'.poolView⟩
  · rw [h'.result, h.result, collected_cons, collected_cons, relevantPlan_congr h'.poolView]
    rfl

theorem Goes.scan {items : List Binding} {scan scan' : PeerScan}
    (hitems : ∀ q ∈ items, v.bindings.get q.key = some q) (hnodup : (items.map Binding.key).Nodup)
    (hown : ∀ q ∈ items, q.key = m.key → q.deleting = false)
    (h : Goes S (Prog.foldM (r.scanPeer m plan) items scan) v (.ok scan') v')
    (hfree : scan'.blockedMembers = []) :
    ∃ items', Scanned r m plan v items scan v' items' scan' := by
  induction items generalizing v scan with
  | nil =>
    obtain ⟨hresult, rfl⟩ := h
    cases hresult
    exact ⟨[], .nil v, List.forall_mem_nil _, rfl, rfl, rfl⟩
  | cons q items ih =>
    rw [List.forall_mem_cons] at hitems hown
    obtain ⟨hnew, hnodup⟩ := List.nodup_cons.mp hnodup
    obtain ⟨err | scan₁, v₁, hstep, hrest⟩ := leads_bind.mp h
    · cases hrest.1
    obtain ⟨q', hscanned⟩ := Goes.scanPeer hitems.1 hown.1 hstep (unblocked_of_scan hrest hfree)
    obtain ⟨items', hrest'⟩ := ih (hscanned.stored_rest hitems.2 hnew) hnodup hown.2 hrest
    exact ⟨q' :: items', hscanned.cons hrest' hnew⟩

/-- What an evaluation leaves that ends without a peer that blocks. -/
structure Surveyed (r : Reconciler) (m : Binding) (plan : Plan) (v v' : World)
    (state : BindingConflictState) : Prop where
  listing : ∃ items, items.Perm (neighbours m v') ∧ state = listedState r m plan v' items
  still : StillListing r m v' (neighbours m v')
  poolView : v'.poolView = v.poolView
  own : v'.bindings.get m.key = v.bindings.get m.key

/-- The copies that a scan leaves are what is stored in the namespace then. -/
theorem Scanned.perm {items items' : List Binding} {scan scan' : PeerScan}
    (h : Scanned r m plan v items scan v' items' scan') (hitems : items.Perm (neighbours m v)) :
    items'.Perm (neighbours m v') := by
  have hkeys := h.keys
  have hnodup : ∀ v : World, (neighbours m v).Nodup :=
    fun v => (List.Nodup.of_map Binding.key v.bindings.nodup).filter _
  have hnodup' : (items'.map Binding.key).Nodup := by
    rw [hkeys]
    exact (hitems.map Binding.key).nodup_iff.mpr
      (v.bindings.nodup.sublist (List.filter_sublist.map Binding.key))
  refine (List.perm_ext_iff_of_nodup (List.Nodup.of_map _ hnodup') (hnodup v')).mpr
    fun q => ⟨?_, ?_⟩
  · intro hq
    have hkey : q.key ∈ items.map Binding.key := hkeys ▸ List.mem_map_of_mem hq
    obtain ⟨x, hx, hkey⟩ := List.mem_map.mp hkey
    have hns := (List.mem_filter.mp (hitems.mem_iff.mp hx)).2
    rw [hkey] at hns
    exact List.mem_filter.mpr ⟨(Store.get_eq_some.mp (h.stored q hq)).1, hns⟩
  · intro hq
    obtain ⟨hmem, hns⟩ := List.mem_filter.mp hq
    have hget : v'.bindings.get q.key = some q := Store.get_eq_some.mpr ⟨hmem, rfl⟩
    by_cases hkey : q.key ∈ items'.map Binding.key
    · obtain ⟨x, hx, hkey⟩ := List.mem_map.mp hkey
      have hstored := h.stored x hx
      rw [hkey] at hstored
      obtain rfl := Option.some.inj (hstored.symm.trans hget)
      exact hx
    · rw [hkeys] at hkey
      rw [h.others q.key hkey] at hget
      refine absurd (List.mem_map_of_mem (hitems.mem_iff.mpr ?_)) hkey
      exact List.mem_filter.mpr ⟨(Store.get_eq_some.mp hget).1, hns⟩

theorem Goes.evaluate {state : BindingConflictState}
    (hown : ∀ b, v.bindings.get m.key = some b → b.deleting = false)
    (h : Goes S (r.evaluateBindingConflicts m plan) v (.ok state) v')
    (hfree : state.blocked = false) : Surveyed r m plan v v' state := by
  obtain ⟨err | items, v₁, hlist, hrest⟩ := leads_bind.mp h
  · cases hrest.1
  obtain ⟨rfl, items', hitems', hperm⟩ := (Goes.served hlist).listBindings
  cases hitems'
  obtain ⟨err | scan, v₂, hscan, hend⟩ := leads_bind.mp hrest
  · cases hend.1
  obtain ⟨hresult, rfl⟩ := hend
  cases hresult
  have hstored : ∀ q ∈ items, v₁.bindings.get q.key = some q := fun q hq =>
    Store.get_eq_some.mpr ⟨List.mem_of_mem_filter (hperm.mem_iff.mp hq), rfl⟩
  have hnodup : (items.map Binding.key).Nodup :=
    (hperm.map Binding.key).nodup_iff.mpr
      (v₁.bindings.nodup.sublist (List.filter_sublist.map Binding.key))
  obtain ⟨items', hscanned⟩ := Goes.scan hstored hnodup
    (fun q hq hkey => hown q (hkey ▸ hstored q hq)) hscan
    ((blocked_conflictStateOf m scan).mp hfree)
  have hperm' := hscanned.perm hperm
  refine ⟨⟨items', hperm', ?_⟩, fun q hq => hscanned.still q (hperm'.mem_iff.mpr hq),
    hscanned.poolView, hscanned.own⟩
  rw [listedState, ← hscanned.result]

/-! ## Withdrawing -/

theorem Goes.cleanupCopies {qs : List Binding} {members : List ConflictMember}
    (hstored : ∀ q ∈ qs, v.bindings.get q.key = some q) (hnodup : (qs.map Binding.key).Nodup)
    (h : Goes S (cleanupMembers P (qs.map .copy) m) v (m', .ok members) v') :
    m' = m ∧ ∃ qs', members = qs'.map .copy ∧ Touched v qs v' qs' := by
  induction qs generalizing v members with
  | nil =>
    obtain ⟨hresult, rfl⟩ := h
    cases hresult
    exact ⟨rfl, [], rfl, .nil v⟩
  | cons q qs ih =>
    rw [List.forall_mem_cons] at hstored
    obtain ⟨hnew, hnodup⟩ := List.nodup_cons.mp hnodup
    obtain ⟨⟨q', err | ⟨⟩⟩, v₁, hcleanup, hrest⟩ := leads_bind.mp h
    · cases hrest.1
    have htouched := (Goes.cleanupManaged (mirrors_of_get hstored.1) hcleanup).touched
    obtain ⟨⟨m₁, err | members₁⟩, v₂, hloop, hend⟩ := leads_bind.mp hrest
    · cases hend.1
    obtain ⟨hresult, rfl⟩ := hend
    cases hresult
    obtain ⟨rfl, qs', rfl, hrest'⟩ := ih (htouched.stored_rest hstored.2 hnew) hnodup hloop
    exact ⟨rfl, q' :: qs', rfl, htouched.cons hrest' hnew⟩

theorem Goes.confirmCopies {qs : List Binding}
    (hstored : ∀ q ∈ qs, v.bindings.get q.key = some q) (hnodup : (qs.map Binding.key).Nodup)
    (h : Goes S (confirmMembersAbsent P (qs.map .copy) m) v (m', .ok true) v') :
    m' = m ∧ ∃ qs', Touched v qs v' qs' ∧ ∀ q ∈ qs', q.record = unrecorded := by
  induction qs generalizing v with
  | nil =>
    obtain ⟨hresult, rfl⟩ := h
    cases hresult
    exact ⟨rfl, [], .nil v, List.forall_mem_nil _⟩
  | cons q qs ih =>
    rw [List.forall_mem_cons] at hstored
    obtain ⟨hnew, hnodup⟩ := List.nodup_cons.mp hnodup
    obtain ⟨⟨q', err | _ | ⟨o, objects⟩⟩, v₁, hlist, hrest⟩ := leads_bind.mp h
    · cases hrest.1
    · obtain ⟨hcarried, hsettles, -⟩ := Goes.listManaged (mirrors_of_get hstored.1) hlist
      have htouched := hcarried.touched
      obtain ⟨rfl, qs', hrest', hnone⟩ := ih (htouched.stored_rest hstored.2 hnew) hnodup hrest
      exact ⟨rfl, q' :: qs', htouched.cons hrest' hnew,
        List.forall_mem_cons.mpr ⟨hsettles.unrecorded, hnone⟩⟩
    · cases hrest.1

/-- What a withdrawal leaves that finds everything gone. -/
structure WithdrawnAll (v : World) (qs : List Binding) (v' : World) : Prop where
  copies : LaterCopies v v'
  poolView : v'.poolView = v.poolView
  others : ∀ k, k ∉ qs.map Binding.key → v'.bindings.get k = v.bindings.get k
  outputs : ∀ owner o, (∀ q ∈ qs, q.uid ≠ owner) → v.Output owner o → v'.Output owner o
  unrecorded : ∀ k ∈ qs.map Binding.key, ∀ q, v'.bindings.get k = some q → q.record = unrecorded

theorem Goes.withdraw {qs : List Binding} (hstored : ∀ q ∈ qs, v.bindings.get q.key = some q)
    (hnodup : (qs.map Binding.key).Nodup)
    (h : Goes S (withdrawConflictOutputs P (qs.map .copy) m) v (m', .ok true) v') :
    m' = m ∧ WithdrawnAll v qs v' := by
  obtain ⟨⟨m₁, err | members⟩, v₁, hcleanup, hconfirm⟩ := leads_bind.mp h
  · cases hconfirm.1
  obtain ⟨rfl, qs₁, rfl, hcleaned⟩ := Goes.cleanupCopies hstored hnodup hcleanup
  obtain ⟨rfl, qs₂, hconfirmed, hnone⟩ :=
    Goes.confirmCopies hcleaned.stored (hcleaned.keys ▸ hnodup) hconfirm
  refine ⟨rfl, (hcleaned.laterCopies hstored).trans (hconfirmed.laterCopies hcleaned.stored),
    hconfirmed.poolView.trans hcleaned.poolView, fun k hk => ?_, fun owner o hne ho => ?_,
    fun k hk q hq => ?_⟩
  · rw [hconfirmed.others k (by rwa [hcleaned.keys]), hcleaned.others k hk]
  · refine hconfirmed.outputs owner o ?_ (hcleaned.outputs owner o hne ho)
    intro q' hq'
    obtain ⟨q, hq, hcontinues⟩ := hcleaned.exists_before q' hq'
    rw [hcontinues.uid]
    exact hne q hq
  · rw [← hcleaned.keys, ← hconfirmed.keys] at hk
    obtain ⟨q', hq', rfl⟩ := List.mem_map.mp hk
    obtain rfl := Option.some.inj ((hconfirmed.stored q' hq').symm.trans hq)
    exact hnone q' hq'

end Kleym
