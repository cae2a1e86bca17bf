import Kleym.Trial

/-!
# Ownership over whole runs

What the operator keeps about the objects it owns, in every state of every run: it
changes and deletes only what it created for the binding at hand, a record and the
finalizer move only on what the reconcile has seen, a binding has one live output at
most, and, where no reconcile takes its own claim away from under itself, nothing the
operator created is ever lost track of.
-/

namespace Kleym

open GoString Prog

variable {r : Reconciler} {S : Setting} {s : SystemState} {w : World}

/-! ## Foreign objects -/

/-- The UID of the binding for which a call changes or deletes a `ClusterSPIFFEID`. -/
def Call.mutatesFor : Call → Option GoString
  | .updateClusterSPIFFEID owner _ => some owner
  | .deleteClusterSPIFFEID owner _ _ => some owner
  | _ => none

/-- The object that a call no longer finds as it was: the target of an update or a
deletion whose conditions it met. -/
theorem mutated_cases {choice : Choice} {c : Call} {o : ClusterSPIFFEID}
    (ho : o ∈ w.objects.entries) (hgone : o ∉ (respond choice c w).2.objects.entries) :
    (∃ owner object, c = .updateClusterSPIFFEID owner object ∧ o.uid = object.uid) ∨
      ∃ owner name, c = .deleteClusterSPIFFEID owner name o.uid := by
  generalize hw' : (respond choice c w).2 = w' at hgone
  have heffect : Effect c w choice.fresh w' := hw' ▸ respond_effect choice c w
  cases heffect with
  | none => exact absurd ho hgone
  | updateBinding hstored =>
    refine absurd ho ?_
    rw [World.settleBinding] at hgone
    split_ifs at hgone <;> exact hgone
  | patchBindingStatus => exact absurd ho hgone
  | create habsent =>
    exact (hgone (Store.mem_put.mpr (Or.inr ⟨ho, Store.get_eq_none.mp habsent o ho⟩))).elim
  | @updateObject owner _ object stored _ hstored _ huid =>
    obtain ⟨hmem, hname⟩ := Store.get_eq_some.mp hstored
    by_cases hsame : o.name = object.name
    · rw [w.objects.eq_of_key_eq ho hmem (hsame.trans hname.symm)]
      exact Or.inl ⟨owner, object, rfl, huid⟩
    · exact (hgone (Store.mem_put.mpr (Or.inr ⟨ho, hsame⟩))).elim
  | @terminate owner name _ _ stored _ hstored huid =>
    obtain ⟨hmem, hname⟩ := Store.get_eq_some.mp hstored
    by_cases hsame : o.name = stored.name
    · rw [w.objects.eq_of_key_eq ho hmem hsame, huid]
      exact Or.inr ⟨owner, name, rfl⟩
    · exact (hgone (Store.mem_put.mpr (Or.inr ⟨ho, hsame⟩))).elim
  | @remove owner name _ _ stored _ hstored huid =>
    obtain ⟨hmem, hname⟩ := Store.get_eq_some.mp hstored
    by_cases hsame : o.name = stored.name
    · rw [w.objects.eq_of_key_eq ho hmem hsame, huid]
      exact Or.inr ⟨owner, name, rfl⟩
    · exact (hgone (Store.mem_erase.mpr ⟨ho, fun h => hsame (h.trans hname.symm)⟩)).elim
  | issue => exact absurd ho hgone

/-- **Foreign objects are never mutated.** Whatever others do to objects and bindings,
however stale the reads and however many reconciles run: an object that a call of the
operator changes or removes was created by the operator, for the binding that the call
is made for. -/
theorem mutated_object_is_own (hS : S.Honest) (h : Reachable r S s) {c : Call}
    {k : Answer c → Op (Except GoError ReconcileResult)} {log : Log}
    (ht : ⟨.call c k, log⟩ ∈ s.threads) (choice : Choice) {o : ClusterSPIFFEID}
    (ho : o ∈ s.world.objects.entries)
    (hgone : o ∉ (respond choice c s.world).2.objects.entries) :
    ∃ owner, c.mutatesFor = some owner ∧ (o.uid, owner) ∈ s.world.created := by
  have hguard := h.guarded ht
  rcases mutated_cases ho hgone with ⟨owner, object, rfl, huid⟩ | ⟨owner, name, rfl⟩
  · have hguard : ObjectUpdate S s.world owner object := hguard
    exact ⟨owner, rfl, huid ▸ hguard.created hS⟩
  · have hguard : Deletion S s.world owner o.uid := hguard
    exact ⟨owner, rfl, hguard.created hS⟩

/-- The next call leaves no object, where there was one. -/
def SystemState.emptiesObjects (s : SystemState) : Bool :=
  !s.world.objects.entries.isEmpty &&
    s.nextCall.any fun c => (respond (.plain []) c s.world).2.objects.entries.isEmpty

theorem mutated_object_is_own_trial :
    ∃ s c o owner, Reachable trialReconciler busySetting s ∧ s.nextCall = some c ∧
      o ∈ s.world.objects.entries ∧ c.mutatesFor = some owner ∧
      (o.uid, owner) ∈ s.world.created := by
  obtain ⟨s, hs, htest⟩ := exists_reachable (r := trialReconciler) (S := busySetting)
    (trialReady ++ [.edit "x" "w", .start (trialKey "x"), .proceed 4]) SystemState.emptiesObjects
    (by decide +kernel)
  simp only [SystemState.emptiesObjects, Bool.and_eq_true, Bool.not_eq_true', Option.any_eq_true,
    List.isEmpty_eq_false_iff, List.isEmpty_iff] at htest
  obtain ⟨hne, c, hnext, hnil⟩ := htest
  obtain ⟨o, ho⟩ := List.exists_mem_of_ne_nil _ hne
  obtain ⟨k, log, ht⟩ := SystemState.exists_thread hnext
  obtain ⟨owner, hc, hcreated⟩ :=
    mutated_object_is_own (S := busySetting) rfl hs ht (.plain []) ho (hnil ▸ List.not_mem_nil)
  exact ⟨s, c, o, owner, hs, hnext, ho, hc, hcreated⟩

/-! ## Records and the finalizer -/

/-- The moves of an ownership record, each with what the reconcile has seen. -/
inductive RecordMove (log : Log) (b : Binding) : Record → Prop
  /-- a free name, and a claim generated for the binding -/
  | reserve {name claim : GoString} (hfrom : b.record = unrecorded) (hread : ReadAbsent log name)
      (hclaim : Generated log b.uid claim) : RecordMove log b (some ⟨name, claim⟩, none)
  /-- the object of the claim, read or just created -/
  | confirm {pending : PendingClusterSPIFFEIDStatus} {uid : GoString}
      (hfrom : b.record = (some pending, none)) (hsighted : Sighted log b.uid pending uid) :
      RecordMove log b (none, some ⟨pending.name, uid⟩)
  /-- the recorded name without the recorded object -/
  | clear (hfrom : b.record ≠ unrecorded) (hvanished : Vanished log b.status) :
      RecordMove log b unrecorded

/-- What a status names is in its record. -/
theorem Vanished.congr {log : Log} {status status' : Status} (h : Vanished log status)
    (hrecord : status'.record = status.record) : Vanished log status' := by
  obtain ⟨hpending, howned⟩ := record_eq_iff.mp hrecord
  have hname : recordedClusterSPIFFEIDName status' = recordedClusterSPIFFEIDName status := by
    rw [recordedClusterSPIFFEIDName, recordedClusterSPIFFEIDName, hpending, howned]
  rwa [Vanished, hname, hpending, howned]

/-- An ownership patch that takes effect moves the record on evidence. -/
theorem recordMove_of_transfer {log : Log} {base stored : Binding} {status : Status}
    (hrecord : stored.record = base.record) (huid : stored.uid = base.uid)
    (h : Transfer S log w base status) :
    RecordMove log stored (stored.patchedBy base status).record := by
  rw [Binding.record, Binding.patchedBy, record_mergeStatus status hrecord]
  cases h with
  | reserve hnone hread hgenerated =>
    exact .reserve (hrecord.trans hnone) hread (huid ▸ hgenerated)
  | confirm hsome hsighted => exact .confirm (hrecord.trans hsome) (huid ▸ hsighted)
  | clear hsome hvanished => exact .clear (hrecord ▸ hsome) (hvanished.congr hrecord)

/-- A stored binding after a call, with the binding it was before: the record is the same,
or an ownership patch has moved it. -/
theorem record_of_respond (h : Inv S w) {c : Call} {log : Log} (hguard : Guard r S log w c)
    (choice : Choice) {b' : Binding} (hb' : b' ∈ (respond choice c w).2.bindings.entries) :
    ∃ b ∈ w.bindings.entries, b.uid = b'.uid ∧ (b'.record = b.record ∨
      (∃ base status, c = .patchBindingStatus .ownership base status) ∧
        RecordMove log b b'.record) := by
  generalize hw' : (respond choice c w).2 = w' at hb'
  have heffect : Effect c w choice.fresh w' := hw' ▸ respond_effect choice c w
  cases heffect with
  | updateBinding hstored =>
    obtain ⟨hmem, -⟩ := Store.get_eq_some.mp hstored
    rw [World.settleBinding] at hb'
    split_ifs at hb'
    · exact ⟨b', (Store.mem_erase.mp hb').1, rfl, Or.inl rfl⟩
    · rcases Store.mem_put.mp hb' with rfl | ⟨hb', -⟩
      · exact ⟨_, hmem, rfl, Or.inl rfl⟩
      · exact ⟨b', hb', rfl, Or.inl rfl⟩
  | @patchBindingStatus kind base stored status _ _ hstored hversion =>
    obtain ⟨hmem, -⟩ := Store.get_eq_some.mp hstored
    rcases Store.mem_put.mp hb' with rfl | ⟨hb', -⟩
    swap
    · exact ⟨b', hb', rfl, Or.inl rfl⟩
    refine ⟨stored, hmem, rfl, ?_⟩
    cases kind with
    | ownership =>
      obtain ⟨hbased, htransfer⟩ := hguard
      obtain ⟨hcopy, hrecord, -⟩ := hbased.stored_eq h.history hstored hversion
      have huid : stored.uid = base.uid := by rw [hcopy]
      exact Or.inr ⟨⟨base, status, rfl⟩, recordMove_of_transfer hrecord huid htransfer⟩
    | ordinary =>
      have hguard : OrdinaryPatch r S log w base status := hguard
      obtain rfl := h.history.binding_inj base hguard.base_mem stored
        (h.history.binding_mem stored hmem) hversion.symm
      exact Or.inl ((record_mergeStatus status rfl).trans hguard.record)
  | _ => exact ⟨b', hb', rfl, Or.inl rfl⟩

/-- The binding that a call takes the finalizer from is being deleted and owns nothing. -/
theorem finalizer_of_respond (h : Inv S w) {c : Call} {log : Log} (hguard : Guard r S log w c)
    (choice : Choice) {b : Binding} (hb : b ∈ w.bindings.entries)
    (hfin : inferenceIdentityBindingFinalizer ∈ b.finalizers)
    (hgone : ∀ b' ∈ (respond choice c w).2.bindings.entries, b'.uid = b.uid →
      inferenceIdentityBindingFinalizer ∉ b'.finalizers) :
    b.deleting = true ∧ b.record = unrecorded := by
  generalize hw' : (respond choice c w).2 = w' at hgone
  have heffect : Effect c w choice.fresh w' := hw' ▸ respond_effect choice c w
  cases heffect with
  | @updateBinding target stored _ _ hstored hversion huid =>
    have hguard : FinalizerUpdate S w target := hguard
    obtain ⟨hmem, hkey⟩ := Store.get_eq_some.mp hstored
    obtain ⟨v, hv, hrv, -, hcase⟩ := hguard.version
    obtain rfl := h.history.binding_inj v hv stored (h.history.binding_mem stored hmem)
      (hrv.trans hversion.symm)
    rw [World.settleBinding] at hgone
    -- another binding stays as it is, and still has its finalizer
    by_cases hsame : b.key = v.key
    · obtain rfl := w.bindings.eq_of_key_eq hb hmem hsame
      rcases hcase with hadd | ⟨hdeleting, hnone, -⟩
      · rw [if_neg (by simp [Binding.replacedBy, hadd])] at hgone
        refine absurd ?_ (hgone _ (Store.mem_put.mpr (Or.inl rfl)) rfl)
        simp [Binding.replacedBy, hadd]
      · exact ⟨hdeleting, hnone⟩
    · refine absurd hfin (hgone b ?_ rfl)
      split_ifs
      · exact Store.mem_erase.mpr ⟨hb, hsame⟩
      · exact Store.mem_put.mpr (Or.inr ⟨hb, hsame⟩)
  | @patchBindingStatus _ base stored status _ _ hstored =>
    obtain ⟨hmem, -⟩ := Store.get_eq_some.mp hstored
    by_cases hsame : b.key = stored.key
    · obtain rfl := w.bindings.eq_of_key_eq hb hmem hsame
      exact (hgone _ (Store.mem_put.mpr (Or.inl rfl)) rfl hfin).elim
    · exact absurd hfin (hgone b (Store.mem_put.mpr (Or.inr ⟨hb, hsame⟩)) rfl)
  | _ => exact absurd hfin (hgone b hb rfl)

/-- **Ownership and the finalizer change only on evidence.** In every setting, also where
others write records as they like, and for every answer to a call: a record changes only
by an ownership patch, and as what the reconcile has seen allows; it never names two
things; the finalizer goes only from a binding that is being deleted and has no record. -/
theorem ownership_moves_on_evidence (h : Reachable r S s) {c : Call}
    {k : Answer c → Op (Except GoError ReconcileResult)} {log : Log}
    (ht : ⟨.call c k, log⟩ ∈ s.threads) (choice : Choice) :
    (∀ b ∈ s.world.bindings.entries,
      b.status.pendingClusterSPIFFEID = none ∨ b.status.ownedClusterSPIFFEID = none) ∧
    (∀ b' ∈ (respond choice c s.world).2.bindings.entries, ∃ b ∈ s.world.bindings.entries,
      b.uid = b'.uid ∧ (b'.record = b.record ∨
        (∃ base status, c = .patchBindingStatus .ownership base status) ∧
          RecordMove log b b'.record)) ∧
    ∀ b ∈ s.world.bindings.entries, inferenceIdentityBindingFinalizer ∈ b.finalizers →
      (∀ b' ∈ (respond choice c s.world).2.bindings.entries, b'.uid = b.uid →
        inferenceIdentityBindingFinalizer ∉ b'.finalizers) →
      b.deleting = true ∧ b.record = unrecorded := by
  refine ⟨fun b hb => ?_, fun b' hb' => record_of_respond h.inv (h.guarded ht) choice hb',
    fun b hb => finalizer_of_respond h.inv (h.guarded ht) choice hb⟩
  have hadmitted := (h.inv.history.admitted b (h.inv.history.binding_mem b hb)).1
  rw [not_and_or, Option.not_isSome_iff_eq_none, Option.not_isSome_iff_eq_none] at hadmitted
  exact hadmitted

/-- A run in which anything goes. -/
def lawlessSetting : Setting := ⟨true, true, true, true, true, fun _ _ => true⟩

/-- The next call gives every binding a record, where none had one. -/
def SystemState.recordsAll (s : SystemState) : Bool :=
  decide (∀ b ∈ s.world.bindings.entries, b.record = unrecorded) &&
    s.nextCall.any fun c =>
      !(respond (.plain []) c s.world).2.bindings.entries.isEmpty &&
      decide (∀ b ∈ (respond (.plain []) c s.world).2.bindings.entries, b.record ≠ unrecorded)

theorem ownership_moves_on_evidence_trial :
    ∃ s c log b b', Reachable trialReconciler lawlessSetting s ∧ s.nextCall = some c ∧
      b ∈ s.world.bindings.entries ∧ b' ∈ (respond (.plain []) c s.world).2.bindings.entries ∧
      b.uid = b'.uid ∧ RecordMove log b b'.record := by
  obtain ⟨s, hs, htest⟩ := exists_reachable (r := trialReconciler) (S := lawlessSetting)
    (trialPrelude ++ [.start (trialKey "x"), .proceed 6]) SystemState.recordsAll
    (by decide +kernel)
  simp only [SystemState.recordsAll, Bool.and_eq_true, Bool.not_eq_true', Option.any_eq_true,
    List.isEmpty_eq_false_iff, decide_eq_true_eq] at htest
  obtain ⟨hnone, c, hnext, hne, hsome⟩ := htest
  obtain ⟨b', hb'⟩ := List.exists_mem_of_ne_nil _ hne
  obtain ⟨k, log, ht⟩ := SystemState.exists_thread hnext
  obtain ⟨-, hrecords, -⟩ := ownership_moves_on_evidence hs ht (.plain [])
  obtain ⟨b, hb, huid, hsame | ⟨-, hmove⟩⟩ := hrecords b' hb'
  · exact absurd (hsame.trans (hnone b hb)) (hsome b' hb')
  · exact ⟨s, c, log, b, b', hs, hnext, hb, hb', huid, hmove⟩

/-! ## One output -/

/-- A create that takes effect finds its name free. -/
theorem free_of_create {choice : Choice} {owner : GoString} {object : ClusterSPIFFEID}
    (h : (respond choice (.createClusterSPIFFEID owner object) w).2.objects ≠ w.objects) :
    ∀ o ∈ w.objects.entries, o.name ≠ object.name := by
  generalize hw' : (respond choice (.createClusterSPIFFEID owner object) w).2 = w' at h
  have heffect : Effect (.createClusterSPIFFEID owner object) w choice.fresh w' :=
    hw' ▸ respond_effect choice _ w
  cases heffect with
  | none => exact absurd rfl h
  | create habsent => exact Store.get_eq_none.mp habsent

/-- **At most one live output per binding, across renames.** At every moment the operator
has one live object for a binding at most, whatever its name and be it terminating or
not, and a create takes effect only when there is none. -/
theorem one_output_across_renames (hS : S.Closed) (h : Reachable r S s) :
    (∀ u o o', s.world.Output u o → s.world.Output u o' → o = o') ∧
    ∀ (owner : GoString) (object : ClusterSPIFFEID)
      (k : Answer (.createClusterSPIFFEID owner object) → Op (Except GoError ReconcileResult))
      (log : Log), ⟨.call (.createClusterSPIFFEID owner object) k, log⟩ ∈ s.threads →
      ∀ choice, (respond choice (.createClusterSPIFFEID owner object) s.world).2.objects ≠
        s.world.objects → ∀ o, ¬s.world.Output owner o := by
  refine ⟨(h.inv.accounted hS).single, fun owner object k log ht choice hchanged o ho => ?_⟩
  have hguard : Creation S s.world owner object := h.guarded ht
  exact free_of_create hchanged o ho.1 (hguard.covered hS o ho)

/-- There is an object, and everything in the store was created by the operator. -/
def SystemState.hasOutputs (s : SystemState) : Bool :=
  !s.world.objects.entries.isEmpty &&
    decide (∀ o ∈ s.world.objects.entries, ∃ e ∈ s.world.created, e.1 = o.uid)

theorem SystemState.exists_output (h : s.hasOutputs = true) : ∃ u o, s.world.Output u o := by
  simp only [SystemState.hasOutputs, Bool.and_eq_true, Bool.not_eq_true',
    List.isEmpty_eq_false_iff, decide_eq_true_eq] at h
  obtain ⟨o, ho⟩ := List.exists_mem_of_ne_nil _ h.1
  obtain ⟨⟨uid, u⟩, he, rfl⟩ := h.2 o ho
  exact ⟨u, o, ho, he⟩

/-- `x` has an output for the variant `v` and asks for `w`; the operator makes so many calls. -/
def renameMoves (calls : ℕ) : List Move :=
  trialReady ++ [.edit "x" "w", .start (trialKey "x"), .proceed calls]

/-- There has been an object for the same binding under another name. -/
def SystemState.renamed (s : SystemState) (u name : GoString) : Bool :=
  s.world.objectVersions.any fun old =>
    decide (old.name ≠ name) && decide ((old.uid, u) ∈ s.world.created)

theorem SystemState.exists_old {u name : GoString} (h : s.renamed u name = true) :
    ∃ old ∈ s.world.objectVersions, old.name ≠ name ∧ (old.uid, u) ∈ s.world.created := by
  obtain ⟨old, hold, htest⟩ := List.any_eq_true.mp h
  rw [Bool.and_eq_true, decide_eq_true_eq, decide_eq_true_eq] at htest
  exact ⟨old, hold, htest⟩

/-- The next call creates an object under another name. -/
def SystemState.recreates (s : SystemState) : Bool :=
  match s.nextCall with
  | some (.createClusterSPIFFEID owner object) =>
    s.renamed owner object.name && (s.world.objects.get object.name).isNone &&
      ((respond {} (.createClusterSPIFFEID owner object) s.world).2.objects.get object.name).isSome
  | _ => false

/-- The output of `x` is renamed. Before the new object is created there is none, and then it is
the only one. -/
theorem one_output_across_renames_trial :
    (∃ s owner object, Reachable trialReconciler (closedSetting fun _ _ => true) s ∧
      s.nextCall = some (.createClusterSPIFFEID owner object) ∧
      (respond {} (.createClusterSPIFFEID owner object) s.world).2.objects ≠ s.world.objects ∧
      (∃ old ∈ s.world.objectVersions, old.name ≠ object.name ∧
        (old.uid, owner) ∈ s.world.created) ∧
      ∀ o, ¬s.world.Output owner o) ∧
    ∃ s u o, Reachable trialReconciler (closedSetting fun _ _ => true) s ∧ s.world.Output u o ∧
      (∃ old ∈ s.world.objectVersions, old.name ≠ o.name ∧ (old.uid, u) ∈ s.world.created) ∧
      ∀ o', s.world.Output u o' → o' = o := by
  constructor
  · obtain ⟨s, hs, htest⟩ := exists_reachable (r := trialReconciler)
      (S := closedSetting fun _ _ => true) (renameMoves 10) SystemState.recreates
      (by decide +kernel)
    obtain ⟨-, hcreate⟩ := one_output_across_renames (closed_closedSetting _) hs
    unfold SystemState.recreates at htest
    split at htest
    · rename_i owner object hnext
      obtain ⟨k, log, hthread⟩ := SystemState.exists_thread hnext
      simp only [Bool.and_eq_true, Option.isNone_iff_eq_none] at htest
      obtain ⟨⟨hold, habsent⟩, hcreated⟩ := htest
      have hchanged : (respond {} (.createClusterSPIFFEID owner object) s.world).2.objects ≠
          s.world.objects := by
        intro hsame
        rw [hsame, habsent] at hcreated
        cases hcreated
      exact ⟨s, owner, object, hs, hnext, hchanged, SystemState.exists_old hold,
        hcreate owner object k log hthread {} hchanged⟩
    · cases htest
  · obtain ⟨s, hs, htest⟩ := exists_reachable (r := trialReconciler)
      (S := closedSetting fun _ _ => true) (renameMoves 16)
      (fun s => s.hasOutputs && s.world.objects.entries.all fun o =>
        s.world.created.all fun e => s.renamed e.2 o.name) (by decide +kernel)
    obtain ⟨houtputs, hall⟩ := (Bool.and_eq_true _ _).mp htest
    obtain ⟨u, o, ho⟩ := SystemState.exists_output houtputs
    obtain ⟨hone, -⟩ := one_output_across_renames (closed_closedSetting _) hs
    have hold := List.all_eq_true.mp (List.all_eq_true.mp hall o ho.1) _ ho.2
    exact ⟨s, u, o, hs, ho, SystemState.exists_old hold, fun o' ho' => hone u o' o ho' ho⟩

/-! ## No lost output -/

/-- **No leaked registration**, where no binding that is being deleted has its namespace
listed by its own reconcile while its pending claim has no object: every live object the
operator created for a binding is recorded in the binding, which has the finalizer. -/
theorem outputs_recorded_and_pinned (hS : S.Closed)
    (hlisting : ∀ key w, S.listing key w = true → selfSettled key w = true)
    (h : Reachable r S s) {u : GoString} {o : ClusterSPIFFEID} (ho : s.world.Output u o) :
    ∃ b ∈ s.world.bindings.entries, b.uid = u ∧ Covers b.record o ∧
      inferenceIdentityBindingFinalizer ∈ b.finalizers := by
  have hstrict : S.Strict := ⟨hS, Or.inr hlisting⟩
  have hacc := h.inv.accounted hS
  obtain ⟨b, hb, rfl⟩ := hacc.stored hstrict u o ho
  have hcovers := hacc.covered b hb (Or.inl hstrict) o ho
  refine ⟨b, hb, rfl, hcovers, hacc.pinned b hb fun hnone => ?_⟩
  exact not_covers_unrecorded o (hnone ▸ hcovers)

theorem outputs_recorded_and_pinned_trial :
    ∃ s o, ∃ b ∈ s.world.bindings.entries,
      Reachable trialReconciler (closedSetting selfSettled) s ∧ s.world.Output b.uid o ∧
      Covers b.record o ∧ inferenceIdentityBindingFinalizer ∈ b.finalizers := by
  obtain ⟨s, hs, htest⟩ := exists_reachable (r := trialReconciler)
    (S := closedSetting selfSettled) trialReady SystemState.hasOutputs (by decide +kernel)
  obtain ⟨u, o, ho⟩ := SystemState.exists_output htest
  obtain ⟨b, hb, rfl, hcovers, hfin⟩ :=
    outputs_recorded_and_pinned (closed_closedSetting _) (fun _ _ h => h) hs ho
  exact ⟨s, o, b, hb, hs, ho, hcovers, hfin⟩

/-- How an output is lost. The process stops after the claim of `x` is reserved. The next
reconcile reads `x`, then a user deletes it; listing the namespace, the reconcile finds
its own binding being deleted, and clears the claim that has no object. Its own copy still
has the claim, so the object is created all the same, and the attempt to confirm it fails.
The reconcile after that finds no record and takes the finalizer away. -/
def leakingMoves : List Move :=
  trialPrelude ++ [.start (trialKey "x"), .proceed 7, .stop,
    .start (trialKey "x"), .proceed 1, .user (.deleteBinding (trialKey "x")), .proceed 11, .stop,
    .start (trialKey "x"), .proceed 2, .stop]

/-- Nothing runs, no binding is left, and there is an object of the operator's. -/
def SystemState.leaked (s : SystemState) : Bool :=
  s.hasOutputs && s.threads.isEmpty && s.world.bindings.entries.isEmpty

theorem output_outlives_binding :
    ∃ s u o, Reachable trialReconciler (closedSetting fun _ _ => true) s ∧ s.threads = [] ∧
      s.world.Output u o ∧ s.world.bindings.entries = [] := by
  obtain ⟨s, hs, htest⟩ := exists_reachable (r := trialReconciler)
    (S := closedSetting fun _ _ => true) leakingMoves SystemState.leaked (by decide +kernel)
  simp only [SystemState.leaked, Bool.and_eq_true, List.isEmpty_iff] at htest
  obtain ⟨u, o, ho⟩ := SystemState.exists_output htest.1.1
  exact ⟨s, u, o, hs, htest.1.2, ho, htest.2⟩

end Kleym
