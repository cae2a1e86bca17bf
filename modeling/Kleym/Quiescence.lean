import Kleym.Endings

/-!
# Quiescence

A reconcile that ran undisturbed, returned without an error and without asking to come again, and
left its binding Ready or in a settled conflict, has nothing left to do: run again, it makes no
write. `Endings` says what the run has done, `Stillness` what a run leaves alone, and here the two
are joined.

A settled conflict needs a condition. A peer that is being deleted takes part in a conflict only as
long as it has an output; the run that settles the conflict withdraws that output, and so the next
run no longer sees the conflict and goes on to create one for the binding.
-/

namespace Kleym

open GoString Prog

variable {r : Reconciler} {S : Setting} {v v' v'' : World} {m m' q b : Binding} {plan : Plan}

/-! ## Peers until the end of the run -/

/-- The live object of a binding is an output of it. -/
theorem Lives.output {o : ClusterSPIFFEID} (hS : S.Honest) (hinv : Inv S v)
    (hq : v.bindings.get q.key = some q) (h : Lives v q o) : v.Output q.uid o := by
  obtain ⟨hmem, -⟩ := Store.get_eq_some.mp hq
  obtain ⟨-, howned⟩ := Prod.mk.inj h.record
  exact ⟨(Store.get_eq_some.mp h.stored).1,
    (hinv.authentic hS).owned q (hinv.history.binding_mem q hmem) ⟨o.name, o.uid⟩ howned⟩

/-- What a run makes of a peer once it has evaluated it: it leaves the peer and its outputs
alone, or takes its outputs away while the peer stays. -/
def Lasts (v : World) (q : Binding) (v' : World) (q' : Binding) : Prop :=
  (q' = q ∧ ∀ o, v.Output q.uid o → v'.Output q.uid o) ∨
    (q'.deleting = false ∧ q'.record = unrecorded)

theorem Still.lasts {q' : Binding} (hS : S.Honest) (hinv : Inv S v) (h : Still r v q)
    (hstored : v.bindings.get q.key = some q) (hpools : v'.poolView = v.poolView)
    (hq : Continues q q') (hlasts : Lasts v q v' q') : Still r v' q' := by
  have hrendered : renderedOf r v' q' = renderedOf r v q := renderedOf_eq hpools hq
  rcases hlasts with ⟨rfl, houtputs⟩ | ⟨hpresent, hrecord⟩
  · cases h with
    | gone hdeleting hrecord => exact .gone hdeleting hrecord
    | rendered hplan hlives =>
      refine .rendered (hrendered.trans hplan) fun hdeleting => ?_
      obtain ⟨o, ho⟩ := hlives hdeleting
      obtain ⟨hmem, -⟩ := houtputs o (ho.output hS hinv hstored)
      exact ⟨o, Store.get_eq_some.mpr ⟨hmem, rfl⟩, ho.name, ho.uid, ho.record⟩
    | failed hfails hstate hpresent hrecord =>
      exact .failed (hrendered.trans hfails) hstate hpresent hrecord
  · have hbefore : q.deleting = false := hq.deleting.symm.trans hpresent
    cases h with
    | gone hdeleting _ =>
      rw [hbefore] at hdeleting
      cases hdeleting
    | rendered hplan _ =>
      refine .rendered (hrendered.trans hplan) fun hdeleting => ?_
      rw [hpresent] at hdeleting
      cases hdeleting
    | failed hfails hstate _ _ => exact .failed (hrendered.trans hfails) hstate hpresent hrecord

theorem relevantPlan_lasts {q' : Binding} (hkey : b.key = m.key)
    (hpools : v'.poolView = v.poolView) (hq : Continues q q')
    (hlasts : q.key = m.key ∨ Lasts v q v' q') :
    relevantPlan r b plan v' q' = relevantPlan r m plan v q := by
  have hrendered : renderedOf r v' q' = renderedOf r v q := renderedOf_eq hpools hq
  rw [relevantPlan, relevantPlan, hkey, hq.key]
  rcases hlasts with hown | ⟨rfl, -⟩ | ⟨hpresent, -⟩
  · rw [if_pos hown, if_pos hown]
  · rw [hrendered]
  · rw [hrendered, if_neg (c := q'.deleting = true ∧ _) (by simp [hpresent]),
      if_neg (c := q.deleting = true ∧ _) (by simp [← hq.deleting, hpresent])]

/-- What a run does from its evaluation on. -/
structure Onward (m : Binding) (v v' : World) : Prop where
  poolView : v'.poolView = v.poolView
  copies : LaterCopies v v'
  peers : ∀ q ∈ neighbours m v, q.key ≠ m.key → ∀ q', v'.bindings.get q.key = some q' →
    Lasts v q v' q'

theorem LaterCopies.exists_before (h : LaterCopies v v') {k : NamespacedName} {q' : Binding}
    (hq' : v'.bindings.get k = some q') : ∃ q, v.bindings.get k = some q ∧ Continues q q' := by
  have hk := h k
  rw [hq'] at hk
  generalize v.bindings.get k = before at hk
  cases hk with
  | some hq => exact ⟨_, rfl, hq⟩

theorem LaterCopies.exists_after (h : LaterCopies v v') {k : NamespacedName}
    (hq : v.bindings.get k = some q) : ∃ q', v'.bindings.get k = some q' ∧ Continues q q' := by
  have hk := h k
  rw [hq] at hk
  generalize v'.bindings.get k = after at hk
  cases hk with
  | some hq' => exact ⟨_, rfl, hq'⟩

theorem mem_neighbours : q ∈ neighbours m v ↔
    v.bindings.get q.key = some q ∧ q.key.namespace_ = m.key.namespace_ := by
  rw [neighbours, List.mem_filter, decide_eq_true_eq, Store.get_eq_some, and_iff_left rfl]

/-- The same keys are in use in the namespace. -/
theorem LaterCopies.keys_perm (h : LaterCopies v v') (hkey : b.key = m.key) :
    ((neighbours b v').map Binding.key).Perm ((neighbours m v).map Binding.key) := by
  have hnodup : ∀ (m : Binding) (v : World), ((neighbours m v).map Binding.key).Nodup :=
    fun m v => v.bindings.nodup.sublist (List.filter_sublist.map Binding.key)
  refine (List.perm_ext_iff_of_nodup (hnodup b v') (hnodup m v)).mpr fun k => ⟨?_, ?_⟩
  · intro hk
    obtain ⟨q', hq', rfl⟩ := List.mem_map.mp hk
    obtain ⟨hget, hns⟩ := mem_neighbours.mp hq'
    obtain ⟨q, hq, hcontinues⟩ := h.exists_before hget
    rw [hcontinues.key] at hq hns ⊢
    exact List.mem_map_of_mem (mem_neighbours.mpr ⟨hq, hkey ▸ hns⟩)
  · intro hk
    obtain ⟨q, hq, rfl⟩ := List.mem_map.mp hk
    obtain ⟨hget, hns⟩ := mem_neighbours.mp hq
    obtain ⟨q', hq', hcontinues⟩ := h.exists_after hget
    rw [← hcontinues.key] at hq' hns ⊢
    exact List.mem_map_of_mem (mem_neighbours.mpr ⟨hq', hkey ▸ hns⟩)

/-- What is recorded in a namespace is a matter of the keys in it. -/
theorem records_neighbours : (neighbours m v).filterMap (recordOf r m plan v) =
    ((neighbours m v).map Binding.key).filterMap fun k =>
      (v.bindings.get k).bind (recordOf r m plan v) := by
  rw [List.filterMap_map]
  refine List.filterMap_congr fun q hq => ?_
  rw [Function.comp_apply, (mem_neighbours.mp hq).1, Option.bind_some]

/-- The conflicts stay what they are. -/
theorem Onward.contested (h : Onward m v v') (hkey : b.key = m.key) :
    contested r b plan v' = contested r m plan v := by
  have hrecords : ∀ k ∈ (neighbours m v).map Binding.key,
      (v'.bindings.get k).bind (recordOf r b plan v') =
        (v.bindings.get k).bind (recordOf r m plan v) := by
    intro k hk
    obtain ⟨q, hq, rfl⟩ := List.mem_map.mp hk
    have hget := (mem_neighbours.mp hq).1
    obtain ⟨q', hq', hcontinues⟩ := h.copies.exists_after hget
    have hrecord : variantRecord q' = variantRecord q := by rw [hcontinues]; rfl
    have hplan : relevantPlan r b plan v' q' = relevantPlan r m plan v q :=
      relevantPlan_lasts hkey h.poolView hcontinues
        (or_iff_not_imp_left.mpr fun hne => h.peers q hq hne q' hq')
    rw [hget, hq', Option.bind_some, Option.bind_some, recordOf, recordOf, hplan, hrecord]
  have hperm : ((neighbours b v').filterMap (recordOf r b plan v')).Perm
      ((neighbours m v).filterMap (recordOf r m plan v)) := by
    rw [records_neighbours, records_neighbours, ← List.filterMap_congr hrecords]
    exact (h.copies.keys_perm hkey).filterMap _
  rw [Kleym.contested, Kleym.contested, evaluateVariantConflicts_of_perm hperm, hkey]

/-- So do the peers. -/
theorem Onward.still (hS : S.Honest) (hinv : Inv S v) (h : Onward m v v') (hkey : b.key = m.key)
    (hstill : StillListing r m v (neighbours m v)) :
    ∀ q ∈ neighbours b v', q.key ≠ b.key → Still r v' q := by
  intro q' hq' hne
  obtain ⟨hget', hns⟩ := mem_neighbours.mp hq'
  obtain ⟨q, hget, hcontinues⟩ := h.copies.exists_before hget'
  rw [hcontinues.key] at hget hget' hns hne
  rw [hkey] at hns hne
  have hq : q ∈ neighbours m v := mem_neighbours.mpr ⟨hget, hns⟩
  obtain ⟨heq, -⟩ | ⟨-, hbefore⟩ := hstill q hq
  · exact absurd heq hne
  · exact hbefore.lasts hS hinv hget h.poolView hcontinues (h.peers q hq hne q' hget')

theorem Publishes.copy {key : NamespacedName} {status : Status} (h : Publishes key status v v') :
    ∃ stored final, v.bindings.get key = some stored ∧ v'.bindings.get key = some final ∧
      Continues stored final ∧ final.status = status.withRecordOf stored.status := by
  obtain ⟨stored, version, hget, hget'⟩ := h.stored
  exact ⟨stored, _, hget, hget', rfl, rfl⟩

/-- A status is published in a later copy. -/
theorem Publishes.laterCopies {key : NamespacedName} {status : Status}
    (h : Publishes key status v v') : LaterCopies v v' := by
  obtain ⟨stored, final, hget, hget', hlater, -⟩ := h.copy
  refine h.beside.laterCopies ?_
  rw [hget, hget']
  exact .some hlater

/-- Publishing a status leaves every output. -/
theorem Publishes.output {key : NamespacedName} {status : Status} (h : Publishes key status v v')
    {owner : GoString} {o : ClusterSPIFFEID} (ho : v.Output owner o) : v'.Output owner o := by
  rw [World.Output, h.objects, h.created]
  exact ho

theorem Carried.laterCopies {exact : Prop} (h : Carried exact v m v' m')
    (hm : Mirrors exact v m) : LaterCopies v v' := by
  refine h.beside.laterCopies ?_
  obtain ⟨status, hget, -⟩ := hm
  obtain ⟨status', hget', -⟩ := h.mirrors
  rw [h.continues.key] at hget'
  rw [hget, hget']
  refine .some ?_
  rw [Continues, h.continues]

/-- A run that applies an output works on its own binding alone. -/
theorem Achieved.onward {v₁ v₂ : World} {o : ClusterSPIFFEID}
    {managed : RenderedClusterSPIFFEIDStatus} (h : Achieved r S m plan v v₁ v₂ v' m' o managed)
    (hm : Mirrors False v₁ m) : Onward m v₁ v' := by
  refine ⟨h.published.beside.poolView.trans h.carried.beside.poolView,
    (h.carried.laterCopies hm).trans h.published.laterCopies,
    fun q hq hne q' hq' => Or.inl ⟨?_, fun o ho => ?_⟩⟩
  · rw [h.published.beside.others q.key hne, h.carried.beside.others q.key hne,
      (mem_neighbours.mp hq).1] at hq'
    exact (Option.some.inj hq').symm
  · refine h.published.output (h.carried.others q.uid o (fun huid => ?_) ho)
    obtain ⟨persisted, hget, -⟩ := hm
    obtain ⟨hmem, -⟩ := Store.get_eq_some.mp hget
    have hown := h.inv.history.binding_eq (List.mem_of_mem_filter hq) hmem huid
    exact hne (by rw [hown])

/-- A run that settles a conflict leaves those alone that are not in it. The others must not be on
their way out. -/
theorem Conceded.onward {v₁ v₂ : World} {qs : List Binding}
    (h : Conceded r S m plan v v₁ v₂ v' qs)
    (hpeers : ∀ c ∈ contested r m plan v₁, ∀ q', v'.bindings.get c.peerBindingRef = some q' →
      q'.deleting = false) : Onward m v₁ v' := by
  refine ⟨h.published.beside.poolView.trans h.withdrawn.poolView,
    h.withdrawn.copies.trans h.published.laterCopies, fun q hq hne q' hq' => ?_⟩
  have hget := (mem_neighbours.mp hq).1
  have hafter : v₂.bindings.get q.key = some q' := by
    rw [← h.published.beside.others q.key hne]
    exact hq'
  by_cases hmember : q.key ∈ qs.map Binding.key
  · obtain hown | ⟨c, hc, hkey⟩ := (h.members q.key).mp hmember
    · exact absurd hown hne
    · exact Or.inr ⟨hpeers c hc q' (hkey ▸ hq'), h.withdrawn.unrecorded q.key hmember q' hafter⟩
  · rw [h.withdrawn.others q.key hmember, hget] at hafter
    refine Or.inl ⟨(Option.some.inj hafter).symm, fun o ho => ?_⟩
    refine h.published.output (h.withdrawn.outputs q.uid o (fun x hx huid => ?_) ho)
    have hsame := h.inv.history.binding_eq (Store.get_eq_some.mp (h.stored x hx)).1
      (List.mem_of_mem_filter hq) huid
    exact hmember (hsame ▸ List.mem_map_of_mem hx)

/-! ## The binding at the end of the run -/

theorem Underway.atRest {conditions : List Condition} {b' : Binding} (h : Underway r v b plan)
    (hcontinues : Continues b b') (hstored : v'.bindings.get b'.key = some b')
    (hpools : v'.poolView = v.poolView) (hshows : b'.status.Shows conditions)
    (hconditions : Initialized b'.generation conditions)
    (hconfig : b'.status.config = (r.prepareStatus b).status.config)
    (hstill : ∀ q ∈ neighbours b' v', q.key ≠ b'.key → Still r v' q) : AtRest r v' b' plan := by
  have hrender : r.renderDesired b' = r.renderDesired (r.prepareStatus b) := by
    rw [hcontinues]
    rfl
  refine ⟨hstored, hcontinues.deleting.trans h.present, ?_,
    prepareStatus_of_shows hshows hconditions hconfig, ?_, hstill⟩
  · rw [hcontinues]
    exact h.finalizer
  · rw [hrender, execute_pools (pools_renderDesired r _) hpools, h.rendered]

/-- The binding after its output was applied. -/
theorem Achieved.rests {v₁ v₂ : World} {m₃ : Binding} {o : ClusterSPIFFEID}
    {managed : RenderedClusterSPIFFEIDStatus} (hS : S.Honest) (hbegun : Underway r v b plan)
    (h : Achieved r S (r.prepareStatus b) plan v v₁ v₂ v' m₃ o managed) :
    Rests (r.reconcile b.key) v' (.ok ⟨0⟩) := by
  obtain ⟨state, hsurveyed⟩ := h.surveyed
  have honward := h.onward (hbegun.mirrors hsurveyed.own)
  obtain ⟨stored, final, hget, hstored, hlater, hstatus⟩ := h.published.copy
  obtain ⟨persisted, hmirror, hrecord, -⟩ := h.carried.mirrors
  have hkey : m₃.key = (r.prepareStatus b).key := h.carried.continues.key
  obtain rfl : stored = { m₃ with status := persisted } := by
    rw [← hkey] at hget
    exact Option.some.inj (hget.symm.trans hmirror)
  have hm₃ : Continues m₃ final := hlater
  have hcontinues : Continues b final := Continues.trans h.carried.continues hm₃
  have hgeneration : final.generation = m₃.generation := by rw [hm₃]
  rw [show (r.prepareStatus b).key = final.key from hcontinues.key.symm] at hstored
  rw [← hcontinues.key]
  have hshows : final.status.Shows (successConditions final.generation) := by
    rw [hstatus, hgeneration]
    exact (shows_applySuccessStatus m₃.status m₃.generation [plan] [managed]).withRecordOf _
  have hconfig : final.status.config = (r.prepareStatus b).status.config := by
    rw [hstatus, Status.config_withRecordOf, config_applySuccessStatus]
    exact h.carried.config
  have hrest : AtRest r v' final plan := hbegun.atRest hcontinues hstored
    (honward.poolView.trans hsurveyed.poolView) hshows (initialized_success _) hconfig
    (honward.still hS h.inv hcontinues.key hsurveyed.still)
  have hsettled : OutputSettled r v' final plan o := by
    refine ⟨⟨?_, h.inPlace.lives.name, h.inPlace.lives.uid, ?_⟩, ?_, ?_, ?_⟩
    · rw [h.published.objects]
      exact h.inPlace.lives.stored
    · rw [Binding.record, hstatus, Status.record_withRecordOf, hrecord]
      exact h.inPlace.lives.record
    · rw [hcontinues.key]
      exact h.inPlace.name
    · rw [hcontinues.key]
      exact h.inPlace.inSync
    · rw [hstatus, hgeneration, ← h.inPlace.status]
      exact applySuccessStatus_again m₃.status persisted m₃.generation [plan] [managed]
  exact hrest.rests (rests_reconcileIdentity_output hrest
    ((honward.contested hcontinues.key).trans h.uncontested) hsettled)

/-- The binding after its conflict was settled. -/
theorem Conceded.rests {v₁ v₂ : World} {qs : List Binding} (hS : S.Honest)
    (hbegun : Underway r v b plan) (h : Conceded r S (r.prepareStatus b) plan v v₁ v₂ v' qs)
    (hpeers : ∀ c ∈ contested r (r.prepareStatus b) plan v₁, ∀ q,
      v'.bindings.get c.peerBindingRef = some q → q.deleting = false) :
    Rests (r.reconcile b.key) v' (.ok ⟨0⟩) := by
  obtain ⟨state, hsurveyed⟩ := h.surveyed
  have honward := h.onward hpeers
  obtain ⟨stored, final, hget, hstored, hlater, hstatus⟩ := h.published.copy
  have hcontinues : Continues b final := by
    obtain ⟨first, hfirst, hbefore⟩ := h.withdrawn.copies.exists_before hget
    obtain rfl : first = b :=
      Option.some.inj (hfirst.symm.trans (hsurveyed.own.trans hbegun.stored))
    exact hbefore.trans hlater
  have hgeneration : final.generation = (r.prepareStatus b).generation := by
    rw [hcontinues]
    rfl
  have hsame : contested r final plan v' = contested r (r.prepareStatus b) plan v₁ :=
    honward.contested hcontinues.key
  have hshows : final.status.Shows (conflictConditions final.generation
      (contested r (r.prepareStatus b) plan v₁)) := by
    rw [hstatus, hgeneration]
    exact (shows_applyConflictStatus _ _ _).withRecordOf _
  have hconfig : final.status.config = (r.prepareStatus b).status.config := by
    rw [hstatus, Status.config_withRecordOf, config_applyConflictStatus]
  have hkey : (r.prepareStatus b).key = final.key := hcontinues.key.symm
  rw [hkey] at hstored
  have hrest : AtRest r v' final plan := hbegun.atRest hcontinues hstored
    (honward.poolView.trans hsurveyed.poolView) hshows (initialized_conflict _ _) hconfig
    (honward.still hS h.inv hcontinues.key hsurveyed.still)
  have hsettled : ConflictSettled r v' final plan := by
    refine ⟨hsame ▸ h.conflicts, ?_, fun q hq hmember => ?_⟩
    · rw [hsame, hstatus, hgeneration]
      exact applyConflictStatus_again _ _ _ _
    rw [hsame, ← hkey] at hmember
    have hmember := (h.members q.key).mpr hmember
    obtain ⟨hq, -⟩ := mem_neighbours.mp hq
    by_cases hown : q.key = final.key
    · rw [hown, hstored] at hq
      obtain rfl := Option.some.inj hq
      rw [Binding.record, hstatus, Status.record_withRecordOf]
      exact h.withdrawn.unrecorded _ (hkey ▸ hmember) stored hget
    · rw [← hkey] at hown
      rw [h.published.beside.others q.key hown] at hq
      exact h.withdrawn.unrecorded q.key hmember q hq
  rw [← hcontinues.key]
  exact hrest.rests (rests_reconcileIdentity_conflict hrest hsettled)

/-! ## Peers on their way out -/

/-- The peers that a status names in its conflicts are not on their way out. -/
def Status.PeersStay (status : Status) (namespace_ : GoString) (v : World) : Prop :=
  ∀ item ∈ status.conflicts, ∀ q, v.bindings.get ⟨namespace_, item.bindingName⟩ = some q →
    q.deleting = false

/-- A peer that is named in a conflict takes part in the evaluation. -/
theorem exists_relevant {c : VariantConflict} (h : c ∈ contested r m plan v) :
    ∃ q ∈ neighbours m v, q.key = c.peerBindingRef ∧ relevantPlan r m plan v q ≠ none := by
  have hrecords : ∀ rec ∈ (neighbours m v).filterMap (recordOf r m plan v),
      ∃ q ∈ neighbours m v, q.key = rec.bindingRef ∧ relevantPlan r m plan v q ≠ none := by
    intro rec hrec
    obtain ⟨q, hq, hrecord⟩ := List.mem_filterMap.mp hrec
    obtain ⟨p, hplan, rfl⟩ := Option.map_eq_some_iff.mp hrecord
    exact ⟨q, hq, rfl, by simp [hplan]⟩
  rw [contested, List.mem_filter, mem_evaluateVariantConflicts] at h
  obtain ⟨⟨x, y, hxy, hc⟩, -⟩ := h
  obtain ⟨cause, -, rfl | rfl⟩ := mem_pairConflicts.mp hc
  · exact hrecords y (hxy.subset (by simp))
  · exact hrecords x (hxy.subset (by simp))

/-- What a settled conflict names is what was found in the evaluation. -/
theorem Conceded.peersStay_iff {v₁ v₂ : World} {qs : List Binding} {b' : Binding}
    (h : Conceded r S m plan v v₁ v₂ v' qs) (hb' : v'.bindings.get m.key = some b') :
    b'.status.PeersStay m.key.namespace_ v' ↔ ∀ c ∈ contested r m plan v₁, ∀ q,
      v'.bindings.get c.peerBindingRef = some q → q.deleting = false := by
  obtain ⟨stored, final, -, hget, -, hstatus⟩ := h.published.copy
  obtain rfl : final = b' := Option.some.inj (hget.symm.trans hb')
  have hnames : final.status.conflicts = (contested r m plan v₁).map fun c =>
      ⟨c.peerBindingRef.name, c.cause, c.peerSpiffeID, c.peerVariant⟩ := by
    rw [hstatus]
    rfl
  have hkey : ∀ c ∈ contested r m plan v₁,
      (⟨m.key.namespace_, c.peerBindingRef.name⟩ : NamespacedName) = c.peerBindingRef := by
    intro c hc
    obtain ⟨q, hq, hqk, -⟩ := exists_relevant hc
    rw [← (mem_neighbours.mp hq).2, hqk]
  rw [Status.PeersStay, hnames, List.forall_mem_map]
  exact forall₂_congr fun c hc => by rw [hkey c hc]

/-- A call that asks for something and leaves the cluster as it is. -/
def Looks (w : World) (c : Call) (v : World) (a : Answer c) (v' : World) : Prop :=
  c.isWrite = false ∧ v = w ∧ v' = w ∧ Served c v a v'

theorem Kept.of_looks {w : World} {c : Call} {a : Answer c} (hinv : Inv S w)
    (h : Looks w c v a v') : Kept S c v a v' := by
  obtain ⟨-, rfl, rfl, hserved⟩ := h
  exact ⟨hserved, hinv, fun _ _ _ ho => ho⟩

theorem world_of_looks {w : World} {α : Type} {p : Op α} {a : α}
    (h : Leads (Looks w) p v a v') (hv : v = w) : v' = w :=
  Leads.preserves (F := fun v v' => v = w → v' = w) (fun _ hv => hv) (fun h h' hv => h' (h hv))
    (fun hlooks _ => hlooks.2.2.1) h hv

theorem start_of_looks {w : World} {α : Type} {p : Op α} {a : α} (h : Leads (Looks w) p v a w) :
    v = w := by
  cases p with
  | ret b => exact h.2
  | call c k =>
    obtain ⟨a₁, v₁, hlooks, -⟩ := h
    exact hlooks.2.1

/-- A reconcile that rests has a run that only looks. -/
theorem Rests.looks {w : World} {α : Type} {p : Op α} {a : α} (h : Rests p w a) :
    Leads (Looks w) p w a w := by
  have htotal : ∀ c, ∃ a v', Served c w a v' := fun c =>
    ⟨(respond {} c w).1, (respond {} c w).2, {}, ⟨rfl, fun _ => rfl⟩, rfl⟩
  obtain ⟨a', rfl, hrun⟩ := Idles.leads htotal h
  exact hrun

/-- A conflict can rest only while none of its members is on its way out: the members own
nothing, and a binding that is being deleted and owns nothing is not in the evaluation. -/
theorem peersStay_of_rests {key : NamespacedName} (hinv : Inv S v) (hpools : v.PoolsWellFormed)
    (hb : v.bindings.get key = some b) (hconcludes : b.status.Concludes)
    (hpresent : b.deleting = false) (h : Rests (r.reconcile key) v (.ok ⟨0⟩)) :
    b.status.PeersStay key.namespace_ v := by
  obtain ⟨hdeleting, -⟩ | ⟨v₁, b₁, plan, rfl, -, hbegun, hidentity⟩ :=
    leads_reconcile (fun hlooks => Kept.of_looks hinv hlooks) hinv hpools h.looks hb hconcludes
  · rw [hpresent] at hdeleting
    cases hdeleting
  obtain rfl := start_of_looks hidentity
  obtain ⟨v₁', v₂, m', o, managed, hachieved⟩ | ⟨v₁', v₂, qs, state, hevaluate, hconceded⟩ :=
    hbegun.cases (fun hlooks => Kept.of_looks hinv hlooks) hinv hidentity
  · obtain ⟨stored, final, -, hget, -, hstatus⟩ := hachieved.published.copy
    obtain rfl : final = b := Option.some.inj (hget.symm.trans hb)
    have hnone : final.status.conflicts = [] := by
      rw [hstatus]
      rfl
    rw [Status.PeersStay, hnone]
    exact List.forall_mem_nil _
  · obtain rfl := world_of_looks hevaluate rfl
    refine (hconceded.peersStay_iff hb).mpr fun c hc q hq => ?_
    obtain ⟨q', hq', hkey, hrelevant⟩ := exists_relevant hc
    have hget := (mem_neighbours.mp hq').1
    rw [hkey, hq] at hget
    obtain rfl := Option.some.inj hget
    by_cases hown : q.key = (r.prepareStatus b₁).key
    · exact hbegun.own q (by rw [← hown, hkey, hq])
    rw [relevantPlan, if_neg hown] at hrelevant
    have hafter : v₂.bindings.get q.key = some q := by
      rw [← hconceded.published.beside.others q.key hown, hkey, hq]
    have hrecord := hconceded.withdrawn.unrecorded q.key
      ((hconceded.members q.key).mpr (Or.inr ⟨c, hc, hkey.symm⟩)) q hafter
    by_contra hdeleting
    exact hrelevant (if_pos ⟨by simpa using hdeleting, hrecord⟩)

/-! ## The reconcile -/

theorem rests_of_peersStay {key : NamespacedName} (hS : S.Honest) (hinv : Inv S v)
    (hpools : v.PoolsWellFormed) (hrun : Goes S (r.reconcile key) v (.ok ⟨0⟩) v')
    (hb : v'.bindings.get key = some b) (hconcludes : b.status.Concludes)
    (hpeers : b.deleting = false → b.status.PeersStay key.namespace_ v') :
    Rests (r.reconcile key) v' (.ok ⟨0⟩) := by
  obtain ⟨hdeleting, hfinalizer⟩ | ⟨v₁, b₁, plan, rfl, hinv₁, hbegun, hidentity⟩ :=
    leads_reconcile (fun hkept => hkept) hinv hpools hrun hb hconcludes
  · obtain ⟨-, rfl⟩ := Store.get_eq_some.mp hb
    exact rests_reconcile_finalized hb hdeleting hfinalizer
  obtain ⟨v₂, v₃, m', o, managed, hachieved⟩ | ⟨v₂, v₃, qs, state, -, hconceded⟩ :=
    hbegun.cases (fun hkept => hkept) hinv₁ hidentity
  · exact hachieved.rests hS hbegun
  · have hpresent : b.deleting = false := by
      obtain ⟨first, hfirst, hlater⟩ :=
        (hconceded.withdrawn.copies.trans hconceded.published.laterCopies).exists_before hb
      obtain ⟨state, hsurveyed⟩ := hconceded.surveyed
      obtain rfl : first = b₁ :=
        Option.some.inj (hfirst.symm.trans (hsurveyed.own.trans hbegun.stored))
      exact hlater.deleting.trans hbegun.present
    exact hconceded.rests hS hbegun ((hconceded.peersStay_iff hb).mp (hpeers hpresent))

/-- **Quiescence.** Let a reconcile run from a reachable state, with current reads and nobody
disturbing it, return without an error and without asking to come again, and leave its binding
Ready or in a settled conflict. Run again, it makes no write, leaves the cluster alone and returns
the same, if and only if no binding that its status names in a conflict is being deleted. -/
theorem reconcile_quiescent_iff {s : SystemState} {key : NamespacedName} {w : World}
    (hS : S.Honest) (h : Reachable r S s) (hpools : s.world.PoolsWellFormed)
    (hrun : Leads (Serves S) (r.reconcile key) s.world (.ok ⟨0⟩) w)
    (hb : w.bindings.get key = some b)
    (hstatus : b.status.Is .ready .true_ ∨ b.status.Is .conflict .true_) :
    Idles Served (fun c => c.isWrite = false) (· = .ok ⟨0⟩) (r.reconcile key) w ↔
      (b.deleting = false → ∀ item ∈ b.status.conflicts, ∀ q,
        w.bindings.get ⟨key.namespace_, item.bindingName⟩ = some q → q.deleting = false) := by
  have hgoes : Goes S (r.reconcile key) s.world (.ok ⟨0⟩) w :=
    goes_of_leads hS h.inv (safe_reconcile (s := ⟨s.world, []⟩) key h.inv) hrun
  constructor
  · intro hrests hpresent
    exact peersStay_of_rests (Goes.inv h.inv hgoes) (hpools.of_poolView (Goes.poolView hgoes)) hb
      hstatus hpresent hrests
  · exact rests_of_peersStay hS h.inv hpools hgoes hb hstatus

/-! ## Two trials -/

/-- Run a piece of code on its own, with every call answered without a fault. -/
def serveAll (S : Setting) {α : Type} : Op α → World → Option (α × World)
  | .ret a, w => some (a, w)
  | .call c k, w =>
    if Admissible S (.plain w.unused) c w then
      serveAll S (k (respond (.plain w.unused) c w).1) (respond (.plain w.unused) c w).2
    else none

theorem leads_of_serveAll {α : Type} {p : Op α} {a : α} (h : serveAll S p v = some (a, v')) :
    Leads (Serves S) p v a v' := by
  induction p generalizing v with
  | ret b =>
    cases h
    exact ⟨rfl, rfl⟩
  | call c k ih =>
    rw [serveAll] at h
    split_ifs at h with hchoice
    exact ⟨_, _, ⟨.plain v.unused, hchoice, ⟨rfl, fun _ => rfl⟩, rfl⟩, ih _ h⟩

/-- A run that settles a conflict: the binding and the cluster it leaves. -/
def settlement (key : NamespacedName) :
    Option (Except GoError ReconcileResult × World) → Option (Binding × World)
  | some (.ok ⟨0⟩, w) =>
    (w.bindings.get key).bind fun b =>
      if b.status.Is .conflict .true_ then some (b, w) else none
  | _ => none

theorem settlement_spec {key : NamespacedName}
    {run : Option (Except GoError ReconcileResult × World)}
    (h : settlement key run = some (b, v)) : run = some (.ok ⟨0⟩, v) ∧
      v.bindings.get key = some b ∧ b.status.Is .conflict .true_ := by
  rw [settlement.eq_def] at h
  split at h
  · obtain ⟨b', hb', h⟩ := Option.bind_eq_some_iff.mp h
    split_ifs at h with hstatus
    cases h
    exact ⟨rfl, hb', hstatus⟩
  · cases h

/-- What reconciling the binding `y` on its own leaves, if that settles a conflict. -/
def trialSettlement (w : World) : Option (Binding × World) :=
  settlement (trialKey "y")
    (serveAll (closedSetting fun _ _ => true) (trialReconciler.reconcile (trialKey "y")) w)

theorem trialSettlement_spec (h : trialSettlement v = some (b, v')) :
    Leads (Serves (closedSetting fun _ _ => true)) (trialReconciler.reconcile (trialKey "y"))
        v (.ok ⟨0⟩) v' ∧
      v'.bindings.get (trialKey "y") = some b ∧ b.status.Is .conflict .true_ := by
  obtain ⟨hrun, hb, hstatus⟩ := settlement_spec h
  exact ⟨leads_of_serveAll hrun, hb, hstatus⟩

/-- Whether the pools in the cluster are well-formed. -/
def World.poolsInOrder (w : World) : Bool :=
  w.pools.entries.all fun pool => pool.spec.all Json.wellFormed

theorem poolsWellFormed_of_inOrder (h : v.poolsInOrder = true) : v.PoolsWellFormed := by
  intro pool hpool spec hspec
  have hall := List.all_eq_true.mp h pool hpool
  rw [hspec] at hall
  exact hall

/-- The trial of the bindings `x` and `y`, which ask for the same variant: `y` comes when `x` has
its output. -/
def rivalMoves : List Move := trialReady ++ [.create "y" "v"]

/-- The pools are in order, and reconciling `y` settles a conflict with peers that stay. -/
def SystemState.rivalStays (s : SystemState) : Bool :=
  s.world.poolsInOrder &&
    (trialSettlement s.world).any fun (b, w) =>
      b.status.conflicts.length = 1 ∧ b.status.conflicts.all fun item =>
        (w.bindings.get ⟨(trialKey "y").namespace_, item.bindingName⟩).all fun q => !q.deleting

theorem reconcile_quiescent_iff_rivals :
    ∃ s w b, Reachable trialReconciler (closedSetting fun _ _ => true) s ∧
      Leads (Serves (closedSetting fun _ _ => true)) (trialReconciler.reconcile (trialKey "y"))
        s.world (.ok ⟨0⟩) w ∧
      w.bindings.get (trialKey "y") = some b ∧ b.status.conflicts.length = 1 ∧
      Idles Served (fun c => c.isWrite = false) (· = .ok ⟨0⟩)
        (trialReconciler.reconcile (trialKey "y")) w := by
  obtain ⟨s, hs, htest⟩ := exists_reachable (r := trialReconciler)
    (S := closedSetting fun _ _ => true) rivalMoves SystemState.rivalStays (by decide +kernel)
  rw [SystemState.rivalStays, Bool.and_eq_true, Option.any_eq_true] at htest
  obtain ⟨hpools, ⟨b, w⟩, hsettled, htest⟩ := htest
  rw [decide_eq_true_eq, List.all_eq_true] at htest
  obtain ⟨hrun, hb, hstatus⟩ := trialSettlement_spec hsettled
  have hhonest : (closedSetting fun _ _ => true).Honest := rfl
  refine ⟨s, w, b, hs, hrun, hb, htest.1, (reconcile_quiescent_iff hhonest hs
    (poolsWellFormed_of_inOrder hpools) hrun hb (Or.inr hstatus)).mpr fun _ item hitem q hq => ?_⟩
  have hpeer := htest.2 item hitem
  rw [hq] at hpeer
  simpa using hpeer

/-- Now `x` is being deleted when `y` is reconciled. -/
def leavingMoves : List Move := rivalMoves ++ [.user (.deleteBinding (trialKey "x"))]

/-- Reconciling `y` settles a conflict and leaves no object; reconciling it again leaves one. -/
def SystemState.rivalLeaves (s : SystemState) : Bool :=
  s.world.poolsInOrder &&
    (trialSettlement s.world).any fun (_, w) =>
      w.objects.entries.isEmpty &&
        (serveAll (closedSetting fun _ _ => true) (trialReconciler.reconcile (trialKey "y")) w).any
          fun (_, w') => !w'.objects.entries.isEmpty

/-- A settled conflict that does not rest. The first reconcile of `y` withdraws the output of `x`,
which is being deleted, and publishes the conflict. To the second one `x` no longer counts, and it
creates the output of `y`. -/
theorem conflict_not_quiescent :
    ∃ s w b, Reachable trialReconciler (closedSetting fun _ _ => true) s ∧
      s.world.PoolsWellFormed ∧
      Leads (Serves (closedSetting fun _ _ => true)) (trialReconciler.reconcile (trialKey "y"))
        s.world (.ok ⟨0⟩) w ∧
      w.bindings.get (trialKey "y") = some b ∧ b.status.Is .conflict .true_ ∧
      w.objects.entries = [] ∧
      ∃ result w', Leads (Serves (closedSetting fun _ _ => true))
        (trialReconciler.reconcile (trialKey "y")) w result w' ∧ w'.objects.entries ≠ [] := by
  obtain ⟨s, hs, htest⟩ := exists_reachable (r := trialReconciler)
    (S := closedSetting fun _ _ => true) leavingMoves SystemState.rivalLeaves (by decide +kernel)
  rw [SystemState.rivalLeaves, Bool.and_eq_true, Option.any_eq_true] at htest
  obtain ⟨hpools, ⟨b, w⟩, hsettled, htest⟩ := htest
  obtain ⟨hrun, hb, hstatus⟩ := trialSettlement_spec hsettled
  rw [Bool.and_eq_true, List.isEmpty_iff, Option.any_eq_true] at htest
  obtain ⟨hnone, ⟨result, w'⟩, hagain, hsome⟩ := htest
  exact ⟨s, w, b, hs, poolsWellFormed_of_inOrder hpools, hrun, hb, hstatus, hnone, result, w',
    leads_of_serveAll hagain, by simpa using hsome⟩

end Kleym
