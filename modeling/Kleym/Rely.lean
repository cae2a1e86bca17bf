import Kleym.Preservation

/-!
# What a reconcile can rely on

While a reconcile is under way others move the cluster between its calls, and so do its
own calls for other bindings. `Spares` says what such a move leaves alone as far as one
binding is concerned: its record, its finalizer and its live output. `Calm` says that
nobody comes to own anything. Everything a reconcile knows about a binding survives a
move that spares the binding.
-/

namespace Kleym

open GoString

variable {r : Reconciler} {S : Setting} {log : Log} {w w' w'' : World} {u : GoString}

/-! ## The relations -/

/-- The past only grows. -/
structure Grows (w w' : World) : Prop where
  bindingVersions : w.bindingVersions ⊆ w'.bindingVersions
  objectVersions : w.objectVersions ⊆ w'.objectVersions
  identifiers : w.identifiers ⊆ w'.identifiers
  claims : w.claims ⊆ w'.claims
  created : w.created ⊆ w'.created

/-- Nobody comes to own anything: records stay or are resolved, new bindings have none, and
outputs stay or go. -/
structure Calm (S : Setting) (w w' : World) : Prop extends Grows w w' where
  resolve : S.Tidy → ∀ b' ∈ w'.bindings.entries, b'.record = unrecorded ∨
    ∃ b ∈ w.bindings.entries, b.key = b'.key ∧ b.uid = b'.uid ∧ b.record ≠ unrecorded ∧
      (b'.record = b.record ∨ b'.status.pendingClusterSPIFFEID = none)
  newcomers : S.Closed → ∀ b' ∈ w'.bindings.entries,
    (∃ b ∈ w.bindings.entries, b.key = b'.key ∧ b.uid = b'.uid) ∨ ∀ o, ¬w'.Output b'.uid o
  outputs : S.Closed → ∀ u o', w'.Output u o' → ∃ o, w.Output u o ∧ o.name = o'.name ∧
    o.uid = o'.uid ∧ clusterSPIFFEIDOwnershipClaim o = clusterSPIFFEIDOwnershipClaim o' ∧
    o.selectors = o'.selectors

/-- Besides, what concerns one binding is left alone. -/
structure Spares (S : Setting) (u : GoString) (w w' : World) : Prop extends Calm S w w' where
  records : S.Tidy → ∀ b' ∈ w'.bindings.entries, b'.uid = u →
    ∃ b ∈ w.bindings.entries, b.uid = u ∧ b.record = b'.record ∧
      (b.deleting = true → b'.deleting = true)
  pinned : S.Closed → ∀ b ∈ w.bindings.entries, b.uid = u →
    inferenceIdentityBindingFinalizer ∈ b.finalizers →
    ∃ b' ∈ w'.bindings.entries, b'.uid = u ∧ inferenceIdentityBindingFinalizer ∈ b'.finalizers
  alive : S.Closed → ∀ o, w.Output u o → o.terminating = false → w'.Output u o

theorem Grows.refl (w : World) : Grows w w :=
  ⟨List.Subset.refl _, List.Subset.refl _, List.Subset.refl _, List.Subset.refl _,
    List.Subset.refl _⟩

theorem Grows.trans (h : Grows w w') (h' : Grows w' w'') : Grows w w'' :=
  ⟨List.Subset.trans h.bindingVersions h'.bindingVersions,
    List.Subset.trans h.objectVersions h'.objectVersions,
    List.Subset.trans h.identifiers h'.identifiers, List.Subset.trans h.claims h'.claims,
    List.Subset.trans h.created h'.created⟩

theorem Calm.trans (h : Calm S w w') (h' : Calm S w' w'') : Calm S w w'' where
  toGrows := h.toGrows.trans h'.toGrows
  resolve := by
    intro ht b'' hb''
    rcases h'.resolve ht b'' hb'' with hnone | ⟨b', hb', hkey', huid', hne', hcase'⟩
    · exact Or.inl hnone
    · rcases h.resolve ht b' hb' with hnone | ⟨b, hb, hkey, huid, hne, hcase⟩
      · exact absurd hnone hne'
      · refine Or.inr ⟨b, hb, hkey.trans hkey', huid.trans huid', hne, ?_⟩
        rcases hcase' with hsame | hpending
        · rcases hcase with hsame' | hpending'
          · exact Or.inl (hsame.trans hsame')
          · exact Or.inr ((record_eq_iff.mp hsame).1.trans hpending')
        · exact Or.inr hpending
  newcomers := by
    intro hc b'' hb''
    rcases h'.newcomers hc b'' hb'' with ⟨b', hb', hkey', huid'⟩ | hfree
    · rcases h.newcomers hc b' hb' with ⟨b, hb, hkey, huid⟩ | hfree
      · exact Or.inl ⟨b, hb, hkey.trans hkey', huid.trans huid'⟩
      · refine Or.inr fun o ho => ?_
        obtain ⟨o', ho', -⟩ := h'.outputs hc _ o ho
        exact hfree o' (huid' ▸ ho')
    · exact Or.inr hfree
  outputs := by
    intro hc u o'' ho''
    obtain ⟨o', ho', hname', huid', hclaim', hsel'⟩ := h'.outputs hc u o'' ho''
    obtain ⟨o, ho, hname, huid, hclaim, hsel⟩ := h.outputs hc u o' ho'
    exact ⟨o, ho, hname.trans hname', huid.trans huid', hclaim.trans hclaim', hsel.trans hsel'⟩

theorem Spares.trans (h : Spares S u w w') (h' : Spares S u w' w'') : Spares S u w w'' where
  toCalm := h.toCalm.trans h'.toCalm
  records := by
    intro ht b'' hb'' huid''
    obtain ⟨b', hb', huid', hrecord', hdel'⟩ := h'.records ht b'' hb'' huid''
    obtain ⟨b, hb, huid, hrecord, hdel⟩ := h.records ht b' hb' huid'
    exact ⟨b, hb, huid, hrecord.trans hrecord', fun hd => hdel' (hdel hd)⟩
  pinned := by
    intro hc b hb huid hfin
    obtain ⟨b', hb', huid', hfin'⟩ := h.pinned hc b hb huid hfin
    exact h'.pinned hc b' hb' huid' hfin'
  alive := fun hc o ho hterm => h'.alive hc o (h.alive hc o ho hterm) hterm

/-! ## Moves that leave the bindings -/

/-- A move that leaves the bindings. -/
theorem Calm.of_bindings (hgrows : Grows w w') (hbindings : w'.bindings = w.bindings)
    (houtputs : S.Closed → ∀ v o', w'.Output v o' → ∃ o, w.Output v o ∧ o.name = o'.name ∧
      o.uid = o'.uid ∧ clusterSPIFFEIDOwnershipClaim o = clusterSPIFFEIDOwnershipClaim o' ∧
      o.selectors = o'.selectors) :
    Calm S w w' where
  toGrows := hgrows
  resolve := by
    intro _ b hb
    rw [hbindings] at hb
    by_cases hnone : b.record = unrecorded
    · exact Or.inl hnone
    · exact Or.inr ⟨b, hb, rfl, rfl, hnone, Or.inl rfl⟩
  newcomers := fun _ b hb => Or.inl ⟨b, hbindings ▸ hb, rfl, rfl⟩
  outputs := houtputs

/-- A calm move that leaves the bindings, and the live outputs of one of them. -/
theorem Calm.spares (h : Calm S w w') (hbindings : w'.bindings = w.bindings)
    (halive : S.Closed → ∀ o, w.Output u o → o.terminating = false → w'.Output u o) :
    Spares S u w w' where
  toCalm := h
  records := fun _ b hb huid => ⟨b, hbindings ▸ hb, huid, rfl, id⟩
  pinned := fun _ b hb huid hfin => ⟨b, hbindings ▸ hb, huid, hfin⟩
  alive := halive

/-- Pools are not concerned. -/
theorem Spares.withPools (S : Setting) (u : GoString) (w : World) (pools : Store InferencePool.key)
    (served : List GroupVersionKind) :
    Spares S u w { w with pools := pools, served := served } := by
  have hgrows : Grows w { w with pools := pools, served := served } :=
    ⟨List.Subset.refl _, List.Subset.refl _, List.Subset.refl _, List.Subset.refl _,
      List.Subset.refl _⟩
  exact (Calm.of_bindings hgrows rfl fun _ _ o ho => ⟨o, ho, rfl, rfl, rfl, rfl⟩).spares rfl
    fun _ _ ho _ => ho

theorem Spares.refl (S : Setting) (u : GoString) (w : World) : Spares S u w w :=
  Spares.withPools S u w w.pools w.served

theorem grows_saveObject (w : World) (o : ClusterSPIFFEID) : Grows w (w.saveObject o) :=
  ⟨List.Subset.refl _, List.subset_cons_self _ _, List.Subset.refl _, List.Subset.refl _,
    List.Subset.refl _⟩

theorem grows_saveBinding (w : World) (b : Binding) : Grows w (w.saveBinding b) :=
  ⟨List.subset_cons_self _ _, List.Subset.refl _, List.Subset.refl _, List.Subset.refl _,
    List.Subset.refl _⟩

theorem grows_dropBinding (w : World) (key : NamespacedName) : Grows w (w.dropBinding key) :=
  { Grows.refl w with }

theorem grows_settleBinding (w : World) (b : Binding) : Grows w (w.settleBinding b) := by
  rw [World.settleBinding]
  split_ifs
  · exact grows_dropBinding w b.key
  · exact grows_saveBinding w b

theorem grows_dropObject (w : World) (name : GoString) : Grows w (w.dropObject name) :=
  { Grows.refl w with }

theorem grows_note (w : World) (ids : List GoString) : Grows w (w.note ids) :=
  { Grows.refl w with identifiers := List.subset_append_right _ _ }

theorem grows_credit (w : World) (uid owner : GoString) : Grows w (w.credit uid owner) :=
  { Grows.refl w with
    identifiers := List.subset_cons_self _ _
    created := List.subset_cons_self _ _ }

/-- No call forgets anything. -/
theorem grows_respond (choice : Choice) (c : Call) (w : World) :
    Grows w (respond choice c w).2 := by
  have heffect := respond_effect choice c w
  generalize (respond choice c w).2 = w' at heffect ⊢
  cases heffect with
  | none => exact Grows.refl w
  | updateBinding => exact grows_settleBinding w _
  | patchBindingStatus => exact grows_saveBinding w _
  | create => exact (grows_credit w _ _).trans (grows_saveObject _ _)
  | updateObject => exact grows_saveObject w _
  | terminate => exact grows_saveObject w _
  | remove => exact grows_dropObject w _
  | issue =>
    exact { Grows.refl w with
      identifiers := List.subset_cons_self _ _
      claims := List.subset_cons_self _ _ }

/-! ## What others do -/

/-- A stored binding is saved with the same record. -/
theorem Spares.resave {b stored : Binding} (hstored : stored ∈ w.bindings.entries)
    (hkey : b.key = stored.key) (huid : b.uid = stored.uid) (hrecord : b.record = stored.record)
    (hdeleting : stored.deleting = true → b.deleting = true)
    (hpinned : inferenceIdentityBindingFinalizer ∈ stored.finalizers →
      inferenceIdentityBindingFinalizer ∈ b.finalizers) : Spares S u w (w.saveBinding b) where
  toGrows := grows_saveBinding w b
  resolve := by
    intro _ b' hb'
    by_cases hnone : b'.record = unrecorded
    · exact Or.inl hnone
    · refine Or.inr ?_
      rcases Store.mem_put.mp hb' with rfl | ⟨hb', -⟩
      · exact ⟨stored, hstored, hkey.symm, huid.symm, hrecord ▸ hnone, Or.inl hrecord⟩
      · exact ⟨b', hb', rfl, rfl, hnone, Or.inl rfl⟩
  newcomers := by
    intro _ b' hb'
    rcases Store.mem_put.mp hb' with rfl | ⟨hb', -⟩
    · exact Or.inl ⟨stored, hstored, hkey.symm, huid.symm⟩
    · exact Or.inl ⟨b', hb', rfl, rfl⟩
  outputs := fun _ _ o ho => ⟨o, ho, rfl, rfl, rfl, rfl⟩
  records := by
    intro _ b' hb' hu
    rcases Store.mem_put.mp hb' with rfl | ⟨hb', -⟩
    · exact ⟨stored, hstored, huid.symm.trans hu, hrecord.symm, hdeleting⟩
    · exact ⟨b', hb', hu, rfl, id⟩
  pinned := by
    intro _ v hv hvu hfin
    by_cases hvk : v.key = b.key
    · obtain rfl := w.bindings.eq_of_key_eq hv hstored (hvk.trans hkey)
      exact ⟨_, Store.mem_put.mpr (Or.inl rfl), huid.trans hvu, hpinned hfin⟩
    · exact ⟨v, Store.mem_put.mpr (Or.inr ⟨hv, hvk⟩), hvu, hfin⟩
  alive := fun _ _ ho _ => ho

/-- A binding that does not hold the finalizer goes away. -/
theorem Spares.drop {stored : Binding} {key : NamespacedName} (hstored : stored ∈ w.bindings.entries)
    (hkey : stored.key = key)
    (hfin : inferenceIdentityBindingFinalizer ∉ stored.finalizers ∨ stored.uid ≠ u) :
    Spares S u w (w.dropBinding key) where
  toGrows := grows_dropBinding w key
  resolve := by
    intro _ b hb
    by_cases hnone : b.record = unrecorded
    · exact Or.inl hnone
    · exact Or.inr ⟨b, (Store.mem_erase.mp hb).1, rfl, rfl, hnone, Or.inl rfl⟩
  newcomers := fun _ b hb => Or.inl ⟨b, (Store.mem_erase.mp hb).1, rfl, rfl⟩
  outputs := fun _ _ o ho => ⟨o, ho, rfl, rfl, rfl, rfl⟩
  records := fun _ b hb hu => ⟨b, (Store.mem_erase.mp hb).1, hu, rfl, id⟩
  pinned := by
    intro _ v hv hvu hvfin
    refine ⟨v, Store.mem_erase.mpr ⟨hv, ?_⟩, hvu, hvfin⟩
    intro hvk
    obtain rfl := w.bindings.eq_of_key_eq hv hstored (hvk.trans hkey.symm)
    exact hfin.elim (absurd hvfin) (absurd hvu)
  alive := fun _ _ ho _ => ho

/-- A new binding, under a new UID. -/
theorem Spares.createBinding (h : History w) {b : Binding} (habsent : w.bindings.get b.key = none)
    (huid : b.uid ∉ w.identifiers) (hrecord : b.record = unrecorded) (hu : b.uid ≠ u) :
    Spares S u w ((w.note [b.uid]).saveBinding b) where
  toGrows := (grows_note w [b.uid]).trans (grows_saveBinding _ b)
  resolve := by
    intro _ b' hb'
    by_cases hnone : b'.record = unrecorded
    · exact Or.inl hnone
    · refine Or.inr ?_
      rcases Store.mem_put.mp hb' with rfl | ⟨hb', -⟩
      · exact absurd hrecord hnone
      · exact ⟨b', hb', rfl, rfl, hnone, Or.inl rfl⟩
  newcomers := by
    intro _ b' hb'
    rcases Store.mem_put.mp hb' with rfl | ⟨hb', -⟩
    · exact Or.inr (h.not_output_of_fresh huid)
    · exact Or.inl ⟨b', hb', rfl, rfl⟩
  outputs := fun _ _ o ho => ⟨o, ho, rfl, rfl, rfl, rfl⟩
  records := by
    intro _ b' hb' hb'u
    rcases Store.mem_put.mp hb' with rfl | ⟨hb', -⟩
    · exact absurd hb'u hu
    · exact ⟨b', hb', hb'u, rfl, id⟩
  pinned := by
    intro _ v hv hvu hfin
    exact ⟨v, Store.mem_put.mpr (Or.inr ⟨hv, Store.get_eq_none.mp habsent v hv⟩), hvu, hfin⟩
  alive := fun _ _ ho _ => ho

/-- A claim is issued. -/
theorem Spares.issueClaim (S : Setting) (u : GoString) (w : World) (claim owner : GoString) :
    Spares S u w (w.issueClaim claim owner) := by
  have hgrows : Grows w (w.issueClaim claim owner) :=
    { Grows.refl w with
      identifiers := List.subset_cons_self _ _
      claims := List.subset_cons_self _ _ }
  exact (Calm.of_bindings hgrows rfl fun _ _ o ho => ⟨o, ho, rfl, rfl, rfl, rfl⟩).spares rfl
    fun _ _ ho _ => ho

/-- Somebody else's object is saved. -/
theorem Spares.saveForeign {o : ClusterSPIFFEID} (ids : List GoString)
    (hforeign : S.Closed → ∀ v, (o.uid, v) ∉ w.created)
    (hslot : S.Closed → ∀ x ∈ w.objects.entries, x.name = o.name → ∀ v, (x.uid, v) ∉ w.created) :
    Spares S u w ((w.note ids).saveObject o) := by
  refine (Calm.of_bindings ((grows_note w ids).trans (grows_saveObject _ o)) rfl ?_).spares rfl ?_
  · intro hc v x hx
    rcases output_saveObject hx with ⟨rfl, hcreated⟩ | ⟨hx, -⟩
    · exact absurd hcreated (hforeign hc v)
    · exact ⟨x, hx, rfl, rfl, rfl, rfl⟩
  · intro hc x hx _
    exact ⟨Store.mem_put.mpr (Or.inr ⟨hx.1, fun hname => hslot hc x hx.1 hname u hx.2⟩), hx.2⟩

theorem calm_dropObject (w : World) (name : GoString) : Calm S w (w.dropObject name) :=
  Calm.of_bindings (grows_dropObject w name) rfl fun _ _ x hx =>
    ⟨x, output_dropObject hx, rfl, rfl, rfl, rfl⟩

/-- In an untidy setting a reconcile relies on the past only. -/
theorem Spares.of_grows (hgrows : Grows w w') (hS : ¬S.Tidy) : Spares S u w w' where
  toGrows := hgrows
  resolve := fun ht => absurd ht hS
  newcomers := fun hc => absurd hc.tidy hS
  outputs := fun hc => absurd hc.tidy hS
  records := fun ht => absurd ht hS
  pinned := fun hc => absurd hc.tidy hS
  alive := fun hc => absurd hc.tidy hS

theorem foreign_of_closed (hc : S.Closed) {o : ClusterSPIFFEID}
    (h : S.intrusion = true ∨ w.Foreign o) (v : GoString) : (o.uid, v) ∉ w.created := by
  rcases h with h | h
  · rw [hc.2] at h
    cases h
  · exact h.not_created v

/-- The UID of the binding an operation creates. -/
def UserOp.newUID : UserOp → Option GoString
  | .createBinding _ uid _ _ => some uid
  | _ => none

/-- Others leave the record, finalizer and live output of every binding there is alone. -/
theorem spares_user (h : Inv S w) {op : UserOp} (hop : op.Permitted S w) (hu : op.newUID ≠ some u) :
    Spares S u w (op.apply w) := by
  cases op with
  | createBinding key uid finalizers spec =>
    exact Spares.createBinding h.history (b := ⟨key, uid, 0, 1, false, finalizers, spec, {}⟩)
      hop.1 hop.2.2 rfl fun huid => hu (congrArg some huid)
  | editBinding key spec =>
    rw [UserOp.apply]
    split
    · exact Spares.refl S u w
    · rename_i b hb
      exact Spares.resave (Store.get_eq_some.mp hb).1 rfl rfl rfl id id
  | deleteBinding key =>
    rw [UserOp.apply]
    split
    · exact Spares.refl S u w
    · rename_i b hb
      rw [World.settleBinding]
      split_ifs with hgone
      · refine Spares.drop (Store.get_eq_some.mp hb).1 rfl (Or.inl ?_)
        rw [show b.finalizers = [] from hgone.2]
        exact List.not_mem_nil
      · exact Spares.resave (Store.get_eq_some.mp hb).1 rfl rfl rfl (fun _ => rfl) id
  | writeBinding key finalizers status =>
    have hforgery : ¬S.Tidy := fun ht => by
      have := ht.honest
      simp [Setting.Honest, hop.1] at this
    rw [UserOp.apply]
    split
    · exact Spares.refl S u w
    · exact Spares.of_grows (grows_settleBinding w _) hforgery
  | createObject uid object =>
    refine Spares.saveForeign (o := object.createdAs uid)
      [uid, clusterSPIFFEIDOwnershipClaim object] ?_ ?_
    · exact fun _ v hv => hop.2.1.2 (h.history.created_known _ hv).1
    · exact fun _ x hx hname => absurd hname (Store.get_eq_none.mp hop.1 x hx)
  | modifyObject object =>
    rw [UserOp.apply]
    split
    · exact Spares.refl S u w
    · rename_i stored hstored
      obtain ⟨hmem, hname⟩ := Store.get_eq_some.mp hstored
      have hforeign := (hop.2 stored hstored).2
      refine Spares.saveForeign (o := { stored.replacedBy object with uid := stored.uid })
        [clusterSPIFFEIDOwnershipClaim object] ?_ ?_
      · exact fun hc => foreign_of_closed hc hforeign
      · intro hc x hx hxname
        rw [w.objects.eq_of_key_eq hx hmem (hxname.trans hname.symm)]
        exact foreign_of_closed hc hforeign
  | terminateObject name =>
    rw [UserOp.apply]
    split
    · exact Spares.refl S u w
    · rename_i stored hstored
      have hforeign := hop stored hstored
      refine Spares.saveForeign (o := stored.markedDeleted) [] ?_ ?_
      · exact fun hc => foreign_of_closed hc hforeign
      · intro hc x hx hxname
        rw [w.objects.eq_of_key_eq hx (Store.get_eq_some.mp hstored).1 hxname]
        exact foreign_of_closed hc hforeign
  | removeObject name =>
    refine (calm_dropObject w name).spares rfl ?_
    intro hc o ho hterm
    refine ⟨Store.mem_erase.mpr ⟨ho.1, ?_⟩, ho.2⟩
    intro hname
    rcases hop o (Store.get_eq_some.mpr ⟨ho.1, hname⟩) with hforeign | hforeign | hterm'
    · exact foreign_of_closed hc (Or.inl hforeign) u ho.2
    · exact hforeign.not_created u ho.2
    · rw [hterm] at hterm'
      cases hterm'
  | putPool pool => exact Spares.withPools S u w (w.pools.put pool) w.served
  | deletePool key => exact Spares.withPools S u w (w.pools.erase key) w.served
  | serve kinds => exact Spares.withPools S u w w.pools kinds

/-! ## What the operator does for other bindings -/

/-- The calls the operator makes for the binding with one UID: it reads, resolves the binding's
record and deletes its output. -/
def CallFor (owner : GoString) : Call → Prop
  | .patchBindingStatus .ownership base status =>
    base.uid = owner ∧ status.pendingClusterSPIFFEID = none
  | .patchBindingStatus .ordinary _ _ => False
  | .deleteClusterSPIFFEID owner' _ _ => owner' = owner
  | .updateBinding _ => False
  | .createClusterSPIFFEID _ _ => False
  | .updateClusterSPIFFEID _ _ => False
  | .newUUID _ => False
  | _ => True

/-- An ownership patch that takes effect hits the version its base goes back to. -/
theorem Based.stored_eq (h : History w) {m stored : Binding} (hm : Based S w m)
    (hstored : w.bindings.get m.key = some stored)
    (hversion : stored.resourceVersion = m.resourceVersion) :
    stored = { m with status := stored.status } ∧ stored.record = m.record ∧
      (S.Tidy → m.status.Tracks stored.status) := by
  obtain ⟨v, hv, hcopy, hrecord, htracks⟩ := hm
  have hvv : v.resourceVersion = m.resourceVersion := by rw [hcopy]
  obtain rfl := h.binding_inj v hv stored (h.binding_mem stored (Store.get_eq_some.mp hstored).1)
    (hvv.trans hversion.symm)
  exact ⟨hcopy, hrecord, htracks⟩

/-- A transfer that does not reserve starts from a record. -/
theorem Transfer.record_ne {m : Binding} {status : Status} (h : Transfer S log w m status)
    (hpending : status.pendingClusterSPIFFEID = none) : m.record ≠ unrecorded := by
  cases h with
  | reserve => cases hpending
  | confirm hrecord => simp [hrecord, unrecorded]
  | clear hrecord => exact hrecord

/-- A resolving patch changes one binding's record, and from there to nothing pending. -/
theorem calm_ownershipPatch (h : Inv S w) {base stored : Binding} {status : Status}
    (hstored : w.bindings.get base.key = some stored)
    (hversion : stored.resourceVersion = base.resourceVersion) (hbased : Based S w base)
    (htransfer : Transfer S log w base status)
    (hpending : status.pendingClusterSPIFFEID = none) :
    Calm S w (w.saveBinding (stored.patchedBy base status)) ∧
      (u ≠ base.uid → Spares S u w (w.saveBinding (stored.patchedBy base status))) := by
  obtain ⟨hmem, hkey⟩ := Store.get_eq_some.mp hstored
  obtain ⟨hcopy, hrecord, -⟩ := hbased.stored_eq h.history hstored hversion
  have huid : stored.uid = base.uid := by rw [hcopy]
  have hnew : (mergeStatus base.status status stored.status).pendingClusterSPIFFEID = none := by
    rw [(record_eq_iff.mp (record_mergeStatus status hrecord)).1, hpending]
  have hcalm : Calm S w (w.saveBinding (stored.patchedBy base status)) := {
    grows_saveBinding w (stored.patchedBy base status) with
    resolve := by
      intro _ b' hb'
      by_cases hnone : b'.record = unrecorded
      · exact Or.inl hnone
      · refine Or.inr ?_
        rcases Store.mem_put.mp hb' with rfl | ⟨hb', -⟩
        · exact ⟨stored, hmem, rfl, rfl, hrecord ▸ htransfer.record_ne hpending, Or.inr hnew⟩
        · exact ⟨b', hb', rfl, rfl, hnone, Or.inl rfl⟩
    newcomers := by
      intro _ b' hb'
      rcases Store.mem_put.mp hb' with rfl | ⟨hb', -⟩
      · exact Or.inl ⟨stored, hmem, rfl, rfl⟩
      · exact Or.inl ⟨b', hb', rfl, rfl⟩
    outputs := fun _ _ o ho => ⟨o, ho, rfl, rfl, rfl, rfl⟩ }
  refine ⟨hcalm, fun hne => { hcalm with records := ?_, pinned := ?_, alive := fun _ _ ho _ => ho }⟩
  · intro _ b' hb' hb'u
    rcases Store.mem_put.mp hb' with rfl | ⟨hb', -⟩
    · exact absurd (hb'u.symm.trans huid) hne
    · exact ⟨b', hb', hb'u, rfl, id⟩
  · intro _ v hv hvu hfin
    refine ⟨v, Store.mem_put.mpr (Or.inr ⟨hv, ?_⟩), hvu, hfin⟩
    intro hvk
    obtain rfl := w.bindings.eq_of_key_eq hv hmem hvk
    exact hne (hvu.symm.trans huid)

/-- The outputs of one binding are out of the reach of a deletion for another. -/
theorem Deletion.name_ne (h : History w) {owner uid : GoString} {stored o : ClusterSPIFFEID}
    (hmem : stored ∈ w.objects.entries) (huid : stored.uid = uid) (hguard : Deletion S w owner uid)
    (hc : S.Closed) (hu : u ≠ owner) (ho : w.Output u o) : o.name ≠ stored.name := by
  intro hname
  obtain rfl := w.objects.eq_of_key_eq ho.1 hmem hname
  exact hu (h.owner_eq (huid ▸ ho.2) (hguard.created hc.honest))

/-- **The operator's calls for one binding** let nobody come to own anything, and leave the
records, finalizers and outputs of all others alone. -/
theorem calm_respond (h : Inv S w) {c : Call} {choice : Choice} {owner : GoString}
    (hguard : Guard r S log w c) (hcall : CallFor owner c) :
    Calm S w (respond choice c w).2 ∧ (u ≠ owner → Spares S u w (respond choice c w).2) := by
  have heffect := respond_effect choice c w
  generalize (respond choice c w).2 = w' at heffect ⊢
  cases heffect with
  | none => exact ⟨(Spares.refl S owner w).toCalm, fun _ => Spares.refl S u w⟩
  | @patchBindingStatus kind base stored status _ _ hstored hversion hadmitted =>
    cases kind with
    | ordinary => exact hcall.elim
    | ownership =>
      have hcalm := calm_ownershipPatch (u := u) h hstored hversion hguard.1 hguard.2 hcall.2
      exact ⟨hcalm.1, fun hu => hcalm.2 (hcall.1 ▸ hu)⟩
  | @terminate owner' name uid _ stored _ hstored huid =>
    obtain ⟨hmem, -⟩ := Store.get_eq_some.mp hstored
    have hcalm : Calm S w (w.saveObject stored.markedDeleted) := by
      refine Calm.of_bindings (grows_saveObject w _) rfl ?_
      intro _ v x hx
      rcases output_saveObject hx with ⟨rfl, hcreated⟩ | ⟨hx, -⟩
      · exact ⟨stored, ⟨hmem, hcreated⟩, rfl, rfl, rfl, rfl⟩
      · exact ⟨x, hx, rfl, rfl, rfl, rfl⟩
    refine ⟨hcalm, fun hu => hcalm.spares rfl ?_⟩
    intro hc o ho _
    have hname := Deletion.name_ne h.history hmem huid hguard hc (hcall.symm ▸ hu) ho
    exact ⟨Store.mem_put.mpr (Or.inr ⟨ho.1, hname⟩), ho.2⟩
  | @remove owner' name uid _ stored _ hstored huid =>
    obtain ⟨hmem, hstoredName⟩ := Store.get_eq_some.mp hstored
    refine ⟨calm_dropObject w name, fun hu => (calm_dropObject w name).spares rfl ?_⟩
    intro hc o ho _
    have hname := Deletion.name_ne h.history hmem huid hguard hc (hcall.symm ▸ hu) ho
    exact ⟨Store.mem_erase.mpr ⟨ho.1, hstoredName ▸ hname⟩, ho.2⟩
  | updateBinding => exact hcall.elim
  | create => exact hcall.elim
  | updateObject => exact hcall.elim
  | issue => exact hcall.elim

end Kleym
