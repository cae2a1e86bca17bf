import Kleym.Rely

/-!
# The operator as one side of a protocol

`operatorProtocol` puts the pieces together: the calls of the operator are answered by
`respond`, others move the cluster as far as `Rely` lets them, and every call has its
contract. What a reconcile knows about a binding it holds a copy of is `Held`.
-/

namespace Kleym

open GoString

/-! ## The protocol -/

/-- The cluster, and the calls of a reconcile so far. -/
structure Scene where
  world : World
  log : Log

/-- What others do between two calls of a reconcile. -/
def Rely (S : Setting) (w w' : World) : Prop :=
  Inv S w → Inv S w' ∧ Calm S w w' ∧ (∀ u ∈ w.identifiers, Spares S u w w') ∧
    (S.Tidy → S.overlap = false → w'.bindings = w.bindings)

theorem Rely.refl (S : Setting) (w : World) : Rely S w w :=
  fun h => ⟨h, (Spares.refl S [] w).toCalm, fun u _ => Spares.refl S u w, fun _ _ => rfl⟩

theorem Rely.trans {S : Setting} {w w' w'' : World} (h : Rely S w w') (h' : Rely S w' w'') :
    Rely S w w'' := by
  intro hinv
  obtain ⟨hinv', hcalm, hspares, hbindings⟩ := h hinv
  obtain ⟨hinv'', hcalm', hspares', hbindings'⟩ := h' hinv'
  exact ⟨hinv'', hcalm.trans hcalm',
    fun u hu => (hspares u hu).trans (hspares' u (hcalm.identifiers hu)),
    fun ht ho => (hbindings' ht ho).trans (hbindings ht ho)⟩

/-- A call and its answer, with the state it leaves. -/
structure Answered (S : Setting) (c : Call) (s : Scene) (a : Answer c) (s' : Scene) : Prop where
  choice : ∃ choice, Admissible S choice c s.world ∧ respond choice c s.world = (a, s'.world)
  log : s'.log = s.log ++ [⟨c, a⟩]

/-- The protocol between the operator and everybody else. -/
def operatorProtocol (r : Reconciler) (S : Setting) : Protocol Call Answer Scene where
  env s s' := s'.log = s.log ∧ Rely S s.world s'.world
  api := Answered S
  inv s := Inv S s.world
  guard c s := Guard r S s.log s.world c
  env_refl s := ⟨rfl, Rely.refl S s.world⟩
  env_trans h h' := ⟨h'.1.trans h.1, h.2.trans h'.2⟩
  inv_env hinv h := (h.2 hinv).1
  inv_api := by
    intro c s a s' hinv hguard hapi
    obtain ⟨choice, hadmissible, hrespond⟩ := hapi.choice
    have h := hinv.respond hguard hadmissible.fresh
    rwa [hrespond] at h

/-! ## What is known about a copy -/

section Held

variable (S : Setting) (w : World) (m : Binding)

/-- The object of a pending claim is there to stay. -/
def Occupied : Prop :=
  ∀ p ∈ m.status.pendingClusterSPIFFEID,
    ∃ o, w.Output m.uid o ∧ o.name = p.name ∧ o.terminating = false

/-- The record of a copy is the persisted one, unless another copy of a binding that is
being deleted has resolved it since. -/
def Abreast : Prop :=
  ∀ b ∈ w.bindings.entries, b.uid = m.uid → b.record = m.record ∨
    (b.deleting = true ∧ m.record ≠ unrecorded ∧ b.status.pendingClusterSPIFFEID = none ∧
      (S.Closed → (¬S.Strict ∧ b.record = unrecorded) ∨ Occupied w m))

/-- The record of a copy covers every output of the binding. -/
def Covered : Prop := ∀ o, w.Output m.uid o → Covers m.record o

/-- Where a copy names something, what is persisted names the same or is resolved. -/
def Resolved : Prop :=
  m.record ≠ unrecorded → ∀ b ∈ w.bindings.entries, b.uid = m.uid →
    b.record = m.record ∨ b.status.pendingClusterSPIFFEID = none

/-- What is stored under the key of a copy and is not the binding owns nothing. -/
def Sole : Prop :=
  ∀ b ∈ w.bindings.entries, b.key = m.key → b.uid ≠ m.uid →
    b.record = unrecorded ∧ (S.Closed → ∀ o, ¬w.Output b.uid o)

/-- What a reconcile knows about a copy of a binding it works on. Once a patch of the
record has failed, the copy may have fallen behind (it is no longer `sharp`). Of a
binding that is being deleted and has no record the outputs are known only when they
have been checked (`firm`). -/
structure Held (sharp firm : Prop) : Prop where
  based : Based S w m
  abreast : S.Tidy → sharp → Abreast S w m
  resolved : S.Tidy → Resolved w m
  covered : S.Closed → firm ∨ S.Strict ∨ m.deleting = false ∨ m.record ≠ unrecorded → Covered w m
  sole : S.Tidy → Sole S w m

end Held

section

variable {S : Setting} {w w' : World} {m : Binding} {sharp firm : Prop}

theorem Based.grows (h : Based S w m) (hgrows : Grows w w') : Based S w' m := by
  obtain ⟨v, hv, hcopy⟩ := h
  exact ⟨v, hgrows.bindingVersions hv, hcopy⟩

theorem Based.known (h : Based S w m) (hhistory : History w) : m.uid ∈ w.identifiers := by
  obtain ⟨v, hv, hcopy, -⟩ := h
  have huid : v.uid = m.uid := by rw [hcopy]
  exact huid ▸ hhistory.binding_known v hv

theorem Held.mono {sharp' firm' : Prop} (h : Held S w m sharp firm) (hsharp : sharp' → sharp)
    (hfirm : firm' → firm) : Held S w m sharp' firm' :=
  { h with
    abreast := fun ht hs => h.abreast ht (hsharp hs)
    covered := fun hc hcase => h.covered hc (hcase.imp hfirm id) }

/-- Where the record says something, it is checked. -/
theorem Held.firm_of_record (h : Held S w m sharp firm) (hrecord : m.record ≠ unrecorded) :
    Held S w m sharp True :=
  { h with covered := fun hc _ => h.covered hc (Or.inr (Or.inr (Or.inr hrecord))) }

theorem Covers.congr {record : Record} {o o' : ClusterSPIFFEID} (h : Covers record o)
    (hname : o.name = o'.name) (huid : o.uid = o'.uid)
    (hclaim : clusterSPIFFEIDOwnershipClaim o = clusterSPIFFEIDOwnershipClaim o') :
    Covers record o' := by
  rwa [Covers, hname, huid, hclaim] at h

theorem not_covers_unrecorded (o : ClusterSPIFFEID) : ¬Covers unrecorded o := by
  rintro (⟨_, hp, -⟩ | ⟨_, hq, -⟩)
  · cases hp
  · cases hq

theorem Covered.calm (h : Covered w m) (hc : S.Closed) (hcalm : Calm S w w') : Covered w' m := by
  intro o' ho'
  obtain ⟨o, ho, hname, huid, hclaim, -⟩ := hcalm.outputs hc m.uid o' ho'
  exact (h o ho).congr hname huid hclaim

theorem not_output_calm {u : GoString} (h : ∀ o, ¬w.Output u o) (hc : S.Closed)
    (hcalm : Calm S w w') : ∀ o, ¬w'.Output u o := by
  intro o' ho'
  obtain ⟨o, ho, -⟩ := hcalm.outputs hc u o' ho'
  exact h o ho

theorem Sole.calm (h : Sole S w m) (ht : S.Tidy) (hcalm : Calm S w w') : Sole S w' m := by
  intro b' hb' hkey huid
  constructor
  · rcases hcalm.resolve ht b' hb' with hnone | ⟨b, hb, hbk, hbu, hne, -⟩
    · exact hnone
    · exact absurd (h b hb (hbk.trans hkey) (hbu ▸ huid)).1 hne
  · intro hc
    rcases hcalm.newcomers hc b' hb' with ⟨b, hb, hbk, hbu⟩ | hfree
    · exact hbu ▸ not_output_calm ((h b hb (hbk.trans hkey) (hbu ▸ huid)).2 hc) hc hcalm
    · exact hfree

theorem Resolved.spares (h : Resolved w m) (ht : S.Tidy) (hspares : Spares S m.uid w w') :
    Resolved w' m := by
  intro hne b' hb' huid'
  obtain ⟨b, hb, huid, hrecord, -⟩ := hspares.records ht b' hb' huid'
  rcases h hne b hb huid with hsame | hnone
  · exact Or.inl (hrecord.symm.trans hsame)
  · exact Or.inr ((record_eq_iff.mp hrecord).1.symm.trans hnone)

theorem Abreast.resolved (h : Abreast S w m) : Resolved w m := by
  intro _ b hb huid
  rcases h b hb huid with hsame | ⟨-, -, hnone, -⟩
  · exact Or.inl hsame
  · exact Or.inr hnone

theorem Occupied.spares (h : Occupied w m) (hc : S.Closed) (hspares : Spares S m.uid w w') :
    Occupied w' m := by
  intro p hp
  obtain ⟨o, ho, hname, hterm⟩ := h p hp
  exact ⟨o, hspares.alive hc o ho hterm, hname, hterm⟩

theorem Abreast.spares (h : Abreast S w m) (ht : S.Tidy) (hspares : Spares S m.uid w w') :
    Abreast S w' m := by
  intro b' hb' huid'
  obtain ⟨b, hb, huid, hrecord, hdeleting⟩ := hspares.records ht b' hb' huid'
  rcases h b hb huid with hsame | ⟨hdel, hne, hpending, hclosed⟩
  · exact Or.inl (hrecord.symm.trans hsame)
  · refine Or.inr ⟨hdeleting hdel, hne, (record_eq_iff.mp hrecord).1.symm.trans hpending,
      fun hc => (hclosed hc).imp ?_ fun h => h.spares hc hspares⟩
    exact fun hnone => ⟨hnone.1, hrecord.symm.trans hnone.2⟩

/-- What is known about a binding survives whatever spares it. -/
theorem Held.spares (h : Held S w m sharp firm) (hspares : Spares S m.uid w w') :
    Held S w' m sharp firm where
  based := h.based.grows hspares.toGrows
  abreast := fun ht hs => (h.abreast ht hs).spares ht hspares
  resolved := fun ht => (h.resolved ht).spares ht hspares
  covered := fun hc hcase => (h.covered hc hcase).calm hc hspares.toCalm
  sole := fun ht => (h.sole ht).calm ht hspares.toCalm

/-- A move that leaves the bindings, and outputs as far as records name them, is nothing to a
copy without a pending claim. -/
theorem Held.of_bindings (h : Held S w m sharp firm) (hgrows : Grows w w')
    (hbindings : w'.bindings = w.bindings) (hpending : m.status.pendingClusterSPIFFEID = none)
    (houtputs : S.Closed → ∀ u o', w'.Output u o' → ∃ o, w.Output u o ∧ o.name = o'.name ∧
      o.uid = o'.uid ∧ clusterSPIFFEIDOwnershipClaim o = clusterSPIFFEIDOwnershipClaim o') :
    Held S w' m sharp firm where
  based := h.based.grows hgrows
  abreast := by
    intro ht hs b hb huid
    rw [hbindings] at hb
    rcases h.abreast ht hs b hb huid with hsame | ⟨hdel, hne, hnone, -⟩
    · exact Or.inl hsame
    · exact Or.inr ⟨hdel, hne, hnone, fun _ => Or.inr fun p hp => by rw [hpending] at hp; cases hp⟩
  resolved := by
    intro ht hne b hb
    rw [hbindings] at hb
    exact h.resolved ht hne b hb
  covered := by
    intro hc hcase o' ho'
    obtain ⟨o, ho, hname, huid, hclaim⟩ := houtputs hc m.uid o' ho'
    exact (h.covered hc hcase o ho).congr hname huid hclaim
  sole := by
    intro ht b hb hkey huid
    rw [hbindings] at hb
    obtain ⟨hrecord, hfree⟩ := h.sole ht b hb hkey huid
    refine ⟨hrecord, fun hc o' ho' => ?_⟩
    obtain ⟨o, ho, -⟩ := houtputs hc b.uid o' ho'
    exact hfree hc o ho

/-- A copy that was just read. -/
theorem Held.of_read (h : Inv S w) (hversion : m ∈ w.bindingVersions)
    (hstored : S.Tidy → m ∈ w.bindings.entries) : Held S w m True False := by
  have habreast : S.Tidy → Abreast S w m := by
    intro ht b hb huid
    rw [h.history.binding_eq hb (hstored ht) huid]
    exact Or.inl rfl
  refine ⟨⟨m, hversion, rfl, rfl, fun ht => .refl (h.classified ht m hversion).nodup⟩,
    fun ht _ => habreast ht, fun ht => (habreast ht).resolved, fun hc hcase => ?_,
    fun ht b hb hkey huid => ?_⟩
  · exact (h.accounted hc).covered m (hstored hc.tidy) (hcase.resolve_left id)
  · rw [w.bindings.eq_of_key_eq hb (hstored ht) hkey] at huid
    exact absurd rfl huid

end

end Kleym
