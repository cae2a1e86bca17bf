import Kleym.Observation

/-!
# Moving the record

The functions that move the ownership record of a binding or act on what it names. Each
is proved safe once: its calls keep their contracts, and what is known about the copy it
works on is known about the copy it returns. When a call fails the copy still goes back
to a version of the binding, and nothing else is known about it.
-/

namespace Kleym

open GoString Prog Protocol

variable {r : Reconciler} {S : Setting} {s s' : Scene} {m m' : Binding} {sharp firm : Prop}

/-- What holds when a function hands back a later copy with a result. When it fails the copy
may have fallen behind. -/
def Handing (S : Setting) (m : Binding) (firm : Prop) {α : Type} (Q : Binding → α → Scene → Prop) :
    Binding × Except GoError α → Scene → Prop
  | (m', .ok a), s => Continues m m' ∧ Q m' a s
  | (m', .error _), s => Continues m m' ∧ Held S s.world m' False firm

/-! ## Ownership patches -/

/-- The persisted status after a transfer is tracked by the copy in memory. -/
theorem Transfer.tracks {w : World} {log : Log} {status v : Status} (h : Transfer S log w m status)
    (hrecord : v.record = m.record) (htracks : m.status.Tracks v) (hv : v.UniqueTypes) :
    status.Tracks (mergeStatus m.status status v) := by
  cases h with
  | @reserve name claim =>
    obtain ⟨hunique, ⟨hcomputed, hselectors, houtput⟩, hconflicts, hverdict⟩ :=
      mergeStatus_reserved htracks hv name claim
    refine ⟨htracks.unique.applyWaiting m.generation _, hcomputed.symm, hselectors.symm,
      houtput.symm, hconflicts.symm, fun t x hx => Or.inr ?_⟩
    have hreserved : (reservedStatus m name claim).verdict = reservedVerdicts :=
      verdict_applyWaiting m.status m.generation _
    rw [hverdict, ← hreserved, hx]
  | confirm =>
    rw [mergeStatus_confirmed hrecord]
    exact htracks.withRecord _ _ _ _
  | clear =>
    rw [mergeStatus_cleared hrecord]
    exact htracks.withRecord _ _ _ _

/-- After a transfer the new record covers what the binding owns. -/
theorem Transfer.covered {w : World} {log : Log} {status : Status} (h : Transfer S log w m status)
    (hinv : Inv S w) (hc : S.Closed) {stored : Binding} (hstored : stored ∈ w.bindings.entries)
    (huid : stored.uid = m.uid) (hrecord : stored.record = m.record) {o : ClusterSPIFFEID}
    (ho : w.Output m.uid o) : Covers status.record o := by
  cases h with
  | reserve _ _ _ _ hfree => exact absurd ho (hfree hc o)
  | confirm _ _ _ hlive =>
    obtain ⟨o', ho', hname, huid', -⟩ := hlive hc stored hstored huid hrecord
    rw [(hinv.accounted hc).single m.uid o o' ho ho']
    exact covers_owned.mpr ⟨hname, huid'⟩
  | clear _ _ hfree => exact absurd ho (hfree hc o)

/-- A copy after its patch has arrived. -/
theorem Held.patched (h : Held S s.world m sharp firm) (hinv : Inv S s.world)
    (hinv' : Inv S s'.world) {status : Status} (htransfer : Transfer S s.log s.world m status)
    {target : Binding}
    (hapi : Answered S (.patchBindingStatus .ownership m status) s
      (.ok target : Except GoError Binding) s') :
    Held S s'.world { m with status := status, resourceVersion := target.resourceVersion }
      True True := by
  obtain ⟨stored, hstored, hversion, htarget, hworld⟩ := hapi.patchBindingStatus
  obtain ⟨hmem, hkey⟩ := Store.get_eq_some.mp hstored
  obtain ⟨hcopy, hrecord, htracks⟩ := h.based.stored_eq hinv.history hstored hversion
  have huid : stored.uid = m.uid := by rw [hcopy]
  have hnew : target ∈ s'.world.bindings.entries := by
    rw [htarget, hworld]
    exact Store.mem_put.mpr (Or.inl rfl)
  have htargetUid : target.uid = m.uid := by rw [htarget]; exact huid
  have htargetKey : target.key = m.key := by rw [htarget]; exact hkey
  have htargetRecord : target.record = status.record := by
    rw [htarget]
    exact record_mergeStatus status hrecord
  have houtput : ∀ u o, s'.world.Output u o ↔ s.world.Output u o := by
    intro u o
    rw [hworld]
    exact Iff.rfl
  have hsame : ∀ b ∈ s'.world.bindings.entries, b.uid = m.uid → b.record = status.record := by
    intro b hb hb'
    rw [hinv'.history.binding_eq hb hnew (hb'.trans htargetUid.symm)]
    exact htargetRecord
  refine ⟨⟨target, hinv'.history.binding_mem target hnew, ?_, htargetRecord, fun ht => ?_⟩,
    fun _ _ b hb hb' => Or.inl (hsame b hb hb'), fun _ _ b hb hb' => Or.inl (hsame b hb hb'),
    fun hc _ o ho => ?_, fun _ b hb hbk hbu => ?_⟩
  · rw [htarget, Binding.patchedBy, hcopy]
  · rw [htarget]
    exact htransfer.tracks hrecord (htracks ht)
      (hinv.classified ht stored (hinv.history.binding_mem stored hmem)).nodup
  · exact htransfer.covered hinv hc hmem huid hrecord ((houtput m.uid o).mp ho)
  · rw [s'.world.bindings.eq_of_key_eq hb hnew (hbk.trans htargetKey.symm)] at hbu
    exact absurd htargetUid hbu

/-- A copy after its patch may or may not have arrived. -/
theorem Held.lagging (h : Held S s.world m sharp firm) (hinv : Inv S s.world) {status : Status}
    (htransfer : Transfer S s.log s.world m status) {a : Except GoError Binding}
    (hapi : Answered S (.patchBindingStatus .ownership m status) s a s') :
    Held S s'.world m False firm := by
  obtain ⟨fresh, -, heffect⟩ := hapi.effect
  have hgrows := hapi.grows
  generalize s'.world = w' at heffect hgrows ⊢
  cases heffect with
  | none => exact h.mono False.elim id
  | patchBindingStatus hstored hversion hadmitted =>
    rename_i stored
    obtain ⟨hmem, -⟩ := Store.get_eq_some.mp hstored
    obtain ⟨hcopy, hrecord, -⟩ := h.based.stored_eq hinv.history hstored hversion
    have huid : stored.uid = m.uid := by rw [hcopy]
    refine ⟨h.based.grows hgrows, fun _ => False.elim, fun ht hne b hb hbu => ?_, h.covered,
      fun ht b hb hbk hbu => ?_⟩
    · rcases Store.mem_put.mp hb with rfl | ⟨hb, -⟩
      · right
        have hnew := (record_eq_iff.mp (record_mergeStatus status hrecord)).1
        refine hnew.trans ?_
        cases htransfer with
        | reserve hnone => exact absurd hnone hne
        | confirm => rfl
        | clear => rfl
      · exact h.resolved ht hne b hb hbu
    · rcases Store.mem_put.mp hb with rfl | ⟨hb, -⟩
      · exact absurd huid hbu
      · exact h.sole ht b hb hbk hbu

/-- `patchOwnershipStatus` is safe where a transfer is due. -/
theorem safe_patchOwnershipStatus (sharp firm : Prop) {A : Scene → Prop} {status : Status}
    (hA : (operatorProtocol r S).Stable A) (hinv : Inv S s.world) (hs : A s)
    (hdue : ∀ {s'}, A s' →
      Held S s'.world m sharp firm ∧ Transfer S s'.log s'.world m status) :
    (operatorProtocol r S).Safe (patchOwnershipStatus m status)
      (Handing S m firm fun m' _ s' => Held S s'.world m' True True ∧ m'.status = status) s := by
  refine (Safe.perform (c := Call.patchBindingStatus .ownership m status)
    (Q := Outcome
      (fun target s' => Held S s'.world
        { m with status := status, resourceVersion := target.resourceVersion } True True)
      fun _ s' => Held S s'.world m False firm) hA hinv hs ?_).bind hinv ?_
  · intro s₁ hinv₁ hs₁
    obtain ⟨hheld, htransfer⟩ := hdue hs₁
    refine ⟨⟨hheld.based, htransfer⟩, ?_⟩
    rintro (err | target) s₂ hapi hinv₂
    · exact hheld.lagging hinv₁ htransfer hapi
    · exact hheld.patched hinv₁ hinv₂ htransfer hapi
  · rintro (err | target) s₁ - h₁
    · exact ⟨.refl m, h₁⟩
    · exact ⟨rfl, h₁, rfl⟩

/-! ## Resolving a record -/

theorem subset_of_env (henv : (operatorProtocol r S).env s s') : s.log ⊆ s'.log := by
  rw [henv.1]
  exact List.Subset.refl _

/-- A program leaves the past behind it. -/
theorem safe_grows {α : Type} {p : Op α} {Q : α → Scene → Prop}
    (h : (operatorProtocol r S).Safe p Q s) (hinv : Inv S s.world) :
    (operatorProtocol r S).Safe p
      (fun a s' => Q a s' ∧ Grows s.world s'.world ∧ s.log ⊆ s'.log) s := by
  have hstable : (operatorProtocol r S).Stable
      fun s' => Grows s.world s'.world ∧ s.log ⊆ s'.log :=
    fun hinv₁ hF henv => ⟨hF.1.trans (henv.2 hinv₁).2.1.toGrows,
      List.Subset.trans hF.2 (subset_of_env henv)⟩
  refine (Safe.frame hstable ?_ (Always.trivial p) h hinv
    ⟨Grows.refl _, List.Subset.refl _⟩).mono hinv ?_
  · intro c s₁ a s₂ _ _ _ hF hapi _
    exact ⟨hF.1.trans (Answered.grows hapi), List.Subset.trans hF.2 (Answered.log_subset hapi)⟩
  · rintro a s₁ - ⟨hQ, -, hgrows⟩
    exact ⟨hQ, hgrows⟩

theorem stable_confirmable {p : PendingClusterSPIFFEIDStatus} {uid : GoString} :
    (operatorProtocol r S).Stable
      fun s => Held S s.world m sharp firm ∧ Confirmable S s m p uid := by
  intro s s' hinv h henv
  have hspares := spares_of_env hinv h.1.based henv
  exact ⟨h.1.spares hspares, h.2.carry (subset_of_env henv) hspares⟩

theorem stable_gone :
    (operatorProtocol r S).Stable fun s => Held S s.world m sharp firm ∧ Gone S s m := by
  intro s s' hinv h henv
  have hspares := spares_of_env hinv h.1.based henv
  exact ⟨h.1.spares hspares, h.2.carry (subset_of_env henv) hspares⟩

theorem safe_confirm {P : Platform} (hinv : Inv S s.world) (h : Held S s.world m sharp firm)
    {p : PendingClusterSPIFFEIDStatus} {name uid : GoString} (hname : name = p.name)
    (hp : Confirmable S s m p uid) :
    (operatorProtocol r S).Safe (confirmClusterSPIFFEIDOwnership P m name uid)
      (Handing S m firm fun m' _ s' =>
        Held S s'.world m' True True ∧ m'.record = (none, some ⟨name, uid⟩)) s := by
  rw [hname, confirmClusterSPIFFEIDOwnership]
  split_ifs
  · exact ⟨.refl m, h.mono False.elim id⟩
  · refine (safe_patchOwnershipStatus sharp firm stable_confirmable hinv ⟨h, hp⟩ ?_).mono hinv ?_
    · rintro _ ⟨h, hp⟩
      exact ⟨h, .confirm hp.record hp.sighted hp.created hp.live⟩
    · rintro ⟨m', err | ⟨⟩⟩ s' - ⟨hm', h'⟩
      · exact ⟨hm', h'⟩
      · refine ⟨hm', h'.1, ?_⟩
        rw [Binding.record, h'.2]
        rfl

theorem unrecorded_iff : m.record = unrecorded ↔
    m.status.pendingClusterSPIFFEID = none ∧ m.status.ownedClusterSPIFFEID = none := by
  rw [Binding.record, Status.record, unrecorded, Prod.mk.injEq]

theorem safe_clear (hinv : Inv S s.world) (h : Held S s.world m sharp firm)
    (hgone : m.record ≠ unrecorded → Gone S s m) :
    (operatorProtocol r S).Safe (clearClusterSPIFFEIDOwnership m)
      (Handing S m firm fun m' _ s' =>
        Held S s'.world m' sharp (firm ∨ m.record ≠ unrecorded) ∧ m'.record = unrecorded) s := by
  rw [clearClusterSPIFFEIDOwnership]
  split_ifs with hnone
  · have hrecord := unrecorded_iff.mpr hnone
    exact ⟨.refl m, h.mono id fun hcase => hcase.resolve_right (not_not_intro hrecord), hrecord⟩
  · have hrecord := mt unrecorded_iff.mp hnone
    refine (safe_patchOwnershipStatus sharp firm stable_gone hinv ⟨h, hgone hrecord⟩ ?_).mono hinv ?_
    · rintro _ ⟨h, hg⟩
      exact ⟨h, .clear hg.record hg.vanished hg.free⟩
    · rintro ⟨m', err | ⟨⟩⟩ s' - ⟨hm', h'⟩
      · exact ⟨hm', h'⟩
      · refine ⟨hm', h'.1.mono (fun _ => trivial) fun _ => trivial, ?_⟩
        rw [Binding.record, h'.2]
        rfl

/-! ## Listing and deleting -/

/-- What a listing of managed objects has established: the binding has no record, or the
one listed object is its confirmed output. -/
structure Listed (S : Setting) (s : Scene) (m' : Binding) (sharp firm : Prop)
    (objects : List ClusterSPIFFEID) : Prop where
  held : Held S s.world m' sharp firm
  none : objects = [] → m'.record = unrecorded
  some : ∀ o ∈ objects, Owned S s m' o

theorem safe_listManaged {P : Platform} (hinv : Inv S s.world) (h : Held S s.world m sharp firm) :
    (operatorProtocol r S).Safe (listManagedClusterSPIFFEIDs P m)
      (Handing S m firm fun m' objects s' =>
        Listed S s' m' sharp (firm ∨ m.record ≠ unrecorded) objects) s := by
  refine (safe_observe hinv h []).bind hinv ?_
  rintro (err | obs) s₁ hinv₁ hobs
  · exact ⟨.refl m, Held.mono hobs False.elim id⟩
  obtain ⟨h₁, hobs⟩ := hobs
  have hunrecorded : m.record = unrecorded → Held S s₁.world m sharp (firm ∨ m.record ≠ unrecorded) :=
    fun hrecord => h₁.mono id fun hcase => hcase.resolve_right (not_not_intro hrecord)
  cases obs with
  | unclaimedOutputAbsent =>
    exact ⟨.refl m, hunrecorded hobs.1, fun _ => hobs.1, by simp⟩
  | unclaimedOutputForeign o =>
    exact ⟨.refl m, hunrecorded hobs, fun _ => hobs, by simp⟩
  | confirmedOutputMatched o =>
    have howned : Owned S s₁ m o := hobs
    have hrecord : m.record ≠ unrecorded := by
      rw [howned.record]
      simp [unrecorded]
    refine ⟨.refl m, (h₁.firm_of_record hrecord).mono id fun _ => trivial, by simp, ?_⟩
    simpa using howned
  | pendingOutputMatched o =>
    obtain ⟨hversion, p, hname, hconfirm⟩ := hobs
    refine (safe_grows (safe_confirm hinv₁ h₁ hname hconfirm) hinv₁).bind hinv₁ ?_
    rintro ⟨m', err | ⟨⟩⟩ s₂ - ⟨⟨hm', h₂⟩, hgrows, -⟩
    · exact ⟨hm', h₂⟩
    · refine ⟨hm', h₂.1.mono (fun _ => trivial) fun _ => trivial, by simp, ?_⟩
      simp only [List.mem_singleton, forall_eq]
      refine ⟨h₂.2, hgrows.objectVersions hversion, fun hh => ?_⟩
      rw [hm'.uid]
      exact hgrows.created (hconfirm.created hh)
  | _ =>
    -- the incarnation is gone, for whatever reason
    have hgone : Gone S s₁ m := by first | exact hobs | exact hobs.1
    refine (safe_clear hinv₁ h₁ fun _ => hgone).bind hinv₁ ?_
    rintro ⟨m', err | ⟨⟩⟩ s₂ - ⟨hm', h₂⟩
    · exact ⟨hm', h₂⟩
    · exact ⟨hm', h₂.1, fun _ => h₂.2, by simp⟩

theorem Owned.grows {o : ClusterSPIFFEID} (h : Owned S s m o) (hgrows : Grows s.world s'.world) :
    Owned S s' m o :=
  ⟨h.record, hgrows.objectVersions h.version, fun hh => hgrows.created (h.created hh)⟩

/-- The contract of the deletion of a confirmed output. -/
theorem Owned.deletion {o : ClusterSPIFFEID} (h : Owned S s m o)
    (hheld : Held S s.world m sharp firm) : Deletion S s.world m.uid o.uid := by
  refine ⟨h.created, fun hc b hb huid => ?_⟩
  have hne : m.record ≠ unrecorded := by simp [h.record, unrecorded]
  rcases hheld.resolved hc.tidy hne b hb huid with hsame | hnone
  · rw [h.record] at hsame
    exact (Prod.mk.inj hsame).1
  · exact hnone

/-- A deletion takes nothing from the copy it is made for. -/
theorem Held.deleted (h : Held S s.world m sharp firm) (hinv : Inv S s.world) {o : ClusterSPIFFEID}
    (ho : Owned S s m o)
    (hguard : Guard r S s.log s.world (.deleteClusterSPIFFEID m.uid o.name o.uid))
    {a : Except GoError Unit} (hapi : Answered S (.deleteClusterSPIFFEID m.uid o.name o.uid) s a s') :
    Held S s'.world m sharp firm := by
  have hpending : m.status.pendingClusterSPIFFEID = none := (Prod.mk.inj ho.record).1
  have hcalm := (hapi.calm hinv hguard (show CallFor m.uid _ from rfl)).1
  obtain ⟨fresh, -, heffect⟩ := hapi.effect
  have hbindings : s'.world.bindings = s.world.bindings := by
    generalize s'.world = w' at heffect
    cases heffect <;> rfl
  refine h.of_bindings hcalm.toGrows hbindings hpending fun hc u o' ho' => ?_
  obtain ⟨o, ho, hname, huid, hclaim, -⟩ := hcalm.outputs hc u o' ho'
  exact ⟨o, ho, hname, huid, hclaim⟩

theorem stable_owned {objects : List ClusterSPIFFEID} : (operatorProtocol r S).Stable
    fun s => Held S s.world m sharp firm ∧ ∀ o ∈ objects, Owned S s m o := by
  intro s s' hinv h henv
  have hspares := spares_of_env hinv h.1.based henv
  exact ⟨h.1.spares hspares, fun o ho => (h.2 o ho).grows hspares.toGrows⟩

theorem safe_deleteManagedObjects (hinv : Inv S s.world) {objects : List ClusterSPIFFEID}
    (h : Held S s.world m sharp firm) (hobjects : ∀ o ∈ objects, Owned S s m o) :
    (operatorProtocol r S).Safe (deleteManagedObjects m.uid objects)
      (fun _ s' => Held S s'.world m sharp firm) s := by
  induction objects generalizing s with
  | nil => exact h
  | cons o rest ih =>
    refine (Safe.perform (c := Call.deleteClusterSPIFFEID m.uid o.name o.uid)
      (Q := fun _ s' => Held S s'.world m sharp firm ∧ ∀ o ∈ rest, Owned S s' m o)
      stable_owned hinv ⟨h, hobjects⟩ ?_).bind hinv ?_
    · intro s₁ hinv₁ ⟨h₁, hobjects₁⟩
      have ho := hobjects₁ o List.mem_cons_self
      have hguard : Guard r S s₁.log s₁.world (.deleteClusterSPIFFEID m.uid o.name o.uid) :=
        ho.deletion h₁
      refine ⟨hguard, fun a s₂ hapi _ => ⟨h₁.deleted hinv₁ ho hguard hapi, ?_⟩⟩
      exact fun x hx => (hobjects₁ x (List.mem_cons_of_mem o hx)).grows hapi.grows
    · rintro (err | ⟨⟩) s₁ hinv₁ ⟨h₁, hobjects₁⟩
      · dsimp only
        split_ifs
        · exact ih hinv₁ h₁ hobjects₁
        · exact h₁
      · exact ih hinv₁ h₁ hobjects₁

theorem safe_cleanupManaged {P : Platform} (hinv : Inv S s.world)
    (h : Held S s.world m sharp firm) :
    (operatorProtocol r S).Safe (cleanupManagedClusterSPIFFEIDs P m)
      (Handing S m firm fun m' _ s' =>
        Held S s'.world m' sharp (firm ∨ m.record ≠ unrecorded)) s := by
  refine (safe_listManaged hinv h).bind hinv ?_
  rintro ⟨m', err | objects⟩ s₁ hinv₁ ⟨hm', h₁⟩
  · exact ⟨hm', h₁⟩
  · refine (safe_deleteManagedObjects hinv₁ h₁.held h₁.some).bind hinv₁ ?_
    rintro (err | ⟨⟩) s₂ - h₂
    · exact ⟨hm', h₂.mono False.elim Or.inl⟩
    · exact ⟨hm', h₂⟩

end Kleym
