import Kleym.Withdrawal

/-!
# The phases of a reconcile

Fetch, finalize, make sure of the finalizer, render, and apply: each phase is safe from
what the phase before has established, so the whole of `reconcile` makes every call within
its contract, from any state that satisfies the invariant and whatever others do meanwhile.
-/

namespace Kleym

open GoString Prog Protocol

variable {r : Reconciler} {S : Setting} {s s' : Scene} {m m' : Binding} {sharp firm : Prop}

/-! ## Deletion -/

/-- The last update of a binding that is being deleted: it owns nothing. -/
theorem Held.finalizerRemoval (h : Held S s.world m sharp firm) (hdeleting : m.deleting = true)
    (hrecord : m.record = unrecorded) :
    FinalizerUpdate S s.world { m with
      finalizers := m.finalizers.filter (· ≠ inferenceIdentityBindingFinalizer) } := by
  obtain ⟨v, hv, hcopy, hvrecord, -⟩ := h.based
  refine ⟨v, hv, by rw [hcopy], by rw [hcopy], Or.inr ⟨by rw [hcopy]; exact hdeleting,
    hvrecord.trans hrecord, by rw [hcopy], fun hstrict => ?_⟩⟩
  have hvu : v.uid = m.uid := by rw [hcopy]
  rw [hvu]
  exact h.no_output hstrict.closed (Or.inr (Or.inl hstrict)) hrecord

theorem safe_removeFinalizer (hinv : Inv S s.world) (h : Held S s.world m sharp firm)
    (hdeleting : m.deleting = true) (hrecord : m.record = unrecorded) :
    (operatorProtocol r S).Safe (Reconciler.removeFinalizer m) (fun _ _ => True) s := by
  rw [Reconciler.removeFinalizer, if_neg (not_not_intro (recordedName_unrecorded hrecord)),
    ret_bind]
  refine (Safe.perform (c := Call.updateBinding { m with
    finalizers := m.finalizers.filter (· ≠ inferenceIdentityBindingFinalizer) })
    (Q := fun _ _ => True) stable_held hinv h ?_).bind hinv ?_
  · intro s₁ _ h₁
    exact ⟨Held.finalizerRemoval h₁ hdeleting hrecord, fun _ _ _ _ => trivial⟩
  · rintro (err | target) s₁ - - <;> trivial

theorem safe_reconcileDelete (hinv : Inv S s.world) (h : Held S s.world m True False)
    (hdeleting : m.deleting = true) :
    (operatorProtocol r S).Safe (r.reconcileDelete m) (fun _ _ => True) s := by
  rw [Reconciler.reconcileDelete]
  split_ifs
  swap
  · trivial
  refine (safe_cleanupManaged hinv h).bind hinv ?_
  rintro ⟨m₁, err | ⟨⟩⟩ s₁ hinv₁ ⟨hm₁, h₁⟩
  · exact safe_reportApplyFailure hinv₁ h₁.based err
  refine (safe_listManaged hinv₁ h₁).bind hinv₁ ?_
  rintro ⟨m₂, err | _ | ⟨o, objects⟩⟩ s₂ hinv₂ ⟨hm₂, h₂⟩
  · exact safe_reportApplyFailure hinv₂ h₂.based err
  · refine safe_removeFinalizer hinv₂ h₂.held ?_ (h₂.none rfl)
    rw [hm₂.deleting, hm₁.deleting, hdeleting]
  · trivial

/-! ## The finalizer -/

/-- What phase 3 has established: the finalizer holds the binding, which is the one stored. -/
structure Secured (S : Setting) (w : World) (m : Binding) : Prop where
  held : Held S w m True True
  pinned : Pinned S w m
  steady : Steady S w m
  present : m.deleting = false

theorem Held.firm_of_present (h : Held S s.world m sharp firm) (hpresent : m.deleting = false) :
    Held S s.world m sharp True :=
  { h with covered := fun hc _ => h.covered hc (Or.inr (Or.inr (Or.inl hpresent))) }

/-- A copy that is stored, not being deleted, and has the finalizer. -/
theorem secured_of_stored (hinv : Inv S s.world) (hversion : m ∈ s.world.bindingVersions)
    (hstored : S.Tidy → m ∈ s.world.bindings.entries) (hpresent : m.deleting = false)
    (hfin : inferenceIdentityBindingFinalizer ∈ m.finalizers) : Secured S s.world m where
  held := (Held.of_read hinv hversion hstored).firm_of_present hpresent
  pinned := fun hc => ⟨m, hstored hc.tidy, rfl, hfin⟩
  steady := fun hquiet => ⟨m, hstored hquiet.closed.tidy, rfl, hpresent, rfl⟩
  present := hpresent

theorem safe_ensureFinalizer (hinv : Inv S s.world) (hversion : m ∈ s.world.bindingVersions)
    (hstored : S.Tidy → m ∈ s.world.bindings.entries) (hpresent : m.deleting = false) :
    (operatorProtocol r S).Safe (Reconciler.ensureFinalizer m)
      (Outcome (fun m' s' => Secured S s'.world m') fun _ _ => True) s := by
  rw [Reconciler.ensureFinalizer]
  split_ifs with hfin
  · exact secured_of_stored hinv hversion hstored hpresent hfin
  have hstable : (operatorProtocol r S).Stable fun s => m ∈ s.world.bindingVersions :=
    fun hinv h henv => (henv.2 hinv).2.1.bindingVersions h
  refine Safe.perform (c := Call.updateBinding { m with
    finalizers := m.finalizers ++ [inferenceIdentityBindingFinalizer] }) hstable hinv hversion ?_
  intro s₁ hinv₁ (hversion₁ : m ∈ s₁.world.bindingVersions)
  refine ⟨⟨m, hversion₁, rfl, rfl, Or.inl rfl⟩, ?_⟩
  rintro (err | target) s₂ hapi hinv₂
  · trivial
  · obtain ⟨stored, hget, hrv, -, htarget, hworld⟩ := hapi.updateBinding
    obtain ⟨hmem, -⟩ := Store.get_eq_some.mp hget
    obtain rfl := hinv₁.history.binding_inj stored (hinv₁.history.binding_mem stored hmem) m
      hversion₁ hrv
    have hkept : target ∈ s₂.world.bindings.entries := by
      rw [htarget, hworld, World.settleBinding, if_neg (by simp [Binding.replacedBy])]
      exact Store.mem_put.mpr (Or.inl rfl)
    refine secured_of_stored hinv₂ (hinv₂.history.binding_mem target hkept) (fun _ => hkept) ?_ ?_
    · rw [htarget]
      exact hpresent
    · rw [htarget]
      exact List.mem_append_right _ List.mem_cons_self

/-! ## Rendering and applying -/

/-- A copy with another status that keeps the record and goes back to the same version. -/
theorem Held.withStatus {w : World} (h : Held S w m sharp firm) {status : Status}
    (hrecord : status.record = m.record) (htracks : S.Tidy → status.Tracks m.status) :
    Held S w { m with status := status } sharp firm := by
  have hpending : status.pendingClusterSPIFFEID = m.status.pendingClusterSPIFFEID :=
    (record_eq_iff.mp hrecord).1
  have hsame : ({ m with status := status } : Binding).record = m.record := hrecord
  refine ⟨?_, fun ht hs b hb huid => ?_, fun ht hne b hb huid => ?_, fun hc hcase o ho => ?_,
    fun ht => h.sole ht⟩
  · obtain ⟨v, hv, hcopy, hvrecord, hvtracks⟩ := h.based
    exact ⟨v, hv, by rw [hcopy], hvrecord.trans hrecord.symm,
      fun ht => (htracks ht).trans (hvtracks ht)⟩
  · rcases h.abreast ht hs b hb huid with hb' | ⟨hdel, hne, hnone, hclosed⟩
    · exact Or.inl (hb'.trans hsame.symm)
    · refine Or.inr ⟨hdel, hsame ▸ hne, hnone, fun hc => (hclosed hc).imp id fun hoccupied p hp => ?_⟩
      exact hoccupied p (hpending ▸ hp)
  · rcases h.resolved ht (hsame ▸ hne) b hb huid with hb' | hnone
    · exact Or.inl (hb'.trans hsame.symm)
    · exact Or.inr hnone
  · rw [hsame]
    exact h.covered hc (hsame ▸ hcase) o ho

theorem record_initializeCondition (generation : ℕ) (status : Status)
    (entry : ConditionType × GoString) :
    (initializeCondition generation status entry).record = status.record := by
  unfold initializeCondition
  split <;> rfl

theorem record_prepareStatus (m : Binding) : (r.prepareStatus m).record = m.record := by
  have hfold : ∀ (l : List (ConditionType × GoString)) (status : Status),
      (l.foldl (initializeCondition m.generation) status).record = status.record := by
    intro l
    induction l with
    | nil => exact fun _ => rfl
    | cons entry l ih =>
      intro status
      rw [List.foldl_cons, ih, record_initializeCondition]
  exact hfold canonicalConditions m.status

/-- Phase 4 starts with a status that goes back to the persisted one. -/
theorem Secured.prepareStatus (h : Secured S s.world m) :
    Secured S s.world (r.prepareStatus m) where
  held := h.held.withStatus (record_prepareStatus m) fun ht =>
    tracks_prepareStatus r (h.held.based.unique ht)
  pinned := h.pinned
  steady := h.steady
  present := h.present

theorem stable_secured : (operatorProtocol r S).Stable fun s => Secured S s.world m := by
  intro s s' hinv h henv
  exact ⟨stable_held hinv h.held henv, h.pinned.spares (spares_of_env hinv h.held.based henv),
    stable_steady hinv h.steady henv, h.present⟩

/-- Where a copy has nothing pending, nothing is pending under its key. -/
theorem Held.unpending (h : Held S s.world m True firm) (ht : S.Tidy)
    (hnone : m.status.pendingClusterSPIFFEID = none) : Unpending s.world m.key := by
  intro b hb hkey
  by_cases huid : b.uid = m.uid
  · rcases h.abreast ht trivial b hb huid with hsame | ⟨-, -, hpending, -⟩
    · exact (record_eq_iff.mp hsame).1.trans hnone
    · exact hpending
  · exact (Prod.mk.inj (h.sole ht b hb hkey huid).1).1

theorem publishable_success {identity : Plan} {output : RenderedClusterSPIFFEIDStatus}
    (h : Applied S identity m output s) :
    Publishable r S s m.key
      (applySuccessStatus m.status m.generation [identity] [output]) where
  consistent := fun ht => consistent_applySuccessStatus (h.1.based.unique ht) h.2.2.2
  ready := fun ht _ => h.1.unpending ht h.2.1
  withdrawn := by
    intro _ hconflict
    rw [Status.Is, verdict_applySuccessStatus] at hconflict
    simp [successVerdicts, healthy] at hconflict
  settled := by
    intro hconflict
    rw [Status.Is, verdict_applySuccessStatus] at hconflict
    simp [successVerdicts, healthy] at hconflict

theorem safe_applyOutput {identity : Plan} (hidentity : Rendered r m identity)
    (hinv : Inv S s.world) (h : Held S s.world m True True) (hprepared : Prepared S s.world m)
    (hname : recordedClusterSPIFFEIDName m.status = [] ∨
      recordedClusterSPIFFEIDName m.status = desiredName r.platform m.key identity) :
    (operatorProtocol r S).Safe (r.applyOutput m identity) (fun _ _ => True) s := by
  refine (safe_reconcileClusterSPIFFEIDs hinv h hprepared hidentity
    r.config.clusterSPIFFEIDClassName hname).bind hinv ?_
  rintro ⟨m₁, err | statuses⟩ s₁ hinv₁ ⟨-, h₁⟩
  · dsimp only
    split_ifs
    · exact safe_settleStateError hinv₁ h₁
        ⟨by simp [newClusterSPIFFEIDCRDMissingStateError],
          by simp [newClusterSPIFFEIDCRDMissingStateError, failureReasons]⟩
    · exact safe_reportApplyFailure hinv₁ h₁.based err
  · obtain ⟨status, rfl, happlied⟩ := h₁
    refine (safe_publishOutcome (m := { m₁ with
      status := applySuccessStatus m₁.status m₁.generation [identity] [status] }) hinv₁
      (publishable_success happlied)).bind hinv₁ ?_
    rintro (err | ⟨⟩) s₂ - -
    · trivial
    · exact fun _ _ _ => ⟨trivial, fun _ _ _ _ => trivial⟩

theorem safe_reconcileIdentity {identity : Plan} (hidentity : Rendered r m identity)
    (hinv : Inv S s.world) (h : Secured S s.world m) :
    (operatorProtocol r S).Safe (r.reconcileIdentity m identity) (fun _ _ => True) s := by
  refine (safe_reconcileConflictState hidentity hinv h.held h.pinned h.steady).bind hinv ?_
  rintro ⟨m₁, _ | result⟩ s₁ hinv₁ h₁
  swap
  · trivial
  obtain ⟨hm₁, hheld, hprepared⟩ := h₁ rfl
  have hm₁ : m₁ = m := hm₁
  subst hm₁
  refine (frame_prepared (always_mild_cleanupChanged (desiredName r.platform m₁.key identity))
    (safe_cleanupChanged hinv₁ hheld _) hinv₁ hheld.based hprepared).bind hinv₁ ?_
  rintro ⟨m₂, err | waiting⟩ s₂ hinv₂ ⟨⟨hm₂, h₂⟩, hprepared₂⟩
  · exact safe_reportApplyFailure hinv₂ h₂.based err
  cases waiting with
  | true =>
    refine (safe_patchStatus (m := { m₂ with
      status := applyPendingManagedOutputReplacementStatus m₂.status m₂.generation }) hinv₂
      (publishable_waiting h₂.1.based _ m₂.key)).bind hinv₂ ?_
    rintro ⟨m₃, err | ⟨⟩⟩ s₃ - - <;> trivial
  | false =>
    refine safe_applyOutput (hidentity.continues hm₂) hinv₂ h₂.1 (hprepared₂.continues hm₂) ?_
    rw [hm₂.key]
    exact h₂.2 rfl

theorem safe_reconcilePresent (hinv : Inv S s.world) (h : Secured S s.world m) :
    (operatorProtocol r S).Safe (r.reconcilePresent m) (fun _ _ => True) s := by
  refine (frame_pools (F := fun w => Secured S w m) stable_secured
    (always_renderDesired fun gvk key _ => ⟨gvk, key, rfl⟩)
    (safe_renderDesired hinv) hinv h).bind hinv ?_
  rintro (err | identity) s₁ hinv₁ ⟨hplan, h₁⟩
  · dsimp only
    split
    · trivial
    · rename_i stateErr hstate
      exact safe_settleStateError hinv₁ h₁.held (hplan stateErr hstate)
  · exact safe_reconcileIdentity hplan hinv₁ h₁

/-- **Every call of `reconcile` is within its contract**, from any state that satisfies the
invariant, and whatever others do between its calls. -/
theorem safe_reconcile (key : NamespacedName) (hinv : Inv S s.world) :
    (operatorProtocol r S).Safe (r.reconcile key) (fun _ _ => True) s := by
  refine (Safe.perform (c := Call.getBinding key) (A := fun _ => True)
    (Q := Outcome (fun m s' => m ∈ s'.world.bindingVersions ∧
      (S.Tidy → m ∈ s'.world.bindings.entries)) fun _ _ => True)
    (fun _ _ _ => trivial) hinv trivial ?_).bind hinv ?_
  · intro s₁ hinv₁ _
    refine ⟨trivial, ?_⟩
    rintro (err | m) s₂ hapi _
    · trivial
    · obtain ⟨hworld, hread⟩ := hapi.getBinding hinv₁
      obtain ⟨-, hversion, hstored⟩ := hread m rfl
      exact ⟨hworld ▸ hversion, fun ht => hworld ▸ hstored ht⟩
  · rintro (err | m) s₁ hinv₁ h₁
    · dsimp only
      split_ifs <;> trivial
    obtain ⟨hversion, hstored⟩ := h₁
    dsimp only
    split_ifs with hdeleting
    · exact safe_reconcileDelete hinv₁ (Held.of_read hinv₁ hversion hstored) hdeleting
    · refine (safe_ensureFinalizer hinv₁ hversion hstored (Bool.eq_false_iff.mpr hdeleting)).bind
        hinv₁ ?_
      rintro (err | m₁) s₂ hinv₂ h₂
      · trivial
      · exact safe_reconcilePresent hinv₂ (Secured.prepareStatus h₂)

end Kleym
