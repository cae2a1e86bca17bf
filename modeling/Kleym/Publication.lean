import Kleym.Rendering

/-!
# Publishing a status

`patchStatus` writes a status over whatever is persisted, except for the ownership
record, which it takes from a fresh read. What is published keeps the status contract
together with the record it meets there: success is published only where no claim is
pending, and Conflict only where everything has been withdrawn.
-/

namespace Kleym

open GoString Prog Protocol

variable {r : Reconciler} {S : Setting} {s s' : Scene} {m : Binding} {sharp firm : Prop}

/-! ## What may be published -/

/-- Withdrawn stays withdrawn while nobody comes to own anything. -/
theorem World.Withdrawn.calm {w w' : World} {key : NamespacedName} (h : w.Withdrawn key)
    (hc : S.Closed) (hcalm : Calm S w w') : w'.Withdrawn key := by
  intro b' hb' hkey
  constructor
  · rcases hcalm.resolve hc.tidy b' hb' with hnone | ⟨b, hb, hbk, -, hne, -⟩
    · exact hnone
    · exact absurd (h b hb (hbk.trans hkey)).1 hne
  · rcases hcalm.newcomers hc b' hb' with ⟨b, hb, hbk, hbu⟩ | hfree
    · exact hbu ▸ not_output_calm (h b hb (hbk.trans hkey)).2 hc hcalm
    · exact hfree

/-- Nothing is pending under a key. -/
def Unpending (w : World) (key : NamespacedName) : Prop :=
  ∀ b ∈ w.bindings.entries, b.key = key → b.status.pendingClusterSPIFFEID = none

theorem Unpending.calm {w w' : World} {key : NamespacedName} (h : Unpending w key) (ht : S.Tidy)
    (hcalm : Calm S w w') : Unpending w' key := by
  intro b' hb' hkey
  rcases hcalm.resolve ht b' hb' with hnone | ⟨b, hb, hbk, -, -, hsame | hpending⟩
  · exact (Prod.mk.inj hnone).1
  · exact (record_eq_iff.mp hsame).1.trans (h b hb (hbk.trans hkey))
  · exact hpending

theorem SettledConflict.append {log : Log} (h : SettledConflict r log) (t : Log) :
    SettledConflict r (log ++ t) := by
  obtain ⟨before, evaluation, withdrawal, after, binding, plan, state, binding', rfl, hrest⟩ := h
  exact ⟨before, evaluation, withdrawal, after ++ t, binding, plan, state, binding',
    by simp, hrest⟩

/-- What a status needs to be published under a key. -/
structure Publishable (r : Reconciler) (S : Setting) (s : Scene) (key : NamespacedName)
    (status : Status) : Prop where
  consistent : S.Tidy → status.Consistent
  ready : S.Tidy → status.Is .ready .true_ → Unpending s.world key
  withdrawn : S.Closed → status.Is .conflict .true_ →
    ∀ k ∈ key :: status.conflicts.map fun item => ⟨key.namespace_, item.bindingName⟩,
      s.world.Withdrawn k
  settled : status.Is .conflict .true_ → SettledConflict r s.log

section

variable {key : NamespacedName} {status : Status}

theorem Publishable.calm (h : Publishable r S s key status) (hcalm : Calm S s.world s'.world)
    (hlog : ∃ t, s'.log = s.log ++ t) : Publishable r S s' key status where
  consistent := h.consistent
  ready := fun ht hready => (h.ready ht hready).calm ht hcalm
  withdrawn := fun hc hconflict k hk => (h.withdrawn hc hconflict k hk).calm hc hcalm
  settled := by
    intro hconflict
    obtain ⟨t, hlog⟩ := hlog
    rw [hlog]
    exact (h.settled hconflict).append t

theorem stable_publishable :
    (operatorProtocol r S).Stable fun s => Publishable r S s key status :=
  fun hinv h henv => h.calm (henv.2 hinv).2.1 ⟨[], by rw [henv.1, List.append_nil]⟩

/-- The status of a patch: what is to be published, with the record that was just read. -/
def rebased (latest : Binding) (status : Status) : Status :=
  { status with
    pendingClusterSPIFFEID := latest.status.pendingClusterSPIFFEID
    ownedClusterSPIFFEID := latest.status.ownedClusterSPIFFEID }

/-- What is known about the read of a patch. -/
structure Latest (S : Setting) (s : Scene) (key : NamespacedName) (status : Status)
    (latest : Binding) : Prop where
  key_eq : latest.key = key
  version : latest ∈ s.world.bindingVersions
  ready : S.Tidy → status.Is .ready .true_ → latest.status.pendingClusterSPIFFEID = none

theorem Latest.ordinaryPatch {latest : Binding} (h : Latest S s key status latest)
    (hpub : Publishable r S s key status) :
    OrdinaryPatch r S s.log s.world latest (rebased latest status) where
  base_mem := h.version
  record := rfl
  taxonomic := by
    intro ht
    refine ⟨(hpub.consistent ht).withRecord _ _, fun hsome hready => ?_⟩
    have hnone : latest.status.pendingClusterSPIFFEID = none := h.ready ht hready
    simp [rebased, hnone] at hsome
  withdrawn := by
    intro hc hconflict
    rw [h.key_eq]
    exact hpub.withdrawn hc hconflict
  settled := hpub.settled

/-- A patch of `patchStatus` moves no record. -/
theorem Answered.calm_ordinary {latest : Binding} {a : Except GoError Binding}
    (h : Answered S (.patchBindingStatus .ordinary latest (rebased latest status)) s a s')
    (hinv : Inv S s.world) (hlatest : latest ∈ s.world.bindingVersions) :
    Calm S s.world s'.world := by
  obtain ⟨fresh, -, heffect⟩ := h.effect
  generalize s'.world = w' at heffect
  cases heffect with
  | none => exact (Spares.refl S [] s.world).toCalm
  | patchBindingStatus hstored hversion hadmitted =>
    rename_i stored
    obtain ⟨hmem, -⟩ := Store.get_eq_some.mp hstored
    obtain rfl := hinv.history.binding_inj stored (hinv.history.binding_mem stored hmem) latest
      hlatest hversion
    refine (Spares.resave (u := []) (b := stored.patchedBy stored (rebased stored status)) hmem
      rfl rfl ?_ id id).toCalm
    simp only [Binding.record, Binding.patchedBy, mergeStatus_current]
    rfl

end

/-! ## `patchStatus` -/

/-- One attempt, whatever its outcome, leaves the status publishable. -/
theorem safe_patchStatusOnce {status : Status} (hinv : Inv S s.world)
    (h : Publishable r S s m.key status) :
    (operatorProtocol r S).Safe (patchStatusOnce m status)
      (fun _ s' => Publishable r S s' m.key status) s := by
  refine (Safe.perform (c := Call.getBinding m.key)
    (Q := fun a s' => Publishable r S s' m.key status ∧
      ∀ latest, a = .ok latest → Latest S s' m.key status latest)
    stable_publishable hinv h ?_).bind hinv ?_
  · intro s₁ hinv₁ (h₁ : Publishable r S s₁ m.key status)
    refine ⟨trivial, fun a s₂ hapi _ => ?_⟩
    obtain ⟨hworld, hread⟩ := hapi.getBinding hinv₁
    refine ⟨h₁.calm ?_ ⟨_, hapi.log⟩, fun latest hlatest => ?_⟩
    · rw [hworld]
      exact (Spares.refl S [] s₁.world).toCalm
    · obtain ⟨hkey, hversion, hstored⟩ := hread latest hlatest
      refine ⟨hkey, hworld ▸ hversion, fun ht hready => ?_⟩
      exact h₁.ready ht hready latest (hstored ht) hkey
  · rintro (err | latest) s₁ hinv₁ ⟨h₁, hlatest⟩
    · exact h₁
    have hstable : (operatorProtocol r S).Stable
        fun s => Publishable r S s m.key status ∧ Latest S s m.key status latest := by
      intro s s' hinv h henv
      refine ⟨stable_publishable hinv h.1 henv, h.2.key_eq, ?_, h.2.ready⟩
      exact (henv.2 hinv).2.1.bindingVersions h.2.version
    dsimp only
    split_ifs
    · exact h₁
    · refine (Safe.perform (c := Call.patchBindingStatus .ordinary latest (rebased latest status))
        (Q := fun _ s' => Publishable r S s' m.key status) hstable hinv₁
        ⟨h₁, hlatest latest rfl⟩ ?_).bind hinv₁ ?_
      · intro s₂ hinv₂ ⟨h₂, hlatest₂⟩
        exact ⟨hlatest₂.ordinaryPatch h₂, fun a s₃ hapi _ =>
          h₂.calm (hapi.calm_ordinary hinv₂ hlatest₂.version) ⟨_, hapi.log⟩⟩
      · rintro (err | updated) s₂ - h₂ <;> exact h₂

theorem safe_patchStatusRetrying {status : Status} (retries : ℕ) (hinv : Inv S s.world)
    (h : Publishable r S s m.key status) :
    (operatorProtocol r S).Safe (patchStatusRetrying m status retries) (fun _ _ => True) s := by
  induction retries generalizing s with
  | zero => exact (safe_patchStatusOnce hinv h).mono hinv fun _ _ _ _ => trivial
  | succ retries ih =>
    refine (safe_patchStatusOnce hinv h).bind hinv ?_
    rintro ⟨m', err | ⟨⟩⟩ s₁ hinv₁ h₁
    · dsimp only
      split_ifs
      · exact ih hinv₁ h₁
      · trivial
    · trivial

theorem safe_patchStatus (hinv : Inv S s.world) (h : Publishable r S s m.key m.status) :
    (operatorProtocol r S).Safe (patchStatus m) (fun _ _ => True) s :=
  safe_patchStatusRetrying 4 hinv h

theorem safe_publishOutcome (hinv : Inv S s.world) (h : Publishable r S s m.key m.status) :
    (operatorProtocol r S).Safe (publishOutcome m) (fun _ _ => True) s := by
  refine (safe_patchStatus hinv h).bind hinv ?_
  rintro ⟨m', err | ⟨⟩⟩ s₁ - -
  · trivial
  · exact fun _ _ _ => ⟨trivial, fun _ _ _ _ => trivial⟩

/-! ## Failures -/

theorem Based.unique (h : Based S s.world m) (ht : S.Tidy) : m.status.UniqueTypes := by
  obtain ⟨v, -, -, -, htracks⟩ := h
  exact (htracks ht).unique

/-- A status that reports neither success nor a conflict asks nothing of the cluster. -/
theorem Publishable.of_neither {key : NamespacedName} {status : Status}
    (hconsistent : S.Tidy → status.Consistent) (hready : ¬status.Is .ready .true_)
    (hconflict : ¬status.Is .conflict .true_) : Publishable r S s key status :=
  ⟨hconsistent, fun _ h => absurd h hready, fun _ h => absurd h hconflict,
    fun h => absurd h hconflict⟩

theorem publishable_failure (h : Based S s.world m) {err : StateError} (herr : err.Reportable)
    (key : NamespacedName) :
    Publishable r S s key (applyFailureStatus m.status m.generation err) := by
  have htype : err.conditionType ≠ .ready := by
    intro htype
    have hreason := herr.2
    rw [htype] at hreason
    cases hreason
  refine .of_neither (fun ht => consistent_applyFailureStatus (h.unique ht) herr) ?_ ?_
  · rw [Status.Is, verdict_applyFailureStatus m.status m.generation err htype]
    simp [failureVerdicts, Ne.symm htype]
  · rw [Status.Is, verdict_applyFailureStatus m.status m.generation err htype]
    simp [failureVerdicts, Ne.symm herr.1, healthy]

theorem publishable_waiting (h : Based S s.world m) (message : GoString) (key : NamespacedName) :
    Publishable r S s key (applyWaiting m.status m.generation message) := by
  refine .of_neither (fun ht => consistent_applyWaiting (h.unique ht) message) ?_ ?_ <;>
    rw [Status.Is, verdict_applyWaiting] <;> simp [waitingVerdicts, healthy]

theorem publishable_pendingConflict (h : Based S s.world m) (key : NamespacedName) :
    Publishable r S s key (applyPendingConflictStatus m.status m.generation) := by
  refine .of_neither (fun ht => consistent_applyPendingConflictStatus (h.unique ht)) ?_ ?_
    <;> rw [Status.Is, verdict_applyPendingConflictStatus] <;> simp [waitingVerdicts]

theorem safe_reportApplyFailure {α : Type} (hinv : Inv S s.world) (h : Based S s.world m)
    (err : GoError) :
    (operatorProtocol r S).Safe (reportApplyFailure m err : Op (Except GoError α))
      (fun _ _ => True) s := by
  have herr : (newManagedOutputApplyFailedStateError err).Reportable :=
    ⟨by simp [newManagedOutputApplyFailedStateError],
      by simp [newManagedOutputApplyFailedStateError, failureReasons]⟩
  refine (safe_publishOutcome (m := { m with
    status := applyFailureStatus m.status m.generation (newManagedOutputApplyFailedStateError err) })
    hinv (publishable_failure h herr m.key)).bind hinv ?_
  rintro (statusErr | ⟨⟩) s₁ - -
  · trivial
  · exact fun _ _ _ => ⟨trivial, fun _ _ _ _ => trivial⟩

theorem safe_cleanupAfterStateError {P : Platform} (hinv : Inv S s.world)
    (h : Held S s.world m sharp firm) :
    (operatorProtocol r S).Safe (cleanupAfterStateError P m)
      (fun x s' => Based S s'.world x.1) s := by
  refine (safe_cleanupManaged hinv h).bind hinv ?_
  rintro ⟨m₁, err | ⟨⟩⟩ s₁ hinv₁ ⟨-, h₁⟩
  · exact h₁.based
  refine (safe_listManaged hinv₁ h₁).bind hinv₁ ?_
  rintro ⟨m₂, err | _ | ⟨o, objects⟩⟩ s₂ hinv₂ ⟨-, h₂⟩
  · exact h₂.based
  · refine (safe_clear hinv₂ h₂.held fun hne => absurd (h₂.none rfl) hne).mono hinv₂ ?_
    rintro ⟨m₃, err | ⟨⟩⟩ s₃ - ⟨-, h₃⟩
    · exact h₃.based
    · exact h₃.1.based
  · exact h₂.held.based

theorem safe_settleStateError (hinv : Inv S s.world) (h : Held S s.world m sharp firm)
    {err : StateError} (herr : err.Reportable) :
    (operatorProtocol r S).Safe (r.settleStateError m err) (fun _ _ => True) s := by
  have happly : (operatorProtocol r S).Safe (applyStateError r.platform m err)
      (fun x s' => (∃ e, x.2 = .error e ∧ Based S s'.world x.1) ∨
        x.2 = .ok () ∧ ∃ m', Based S s'.world m' ∧
          x.1 = { m' with status := applyFailureStatus m'.status m'.generation err }) s := by
    rw [applyStateError]
    split_ifs
    · refine (safe_cleanupAfterStateError hinv h).bind hinv ?_
      rintro ⟨m₁, e | ⟨⟩⟩ s₁ - h₁
      · exact Or.inl ⟨e, rfl, h₁⟩
      · exact Or.inr ⟨rfl, m₁, h₁, rfl⟩
    · exact Or.inr ⟨rfl, m, h.based, rfl⟩
  refine happly.bind hinv ?_
  rintro ⟨m₁, e | ⟨⟩⟩ s₁ hinv₁ h₁
  · rcases h₁ with ⟨_, -, hbased⟩ | ⟨hok, -⟩
    · exact safe_reportApplyFailure hinv₁ hbased e
    · cases hok
  · rcases h₁ with ⟨_, herror, -⟩ | ⟨-, m', hbased, rfl⟩
    · cases herror
    · refine (safe_publishOutcome (m := { m' with
        status := applyFailureStatus m'.status m'.generation err }) hinv₁
        (publishable_failure hbased herr m'.key)).bind hinv₁ ?_
      rintro (e | ⟨⟩) s₂ hinv₂ -
      · trivial
      · refine fun _ _ _ => ⟨trivial, fun _ _ _ _ => ?_⟩
        dsimp only
        split_ifs <;> trivial

end Kleym
