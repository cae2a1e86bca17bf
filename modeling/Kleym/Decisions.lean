import Kleym.Isolation
import Kleym.Resignation

/-!
# What a reconcile comes to

Which of its ends a reconcile arrives at, when it runs on its own and no call fails, read off the
state in which it begins. A binding that is being deleted is let go or waits. One that cannot be
rendered reports the reason. One that can be rendered is stopped by a peer whose pool reference is
refused, yields to the peers that compete with it or block it, or has its output applied under a
name that is free, if the server admits the labels of the output.

`Decision` lists these ends with what leads to them, and `smoothly_reconcile` puts the paths of
`Convergence`, `Assessment` and `Resignation` together. Deletions of objects may take their time
throughout, so what an end leaves of an output is said to be on its way out, not gone.
-/

namespace Kleym

open GoString Prog Protocol

variable {r : Reconciler} {S : Setting} {v v' v'' : World} {m m' q b : Binding} {plan : Plan}

/-! ## Rendering -/

/-- What a binding is to be, while the pools are as they are. -/
def desiredOf (r : Reconciler) (v : World) (b : Binding) : Except GoError Plan :=
  (execute (r.renderDesired b) v).1

theorem renderDesired_congr (hkey : m.key = b.key) (hspec : m.spec = b.spec) :
    r.renderDesired m = r.renderDesired b := by
  have hvariant : r.bindingIdentityVariant m = r.bindingIdentityVariant b := by
    rw [Reconciler.bindingIdentityVariant, Reconciler.bindingIdentityVariant, hspec]
  have hidentity : r.renderIdentity m = r.renderIdentity b := by
    funext pool
    rw [Reconciler.renderIdentity, Reconciler.renderIdentity]
    simp only [Reconciler.planInput, hkey, hspec]
  have hdesired : r.computeDesiredState m = r.computeDesiredState b := by
    rw [Reconciler.computeDesiredState, Reconciler.computeDesiredState, hkey, hspec]
    simp only [Reconciler.renderFromPool, hidentity]
  rw [Reconciler.renderDesired, Reconciler.renderDesired, hvariant, hdesired]

/-- What cannot be rendered comes with a state error. -/
theorem exists_stateError {err : GoError} (h : desiredOf r v b = .error err) :
    ∃ stateErr, errorsAsStateError err = some stateErr := by
  rw [desiredOf, Reconciler.renderDesired] at h
  split at h
  · cases h
    exact ⟨_, rfl⟩
  rw [Reconciler.computeDesiredState] at h
  split at h
  · cases h
    exact ⟨_, rfl⟩
  · rename_i ref _
    obtain ⟨found, hrender, -⟩ :=
      execute_renderFromPool (r := r) b ref (rfl : v.poolView = v.poolView)
    rw [hrender] at h
    rcases renderFound_cases (r := r) b ref found with ⟨stateErr, herr⟩ | ⟨p, hplan, -⟩
    · cases herr.symm.trans h
      exact ⟨stateErr, rfl⟩
    · cases hplan.symm.trans h

/-- A peer comes with another error only where its pool reference is refused. -/
theorem Stumps.refused {err : GoError} (h : Stumps r v m q err) : ∃ message,
    bindingPoolRef r.platform q.key.namespace_ q.spec.poolRef = .error message := by
  have hfails := h.fails
  rw [renderedOf, Reconciler.renderIdentityForBinding] at hfails
  rcases href : bindingPoolRef r.platform q.key.namespace_ q.spec.poolRef with message | ref
  · exact ⟨message, rfl⟩
  rw [href] at hfails
  obtain ⟨found, hrender, -⟩ :=
    execute_renderFromPool (r := r) q ref (rfl : v.poolView = v.poolView)
  rw [hrender] at hfails
  have hplain := h.plain
  rcases renderFound_cases (r := r) q ref found with ⟨stateErr, herr⟩ | ⟨p, hplan, -⟩
  · cases herr.symm.trans hfails
    cases hplain
  · cases hplan.symm.trans hfails

/-! ## Conflicts -/

/-- The bindings that a conflict is about: the binding itself, its competitors, and the peers
that block it. -/
def Involved (r : Reconciler) (v : World) (m : Binding) (plan : Plan) (k : NamespacedName) : Prop :=
  k = m.key ∨ ∃ q, (Competes r v m plan q ∨ Blocks r v m q) ∧ q.key = k

/-- A conflict that is settled: it is published with the peers that compete, and nobody who is
involved has a record left. -/
structure ConflictPublished (r : Reconciler) (v : World) (m : Binding) (plan : Plan) (v' : World) :
    Prop where
  unblocked : ∀ q, ¬Blocks r v m q
  released : ∀ k, Involved r v m plan k → ∀ b, v'.bindings.get k = some b → b.record = unrecorded
  reported : ∃ b, v'.bindings.get m.key = some b ∧ b.status.Is .conflict .true_ ∧
    b.status.Is .ready .false_ ∧ ∀ name, (∃ item ∈ b.status.conflicts, item.bindingName = name) ↔
      ∃ q, Competes r v m plan q ∧ q.key.name = name

/-- A conflict that is not settled yet: somebody blocks, or an output is still on its way out. -/
structure ConflictPending (r : Reconciler) (v : World) (m : Binding) (plan : Plan) (v' : World) :
    Prop where
  waits : (∃ q, Blocks r v m q) ∨ ∃ k, Involved r v m plan k ∧ Waits v' k
  reported : ∃ b, v'.bindings.get m.key = some b ∧ b.status.Is .conflict .unknown ∧
    b.status.Is .ready .unknown

/-- What is made of a conflict. -/
structure Quarrel (r : Reconciler) (v : World) (m : Binding) (plan : Plan) (v' : World)
    (result : ReconcileResult) : Prop where
  cause : (∃ q, Competes r v m plan q) ∨ ∃ q, Blocks r v m q
  remains : ∀ k, Involved r v m plan k → ∀ b, v'.bindings.get k = some b →
    ∀ o, Holds v' b o → o.terminating = true
  outcome : (result = ⟨0⟩ ∧ ConflictPublished r v m plan v') ∨
    (result = ⟨deleteVerificationRequeueAfter⟩ ∧ ConflictPending r v m plan v')

/-- Nobody is in the way of a binding. -/
structure Unopposed (r : Reconciler) (v : World) (m : Binding) (plan : Plan) : Prop where
  competes : ∀ q, ¬Competes r v m plan q
  blocks : ∀ q, ¬Blocks r v m q
  stumps : ∀ q err, ¬Stumps r v m q err

/-- Publishing a status leaves every record. -/
theorem Publishes.exists_before {status : Status} {key k : NamespacedName}
    (h : Publishes key status v v') (hb : v'.bindings.get k = some b) :
    ∃ b₀, v.bindings.get k = some b₀ ∧ b.record = b₀.record := by
  by_cases hk : k = key
  · subst hk
    obtain ⟨stored, final, hstored, hfinal, -, hstatus⟩ := h.copy
    obtain rfl := Option.some.inj (hfinal.symm.trans hb)
    exact ⟨stored, hstored, by rw [Binding.record, hstatus, Status.record_withRecordOf]; rfl⟩
  · rw [h.beside.others k hk] at hb
    exact ⟨b, hb, rfl⟩

theorem Publishes.exists_after {status : Status} {key k : NamespacedName}
    (h : Publishes key status v v') (hb : v.bindings.get k = some b) :
    ∃ b', v'.bindings.get k = some b' ∧ b'.record = b.record := by
  by_cases hk : k = key
  · subst hk
    obtain ⟨stored, final, hstored, hfinal, -, hstatus⟩ := h.copy
    obtain rfl := Option.some.inj (hstored.symm.trans hb)
    exact ⟨final, hfinal, by rw [Binding.record, hstatus, Status.record_withRecordOf]; rfl⟩
  · exact ⟨b, (h.beside.others k hk).trans hb, rfl⟩

theorem Publishes.waits {status : Status} {key k : NamespacedName} (h : Publishes key status v v')
    (hk : Waits v k) : Waits v' k := by
  obtain ⟨b, o, hb, ho, hterminating⟩ := hk
  obtain ⟨b', hb', hrecord⟩ := h.exists_after hb
  exact ⟨b', o, hb', ho.congr h.objects.symm hrecord.symm, hterminating⟩

/-- How a status is published at the end of a withdrawal. -/
theorem Resigned.remains_published {state : BindingConflictState} {absent : Bool} {status : Status}
    {m₁ : Binding} (happraised : Appraised r m plan v v' state)
    (h : Resigned v' m state.members v'' m₁ absent)
    (hcause : state.conflicts ≠ [] ∨ state.blocked = true) {v₃ : World}
    (hpublishes : Publishes m.key status v'' v₃) :
    ∀ k, Involved r v m plan k → ∀ b, v₃.bindings.get k = some b →
      ∀ o, Holds v₃ b o → o.terminating = true := by
  intro k hk b hb o ho
  obtain ⟨b₀, hb₀, hrecord⟩ := hpublishes.exists_before hb
  exact h.remains k ((happraised.members k).mpr ⟨hcause, hk⟩) b₀ hb₀ o
    (ho.congr hpublishes.objects hrecord)

theorem Appraised.cause {state : BindingConflictState} (h : Appraised r m plan v v' state)
    (hcause : state.conflicts ≠ [] ∨ state.blocked = true) :
    (∃ q, Competes r v m plan q) ∨ ∃ q, Blocks r v m q := by
  refine hcause.imp (fun hne => ?_) h.blocked.mp
  obtain ⟨c, hc⟩ := List.exists_mem_of_ne_nil _ hne
  obtain ⟨q, hq, -⟩ := (h.conflicts c.peerBindingRef).mp ⟨c, hc, rfl⟩
  exact ⟨q, hq⟩

theorem Appraised.unopposed {state : BindingConflictState} (h : Appraised r m plan v v' state)
    (hnone : state.conflicts = [] ∧ state.blocked = false) : Unopposed r v m plan := by
  refine ⟨fun q hq => ?_, fun q hq => ?_, h.readable⟩
  · obtain ⟨c, hc, -⟩ := (h.conflicts q.key).mpr ⟨q, hq, rfl⟩
    rw [hnone.1] at hc
    cases hc
  · have hblocked := h.blocked.mpr ⟨q, hq⟩
    rw [hnone.2] at hblocked
    cases hblocked

/-- The peers that are named in a published conflict. -/
theorem Appraised.named {state : BindingConflictState} (h : Appraised r m plan v v' state)
    {status persisted : Status} {generation : ℕ} (name : GoString) :
    (∃ item ∈ ((applyConflictStatus status generation state.conflicts).withRecordOf
      persisted).conflicts, item.bindingName = name) ↔
      ∃ q, Competes r v m plan q ∧ q.key.name = name := by
  have hitems : ((applyConflictStatus status generation state.conflicts).withRecordOf
      persisted).conflicts = state.conflicts.map fun c =>
        ⟨c.peerBindingRef.name, c.cause, c.peerSpiffeID, c.peerVariant⟩ := rfl
  rw [hitems]
  constructor
  · rintro ⟨item, hitem, rfl⟩
    obtain ⟨c, hc, rfl⟩ := List.mem_map.mp hitem
    obtain ⟨q, hq, hkey⟩ := (h.conflicts c.peerBindingRef).mp ⟨c, hc, rfl⟩
    exact ⟨q, hq, by rw [hkey]⟩
  · rintro ⟨q, hq, rfl⟩
    obtain ⟨c, hc, hkey⟩ := (h.conflicts q.key).mpr ⟨q, hq, rfl⟩
    exact ⟨_, List.mem_map_of_mem hc, by rw [hkey]⟩

theorem Publishes.pendingConflict {status status' : Status} {key : NamespacedName} {generation : ℕ}
    (h : Publishes key status v v')
    (hstatus : status = applyPendingConflictStatus status' generation) :
    ∃ b, v'.bindings.get key = some b ∧ b.status.Is .conflict .unknown ∧
      b.status.Is .ready .unknown := by
  obtain ⟨stored, final, -, hfinal, -, hfinal'⟩ := h.copy
  have hverdict : final.status.verdict =
      (applyPendingConflictStatus status' generation).verdict := by
    rw [hfinal', hstatus]
    rfl
  rw [verdict_applyPendingConflictStatus] at hverdict
  refine ⟨final, hfinal, ?_, ?_⟩
  · rw [Status.Is, hverdict]
    rfl
  · rw [Status.Is, hverdict]
    rfl

/-- The outcome of a conflict evaluation. -/
inductive Conflicted (r : Reconciler) (v : World) (m : Binding) (plan : Plan) (v' : World) :
    Binding × Option (Except GoError ReconcileResult) → Prop
  | clear (hunmoved : Unmoved m v v') (hunopposed : Unopposed r v m plan) :
      Conflicted r v m plan v' (m, none)
  | quarrel {m' : Binding} {result : ReconcileResult} (hreadable : ∀ q err, ¬Stumps r v m q err)
      (hquarrel : Quarrel r v m plan v' result) : Conflicted r v m plan v' (m', some (.ok result))
  | stumped {m' q : Binding} {err : GoError} (hstumps : Stumps r v m q err)
      (hadmits : Admits v' m.key err) : Conflicted r v m plan v' (m', some (.error err))

theorem smoothly_conflictState (hv : Orderly r S v) (hm : Mirrors False v m)
    (hpresent : m.deleting = false) :
    Smoothly r S (r.reconcileConflictState m plan) (fun x v' => Conflicted r v m plan v' x) v := by
  refine (smoothly_evaluate hv hm hpresent).bind hv ?_
  rintro a v₁ hv₁ ⟨hunmoved, ⟨state, rfl, happraised⟩ | ⟨err, q, rfl, hstumps⟩⟩
  · dsimp only
    split_ifs with hnone
    · exact .clear hunmoved (happraised.unopposed hnone)
    have hcause : state.conflicts ≠ [] ∨ state.blocked = true := by
      by_contra hneither
      rw [not_or, not_not, Bool.not_eq_true] at hneither
      exact hnone hneither
    have hmembers : ∀ x ∈ state.members, Mirrors False v₁ (x.binding m) := by
      intro x hx
      cases x with
      | current => exact hm.congr hunmoved.own
      | copy q =>
        obtain ⟨status, hget, hcopy, -⟩ := mirrors_of_get (happraised.stored q hx)
        exact ⟨status, hget, hcopy, False.elim⟩
    refine (smoothly_withdraw hv₁ hmembers happraised.nodup).bind hv₁ ?_
    rintro ⟨m₁, a⟩ v₂ hv₂ ⟨absent, rfl, hresigned⟩
    have hkey : m₁.key = m.key := hresigned.continues.key
    have hstored : Stored v₂ m₁.key := by
      obtain ⟨b, hb⟩ := (hm.congr hunmoved.own).stored
      obtain ⟨b', hb', -⟩ := hresigned.copies.exists_after hb
      exact ⟨b', hkey ▸ hb'⟩
    dsimp only
    split_ifs with hpending
    · let pending : Binding := { m₁ with
        status := applyPendingConflictStatus m₁.status m₁.generation }
      refine (smoothly_patchStatus (m := pending) hv₂ hstored).bind hv₂ ?_
      rintro ⟨m₂, a⟩ v₃ - ⟨rfl, hpublishes⟩
      replace hpublishes : Publishes m.key pending.status v₂ v₃ := hkey ▸ hpublishes
      refine .quarrel happraised.readable ⟨happraised.cause hcause,
        hresigned.remains_published happraised hcause hpublishes, Or.inr ⟨rfl, ?_, ?_⟩⟩
      · by_cases hblocked : state.blocked = true
        · exact Or.inl (happraised.blocked.mp hblocked)
        · obtain ⟨k, hk, hwaits⟩ := hresigned.waits (hpending.resolve_right hblocked)
          exact Or.inr ⟨k, ((happraised.members k).mp hk).2, hpublishes.waits hwaits⟩
      · exact hpublishes.pendingConflict rfl
    · obtain ⟨habsent, hblocked⟩ := not_or.mp hpending
      rw [Bool.not_eq_false] at habsent
      let conceded : Binding := { m₁ with
        status := applyConflictStatus m₁.status m₁.generation state.conflicts }
      refine (smoothly_publishOutcome (m := conceded) hv₂ hstored).bind hv₂ ?_
      rintro a v₃ - ⟨rfl, hpublishes⟩
      replace hpublishes : Publishes m.key conceded.status v₂ v₃ := hkey ▸ hpublishes
      refine .quarrel happraised.readable ⟨happraised.cause hcause,
        hresigned.remains_published happraised hcause hpublishes, Or.inl ⟨rfl, ?_, ?_, ?_⟩⟩
      · exact fun q hq => hblocked (happraised.blocked.mpr ⟨q, hq⟩)
      · intro k hk b hb
        obtain ⟨b₀, hb₀, hrecord⟩ := hpublishes.exists_before hb
        have hmember := (happraised.members k).mpr ⟨hcause, hk⟩
        exact hrecord.trans (hresigned.gone habsent k hmember b₀ hb₀)
      · obtain ⟨stored, final, -, hfinal, -, hstatus⟩ := hpublishes.copy
        have hverdict : final.status.verdict = failureVerdicts .conflict
            (conflictReason state.conflicts)
            (str "Variant conflicts with one or more peer bindings") := by
          rw [hstatus]
          exact verdict_applyConflictStatus _ _ _
        refine ⟨final, hfinal, ?_, ?_, fun name => ?_⟩
        · rw [Status.Is, hverdict]
          rfl
        · rw [Status.Is, hverdict]
          rfl
        · rw [hstatus]
          exact happraised.named name
  · refine (smoothly_reportApplyFailure hv₁ (hm.congr hunmoved.own).stored err).bind hv₁ ?_
    rintro a v₂ - ⟨rfl, hpublishes⟩
    exact .stumped hstumps (hpublishes.admits (hm.congr hunmoved.own))

/-! ## Carrying out a plan -/

/-- A binding that waits for the output under its old name to go away. -/
structure Replacing (r : Reconciler) (v : World) (key : NamespacedName) (b : Binding) (plan : Plan)
    (o : ClusterSPIFFEID) : Prop extends Reports v key b
      (waitingVerdicts (str
        "Waiting for previous managed output absence before creating its replacement")) where
  holds : Holds v b o
  terminating : o.terminating = true
  renamed : o.name ≠ desiredName r.platform key plan

/-- What becomes of a plan. -/
inductive CarriedOut (r : Reconciler) (v : World) (m : Binding) (plan : Plan) (v' : World) :
    Except GoError ReconcileResult → Prop
  | stumped {q : Binding} {err : GoError} (hstumps : Stumps r v m q err)
      (hadmits : Admits v' m.key err) : CarriedOut r v m plan v' (.error err)
  | quarrel {result : ReconcileResult} (hreadable : ∀ q err, ¬Stumps r v m q err)
      (hquarrel : Quarrel r v m plan v' result) : CarriedOut r v m plan v' (.ok result)
  | replacing {b : Binding} {o o₀ : ClusterSPIFFEID} (hunopposed : Unopposed r v m plan)
      (hheld : Holds v m o₀) (hname : o₀.name = o.name)
      (hreplacing : Replacing r v' m.key b plan o) :
      CarriedOut r v m plan v' (.ok ⟨deleteVerificationRequeueAfter⟩)
  | delivered {b : Binding} {o : ClusterSPIFFEID} (hunopposed : Unopposed r v m plan)
      (hdelivered : Delivered r v' m.key b plan o) : CarriedOut r v m plan v' (.ok ⟨0⟩)
  | declined {err : GoError} (hunopposed : Unopposed r v m plan)
      (hreason : Taken r v m plan ∨ Barred r m plan) (hadmits : Admits v' m.key err) :
      CarriedOut r v m plan v' (.error err)

theorem smoothly_reconcileIdentity
    (hplan : Unopposed r v m plan → plan.podSelector.wellFormed = true) (hv : Orderly r S v)
    (hm : Mirrors False v m) (hpresent : m.deleting = false) :
    Smoothly r S (r.reconcileIdentity m plan) (fun a v' => CarriedOut r v m plan v' a) v := by
  refine (smoothly_conflictState hv hm hpresent).bind hv ?_
  rintro x v₁ hv₁ hconflicted
  cases hconflicted with
  | quarrel hreadable hquarrel => exact .quarrel hreadable hquarrel
  | stumped hstumps hadmits => exact .stumped hstumps hadmits
  | clear hunmoved hunopposed =>
    have hm₁ : Mirrors False v₁ m := hm.congr hunmoved.own
    have hsame : ∀ {v m}, Taken r v₁ m plan → v.objects = v₁.objects → Taken r v m plan := by
      rintro v m ⟨o, hget, hforeign⟩ hobjects
      exact ⟨o, hobjects ▸ hget, hforeign⟩
    refine (smoothly_cleanupChanged hv₁ hm₁).bind hv₁ ?_
    rintro ⟨m₂, a⟩ v₂ hv₂ ⟨hcarried, hrenamed⟩
    have hkey : m₂.key = m.key := hcarried.continues.key
    generalize ha : (m₂, a).2 = a' at hrenamed
    cases hrenamed with
    | done hvacant htaken =>
      subst ha
      refine (smoothly_applyOutput (hplan hunopposed) hv₂ hcarried.mirrors hvacant).mono hv₂ ?_
      rintro a v₃ - (⟨rfl, b, o, hdelivered⟩ | ⟨err, rfl, hreason, hadmits⟩)
      · exact .delivered hunopposed (hkey ▸ hdelivered)
      · refine .declined hunopposed (hreason.imp (fun htaken' => ?_) fun hbarred => ?_)
          (hkey ▸ hadmits)
        · exact hsame (htaken htaken') hunmoved.objects.symm
        · rw [Barred, ← hkey]
          exact hbarred
    | waiting hholds hterminating hname hheld =>
      subst ha
      obtain ⟨o₀, hheld, hsame₀⟩ := hheld
      let waiting : Binding := { m₂ with
        status := applyPendingManagedOutputReplacementStatus m₂.status m₂.generation }
      refine (smoothly_patchStatus (m := waiting) hv₂ hcarried.mirrors.stored).bind hv₂ ?_
      rintro ⟨m₃, a⟩ v₃ - ⟨rfl, hpublishes⟩
      obtain ⟨b, hreports, -, hrecord, hobjects⟩ :=
        Publishes.final (m := m₂) hpublishes hcarried.mirrors
      have hverdict : b.status.verdict = waitingVerdicts (str
          "Waiting for previous managed output absence before creating its replacement") :=
        hreports.verdict.trans (verdict_applyWaiting _ _ _)
      exact .replacing hunopposed (hheld.congr hunmoved.objects rfl) hsame₀
        ⟨⟨hkey ▸ hreports.stored, hverdict⟩, hholds.congr hobjects.symm hrecord.symm, hterminating,
          hname⟩

/-! ## From the start of a reconcile -/

/-- The binding has its finalizer now, and a copy is about to be worked on. -/
structure Begun (v : World) (b : Binding) (v' : World) (m : Binding) : Prop where
  mirrors : Mirrors False v' m
  present : m.deleting = false
  key : m.key = b.key
  spec : m.spec = b.spec
  record : m.record = b.record
  objects : v'.objects = v.objects
  beside : Beside b.key v v'

theorem Guarded.begun {b' : Binding} (h : Guarded v b v' b') :
    Begun v b v' (r.prepareStatus b') where
  mirrors := (mirrors_of_get h.stored).withStatus (record_prepareStatus b')
  present := h.present
  key := h.key
  spec := h.spec
  record := (record_prepareStatus b').trans h.record
  objects := h.objects
  beside := h.beside

namespace Begun

variable (h : Begun v b v' m)

include h

theorem desiredOf_eq : desiredOf r v' m = desiredOf r v b := by
  rw [desiredOf, renderDesired_congr h.key h.spec]
  exact execute_pools (pools_renderDesired r b) h.beside.poolView

theorem peer_iff : Peer v' m q ↔ Peer v b q := by
  constructor
  · rintro ⟨hget, hother, hnamespace⟩
    rw [h.key] at hother hnamespace
    exact ⟨(h.beside.others q.key hother).symm.trans hget, hother, hnamespace⟩
  · rintro ⟨hget, hother, hnamespace⟩
    refine ⟨(h.beside.others q.key hother).trans hget, ?_, ?_⟩ <;> rwa [h.key]

theorem holding_iff : Holding v' q ↔ Holding v q := by
  simp only [Holding, Holds, h.objects]

theorem engaged_iff : Engaged v' q ↔ Engaged v q := by rw [Engaged, Engaged, h.holding_iff]

theorem renderedOf_same : renderedOf r v' q = renderedOf r v q :=
  renderedOf_eq h.beside.poolView (.refl q)

theorem competes_iff : Competes r v' m plan q ↔ Competes r v b plan q := by
  have hrecord : variantRecord m plan = variantRecord b plan := by
    rw [variantRecord, variantRecord, h.key, h.spec]
  constructor
  · rintro ⟨hpeer, hengaged, p, hplan, hclash⟩
    exact ⟨h.peer_iff.mp hpeer, h.engaged_iff.mp hengaged, p, h.renderedOf_same ▸ hplan,
      hrecord ▸ hclash⟩
  · rintro ⟨hpeer, hengaged, p, hplan, hclash⟩
    exact ⟨h.peer_iff.mpr hpeer, h.engaged_iff.mpr hengaged, p, h.renderedOf_same.trans hplan,
      hrecord.symm ▸ hclash⟩

theorem blocks_iff : Blocks r v' m q ↔ Blocks r v b q := by
  constructor
  · rintro ⟨hpeer, hholding, err, stateErr, hfails, hstate⟩
    exact ⟨h.peer_iff.mp hpeer, h.holding_iff.mp hholding, err, stateErr,
      h.renderedOf_same ▸ hfails, hstate⟩
  · rintro ⟨hpeer, hholding, err, stateErr, hfails, hstate⟩
    exact ⟨h.peer_iff.mpr hpeer, h.holding_iff.mpr hholding, err, stateErr,
      h.renderedOf_same.trans hfails, hstate⟩

theorem stumps_iff {err : GoError} : Stumps r v' m q err ↔ Stumps r v b q err := by
  constructor
  · rintro ⟨hpeer, hengaged, hfails, hplain⟩
    exact ⟨h.peer_iff.mp hpeer, h.engaged_iff.mp hengaged, h.renderedOf_same ▸ hfails, hplain⟩
  · rintro ⟨hpeer, hengaged, hfails, hplain⟩
    exact ⟨h.peer_iff.mpr hpeer, h.engaged_iff.mpr hengaged, h.renderedOf_same.trans hfails, hplain⟩

theorem taken_iff : Taken r v' m plan ↔ Taken r v b plan := by
  rw [Taken, Taken, h.objects, h.key, h.record]

theorem barred_congr : Barred r m plan ↔ Barred r b plan := by rw [Barred, Barred, h.key]

theorem unopposed_iff : Unopposed r v' m plan ↔ Unopposed r v b plan := by
  constructor
  · rintro ⟨hcompetes, hblocks, hstumps⟩
    exact ⟨fun q hq => hcompetes q (h.competes_iff.mpr hq),
      fun q hq => hblocks q (h.blocks_iff.mpr hq), fun q err hq => hstumps q err (h.stumps_iff.mpr hq)⟩
  · rintro ⟨hcompetes, hblocks, hstumps⟩
    exact ⟨fun q hq => hcompetes q (h.competes_iff.mp hq),
      fun q hq => hblocks q (h.blocks_iff.mp hq), fun q err hq => hstumps q err (h.stumps_iff.mp hq)⟩

theorem quarrel {result : ReconcileResult} (hquarrel : Quarrel r v' m plan v'' result) :
    Quarrel r v b plan v'' result := by
  have hinvolved : ∀ k, Involved r v b plan k ↔ Involved r v' m plan k := by
    intro k
    simp only [Involved, h.competes_iff, h.blocks_iff, h.key]
  refine ⟨?_, fun k hk => hquarrel.remains k ((hinvolved k).mp hk), ?_⟩
  · simpa only [h.competes_iff, h.blocks_iff] using hquarrel.cause
  · refine hquarrel.outcome.imp ?_ ?_
    · rintro ⟨rfl, hunblocked, hreleased, hreported⟩
      refine ⟨rfl, fun q hq => hunblocked q (h.blocks_iff.mpr hq),
        fun k hk => hreleased k ((hinvolved k).mp hk), ?_⟩
      simpa only [h.competes_iff, h.key] using hreported
    · rintro ⟨rfl, hwaits, hreported⟩
      refine ⟨rfl, ?_, h.key ▸ hreported⟩
      simpa only [h.blocks_iff, hinvolved] using hwaits

theorem carriedOut {a : Except GoError ReconcileResult} (hcarried : CarriedOut r v' m plan v'' a) :
    CarriedOut r v b plan v'' a := by
  have hreadable : (∀ q err, ¬Stumps r v' m q err) → ∀ q err, ¬Stumps r v b q err :=
    fun hall q err hq => hall q err (h.stumps_iff.mpr hq)
  cases hcarried with
  | stumped hstumps hadmits => exact .stumped (h.stumps_iff.mp hstumps) (h.key ▸ hadmits)
  | quarrel hall hquarrel => exact .quarrel (hreadable hall) (h.quarrel hquarrel)
  | replacing hunopposed hheld hname hreplacing =>
    exact .replacing (h.unopposed_iff.mp hunopposed) (hheld.congr h.objects h.record) hname
      (h.key ▸ hreplacing)
  | delivered hunopposed hdelivered =>
    exact .delivered (h.unopposed_iff.mp hunopposed) (h.key ▸ hdelivered)
  | declined hunopposed hreason hadmits =>
    exact .declined (h.unopposed_iff.mp hunopposed)
      (hreason.imp h.taken_iff.mp h.barred_congr.mp) (h.key ▸ hadmits)

end Begun

/-- What a reconcile comes to for the binding that it finds. -/
inductive Decision (r : Reconciler) (v : World) (b : Binding) (v' : World) :
    Except GoError ReconcileResult → Prop
  | finalized (hdeleting : b.deleting = true)
      (hfinalizer : inferenceIdentityBindingFinalizer ∉ b.finalizers) (hsame : v' = v) :
      Decision r v b v' (.ok ⟨0⟩)
  | released (hdeleting : b.deleting = true)
      (hfinalizer : inferenceIdentityBindingFinalizer ∈ b.finalizers)
      (hreleased : Released v' b.key) : Decision r v b v' (.ok ⟨0⟩)
  | lingering (hdeleting : b.deleting = true)
      (hfinalizer : inferenceIdentityBindingFinalizer ∈ b.finalizers) (hwaits : Waits v' b.key)
      (hheld : Holding v b) : Decision r v b v' (.ok ⟨deleteVerificationRequeueAfter⟩)
  | failed {err : GoError} {stateErr : StateError} {b' : Binding} (hpresent : b.deleting = false)
      (hfails : desiredOf r v b = .error err) (hstate : errorsAsStateError err = some stateErr)
      (hfailed : Failed v' b.key b' stateErr) :
      Decision r v b v' (.ok ⟨if isInfrastructureNotReadyReason stateErr.reason then
        infraNotReadyRequeueAfter else 0⟩)
  | carriedOut {plan : Plan} {a : Except GoError ReconcileResult} (hpresent : b.deleting = false)
      (hplan : desiredOf r v b = .ok plan) (hcarried : CarriedOut r v b plan v' a) :
      Decision r v b v' a

theorem smoothly_reconcilePresent
    (hpools : ∀ plan, desiredOf r v b = .ok plan → Unopposed r v b plan → v.PoolsWellFormed)
    (hv : Orderly r S v') (hpresent : b.deleting = false) (h : Begun v b v' m) :
    Smoothly r S (r.reconcilePresent m) (fun a v'' => Decision r v b v'' a) v' := by
  refine (smoothly_goes hv (smoothly_pools (pools_renderDesired r m))).bind hv ?_
  rintro a v₁ - ⟨⟨ha, rfl⟩, hgoes⟩
  have hdesired : desiredOf r v b = a := h.desiredOf_eq.symm.trans ha.symm
  rcases a with err | plan
  · obtain ⟨stateErr, hstate⟩ := exists_stateError hdesired
    dsimp only
    rw [hstate]
    refine (smoothly_settleStateError (Goes.reportable_renderDesired hgoes stateErr hstate) hv
      h.mirrors).mono hv ?_
    rintro a v₂ - ⟨rfl, b', hfailed⟩
    exact .failed hpresent hdesired hstate (h.key ▸ hfailed)
  · have hplan : Unopposed r v₁ m plan → plan.podSelector.wellFormed = true := by
      intro hunopposed
      have hformed := hpools plan hdesired (h.unopposed_iff.mp hunopposed)
      exact Goes.wellFormed_renderDesired (hformed.of_poolView h.beside.poolView) hgoes
    refine (smoothly_reconcileIdentity hplan hv h.mirrors h.present).mono hv ?_
    exact fun a v₂ _ hcarried => .carriedOut hpresent hdesired (h.carriedOut hcarried)

theorem smoothly_reconcile {key : NamespacedName} (hv : Orderly r S v)
    (hb : v.bindings.get key = some b)
    (hpools : b.deleting = false → ∀ plan, desiredOf r v b = .ok plan → Unopposed r v b plan →
      v.PoolsWellFormed) :
    Smoothly r S (r.reconcile key) (fun a v' => Decision r v b v' a) v := by
  obtain ⟨-, rfl⟩ := Store.get_eq_some.mp hb
  refine (alone_perform (c := Call.getBinding b.key)
    (Q := fun a v' => v' = v ∧ a = v.readBinding .current b.key)
    fun a v₁ hsmooth _ => hsmooth.kept.served.getBinding).bind hv ?_
  rintro a v₁ - ⟨rfl, rfl⟩
  rw [World.readBinding, hb]
  dsimp only
  split_ifs with hdeleting
  · by_cases hfinalizer : inferenceIdentityBindingFinalizer ∈ b.finalizers
    · refine (smoothly_reconcileDelete hv hb hfinalizer).mono hv ?_
      rintro a v₂ - (⟨rfl, hreleased⟩ | ⟨rfl, hwaits, hheld⟩)
      · exact .released hdeleting hfinalizer hreleased
      · exact .lingering hdeleting hfinalizer hwaits hheld
    · rw [Reconciler.reconcileDelete, if_pos hfinalizer]
      exact .finalized hdeleting hfinalizer rfl
  · have hpresent : b.deleting = false := Bool.eq_false_iff.mpr hdeleting
    refine (smoothly_ensureFinalizer hv hb hpresent).bind hv ?_
    rintro a v₂ hv₂ ⟨b', rfl, hguarded⟩
    exact smoothly_reconcilePresent (hpools hpresent) hv₂ hpresent hguarded.begun

/-- A reconcile of a binding that is not there. -/
theorem smoothly_reconcile_absent {key : NamespacedName} (hv : Orderly r S v)
    (hnone : v.bindings.get key = none) :
    Smoothly r S (r.reconcile key) (fun a v' => a = .ok ⟨0⟩ ∧ v' = v) v := by
  refine (alone_perform (c := Call.getBinding key)
    (Q := fun a v' => v' = v ∧ a = v.readBinding .current key)
    fun a v₁ hsmooth _ => hsmooth.kept.served.getBinding).bind hv ?_
  rintro a v₁ - ⟨rfl, rfl⟩
  rw [World.readBinding, hnone]
  exact ⟨rfl, rfl⟩

/-! ## Runs -/

/-- What is known of every reconcile without faults is so of a run from a reachable state. -/
theorem of_unfailing {s : SystemState} {key : NamespacedName} {a : Except GoError ReconcileResult}
    {w : World} {Q : Except GoError ReconcileResult → World → Prop} (hS : S.Honest)
    (hs : Reachable r S s) (hrun : Leads (Unfailing S) (r.reconcile key) s.world a w)
    (h : Orderly r S s.world → Smoothly r S (r.reconcile key) Q s.world) : Q a w := by
  have hv : Orderly r S s.world := ⟨hS, hs.inv, (hs.confined hS).1⟩
  have hsafe : (operatorProtocol r S).Safe (r.reconcile key) (fun _ _ => True) ⟨s.world, []⟩ :=
    safe_reconcile key hs.inv
  exact Protocol.Safe.leads (h hv) hv (smooth_of_leads hv hsafe (stays_whole r key) hrun)

/-- What becomes of a binding that can be rendered. -/
theorem carriedOut_of_unfailing {s : SystemState} {key : NamespacedName} {b : Binding}
    {a : Except GoError ReconcileResult} {w : World} (hS : S.Honest) (hs : Reachable r S s)
    (hrun : Leads (Unfailing S) (r.reconcile key) s.world a w)
    (hpools : Unopposed r s.world b plan → s.world.PoolsWellFormed)
    (hb : s.world.bindings.get key = some b) (hpresent : b.deleting = false)
    (hplan : desiredOf r s.world b = .ok plan) : CarriedOut r s.world b plan w a := by
  have hdecision := of_unfailing hS hs hrun fun hv => smoothly_reconcile hv hb
    fun _ plan' hplan' hunopposed => hpools (Except.ok.inj (hplan.symm.trans hplan') ▸ hunopposed)
  cases hdecision with
  | carriedOut _ hplan' hcarried =>
    obtain rfl := Except.ok.inj (hplan.symm.trans hplan')
    exact hcarried
  | finalized hdeleting => cases hdeleting.symm.trans hpresent
  | released hdeleting => cases hdeleting.symm.trans hpresent
  | lingering hdeleting => cases hdeleting.symm.trans hpresent
  | failed _ hfails => cases hplan.symm.trans hfails

theorem unfailing_of_serveAll {α : Type} {p : Op α} {a : α} (h : serveAll S p v = some (a, v')) :
    Leads (Unfailing S) p v a v' := by
  induction p generalizing v with
  | ret b =>
    cases h
    exact ⟨rfl, rfl⟩
  | call c k ih =>
    rw [serveAll] at h
    split_ifs at h with hchoice
    exact ⟨_, _, ⟨.plain v.unused, hchoice, rfl, rfl, rfl⟩, ih _ h⟩

/-- The setting of the trials. -/
def trialSetting : Setting := closedSetting fun _ _ => true

/-- Reconcile a binding of the trial without faults, and test what comes of it. -/
def SystemState.tries (name : String)
    (test : World → Except GoError ReconcileResult → World → Bool) (s : SystemState) : Bool :=
  (serveAll trialSetting (trialReconciler.reconcile (trialKey name)) s.world).any
    fun run => test s.world run.1 run.2

theorem exists_trial (name : String)
    (test : World → Except GoError ReconcileResult → World → Bool) (moves : List Move)
    (h : (SystemState.carryOut trialReconciler trialSetting moves .initial).any
      (SystemState.tries name test) = true) :
    ∃ s a w, Reachable trialReconciler trialSetting s ∧
      Leads (Unfailing trialSetting) (trialReconciler.reconcile (trialKey name)) s.world a w ∧
      test s.world a w = true := by
  obtain ⟨s, hs, htries⟩ := exists_reachable moves _ h
  obtain ⟨⟨a, w⟩, hrun, htest⟩ := (Option.any_eq_true _ _).mp htries
  exact ⟨s, a, w, hs, unfailing_of_serveAll hrun, htest⟩

/-- **Why a reconcile fails.** When no call fails, a reconcile returns an error for three reasons
only: a peer that counts has a pool reference that is refused; or nobody is in the way, and an
object that the record does not name has the name of the output, or the name of the binding is too
long for a label of the output. The status says so. -/
theorem reconcile_error_cause {s : SystemState} {key : NamespacedName} {err : GoError} {w : World}
    (hS : S.Honest) (hs : Reachable r S s) (hpools : s.world.PoolsWellFormed) (hkey : key.Admitted)
    (hrun : Leads (Unfailing S) (r.reconcile key) s.world (.error err) w) :
    ∃ b plan, s.world.bindings.get key = some b ∧ b.deleting = false ∧
      desiredOf r s.world b = .ok plan ∧ Admits w key err ∧
      ((∃ q, Peer s.world b q ∧ Engaged s.world q ∧ ∃ message,
          bindingPoolRef r.platform q.key.namespace_ q.spec.poolRef = .error message) ∨
        Unopposed r s.world b plan ∧ (Taken r s.world b plan ∨ 63 < key.name.length)) := by
  rcases hb : s.world.bindings.get key with _ | b
  · obtain ⟨herr, -⟩ := of_unfailing hS hs hrun fun hv => smoothly_reconcile_absent hv hb
    cases herr
  obtain ⟨-, rfl⟩ := Store.get_eq_some.mp hb
  have hdecision := of_unfailing hS hs hrun fun hv => smoothly_reconcile hv hb fun _ _ _ _ => hpools
  cases hdecision with
  | carriedOut hpresent hplan hcarried =>
    cases hcarried with
    | stumped hstumps hadmits =>
      exact ⟨b, _, rfl, hpresent, hplan, hadmits, Or.inl ⟨_, hstumps.toPeer, hstumps.engaged,
        hstumps.refused⟩⟩
    | declined hunopposed hreason hadmits =>
      exact ⟨b, _, rfl, hpresent, hplan, hadmits, Or.inr ⟨hunopposed,
        hreason.imp_right (barred_iff hkey).mp⟩⟩

/-- Besides `x` there is a binding whose pool reference has a blank name. -/
def blankPoolMoves : List Move :=
  trialPrelude ++
    [.user (.createBinding (trialKey "y") (str "y") [] ⟨⟨str " ", []⟩, str "s", str "w"⟩)]

/-- A name that a binding may have, and a label value may not. -/
def longName : String := "aaaaaaaaaaaaaaaaaaaaaaaaaaaaaaaaaaaaaaaaaaaaaaaaaaaaaaaaaaaaaaaa"

/-- A binding of that name is the only one. -/
def longNameMoves : List Move :=
  [.user (.serve [smallPoolGVK]), .user (.putPool smallPool), .create longName "v"]

/-- The pools are in order, and the reconcile fails. -/
def failsInOrder (v : World) (a : Except GoError ReconcileResult) (_ : World) : Bool :=
  v.poolsInOrder && !a.isOk

/-- The first reason and the last. -/
theorem reconcile_error_cause_trial :
    (∃ s err w b, Reachable trialReconciler trialSetting s ∧
      Leads (Unfailing trialSetting) (trialReconciler.reconcile (trialKey "x")) s.world (.error err)
        w ∧ s.world.bindings.get (trialKey "x") = some b ∧ Admits w (trialKey "x") err) ∧
    ∃ s err w b, Reachable trialReconciler trialSetting s ∧
      Leads (Unfailing trialSetting) (trialReconciler.reconcile (trialKey longName)) s.world
        (.error err) w ∧
      s.world.bindings.get (trialKey longName) = some b ∧ Admits w (trialKey longName) err := by
  have hcause : ∀ name moves, (trialKey name).Admitted →
      (SystemState.carryOut trialReconciler trialSetting moves .initial).any
        (SystemState.tries name failsInOrder) = true →
      ∃ s err w b, Reachable trialReconciler trialSetting s ∧
        Leads (Unfailing trialSetting) (trialReconciler.reconcile (trialKey name)) s.world
          (.error err) w ∧
        s.world.bindings.get (trialKey name) = some b ∧ Admits w (trialKey name) err := by
    intro name moves hkey hmoves
    obtain ⟨s, a, w, hs, hrun, htest⟩ := exists_trial name failsInOrder moves hmoves
    obtain ⟨hpools, hfails⟩ := Bool.and_eq_true_iff.mp htest
    cases a with
    | ok result => cases hfails
    | error err =>
      obtain ⟨b, -, hb, -, -, hadmits, -⟩ := reconcile_error_cause (S := trialSetting) rfl hs
        (poolsWellFormed_of_inOrder hpools) hkey hrun
      exact ⟨s, err, w, b, hs, hrun, hb, hadmits⟩
  exact ⟨hcause "x" blankPoolMoves ⟨by decide, by decide⟩ (by decide +kernel),
    hcause longName longNameMoves ⟨by decide, by decide⟩
      (by decide +kernel)⟩

/-- **Deletion.** A binding that is being deleted is let go at once, with nothing recorded, unless
it held an object that is still on its way out; then the reconcile comes again. -/
theorem reconcile_deletion {s : SystemState} {key : NamespacedName} {b : Binding}
    {a : Except GoError ReconcileResult} {w : World} (hS : S.Honest) (hs : Reachable r S s)
    (hb : s.world.bindings.get key = some b) (hdeleting : b.deleting = true)
    (hfinalizer : inferenceIdentityBindingFinalizer ∈ b.finalizers)
    (hrun : Leads (Unfailing S) (r.reconcile key) s.world a w) :
    (a = .ok ⟨0⟩ ∧ Released w key) ∨
      (a = .ok ⟨deleteVerificationRequeueAfter⟩ ∧ Waits w key ∧ Holding s.world b) := by
  obtain ⟨-, rfl⟩ := Store.get_eq_some.mp hb
  have hdecision := of_unfailing hS hs hrun fun hv => smoothly_reconcile hv hb fun hpresent => by
    cases hdeleting.symm.trans hpresent
  cases hdecision with
  | finalized _ hnot => exact absurd hfinalizer hnot
  | released _ _ hreleased => exact Or.inl ⟨rfl, hreleased⟩
  | lingering _ _ hwaits hheld => exact Or.inr ⟨rfl, hwaits, hheld⟩
  | failed hpresent => cases hdeleting.symm.trans hpresent
  | carriedOut hpresent => cases hdeleting.symm.trans hpresent

/-- The binding `x` is being deleted, with the finalizer on it, and has an output. -/
def leavesOutput (v : World) (_ : Except GoError ReconcileResult) (_ : World) : Bool :=
  !v.objects.entries.isEmpty && (v.bindings.get (trialKey "x")).any fun b =>
    b.deleting && decide (inferenceIdentityBindingFinalizer ∈ b.finalizers)

theorem reconcile_deletion_trial : ∃ s a w b, Reachable trialReconciler trialSetting s ∧
    s.world.objects.entries ≠ [] ∧ s.world.bindings.get (trialKey "x") = some b ∧
    Leads (Unfailing trialSetting) (trialReconciler.reconcile (trialKey "x")) s.world a w ∧
    ((a = .ok ⟨0⟩ ∧ Released w (trialKey "x")) ∨
      (a = .ok ⟨deleteVerificationRequeueAfter⟩ ∧ Waits w (trialKey "x") ∧ Holding s.world b)) := by
  obtain ⟨s, a, w, hs, hrun, htest⟩ := exists_trial "x" leavesOutput
    (trialReady ++ [.user (.deleteBinding (trialKey "x"))]) (by decide +kernel)
  obtain ⟨hsome, hany⟩ := Bool.and_eq_true_iff.mp htest
  obtain ⟨b, hb, hleaves⟩ := (Option.any_eq_true _ _).mp hany
  obtain ⟨hdeleting, hfinalizer⟩ := Bool.and_eq_true_iff.mp hleaves
  exact ⟨s, a, w, b, hs, by simpa using hsome, hb, hrun,
    reconcile_deletion (S := trialSetting) rfl hs hb hdeleting (of_decide_eq_true hfinalizer) hrun⟩

/-- **Success.** A binding that can be rendered, has nobody in its way, whose output's name is not
taken and whose own name fits a label is Ready after one reconcile, with its output live and as
desired, unless it held an output under another name that is still on its way out; then the
reconcile comes again. -/
theorem reconcile_ready {s : SystemState} {key : NamespacedName} {b : Binding}
    {a : Except GoError ReconcileResult} {w : World} (hS : S.Honest) (hs : Reachable r S s)
    (hpools : s.world.PoolsWellFormed) (hb : s.world.bindings.get key = some b)
    (hpresent : b.deleting = false) (hplan : desiredOf r s.world b = .ok plan)
    (hunopposed : Unopposed r s.world b plan) (hfree : ¬Taken r s.world b plan)
    (hkey : key.Admitted) (hshort : key.name.length ≤ 63)
    (hrun : Leads (Unfailing S) (r.reconcile key) s.world a w) :
    (a = .ok ⟨0⟩ ∧ ∃ b' o, Delivered r w key b' plan o) ∨
      (a = .ok ⟨deleteVerificationRequeueAfter⟩ ∧ ∃ b' o o₀, Replacing r w key b' plan o ∧
        Holds s.world b o₀ ∧ o₀.name = o.name) := by
  obtain ⟨-, rfl⟩ := Store.get_eq_some.mp hb
  cases carriedOut_of_unfailing hS hs hrun (fun _ => hpools) hb hpresent hplan with
  | stumped hstumps => exact absurd hstumps (hunopposed.stumps _ _)
  | quarrel _ hquarrel =>
    rcases hquarrel.cause with ⟨q, hq⟩ | ⟨q, hq⟩
    · exact absurd hq (hunopposed.competes q)
    · exact absurd hq (hunopposed.blocks q)
  | replacing _ hheld hname hreplacing => exact Or.inr ⟨rfl, _, _, _, hreplacing, hheld, hname⟩
  | delivered _ hdelivered => exact Or.inl ⟨rfl, _, _, hdelivered⟩
  | declined _ hreason =>
    rcases hreason with htaken | hbarred
    · exact absurd htaken hfree
    · exact absurd ((barred_iff hkey).mp hbarred) (not_lt.mpr hshort)

/-- Without a peer nobody is in the way. -/
theorem unopposed_of_alone (h : ∀ q, ¬Peer v m q) : Unopposed r v m plan :=
  ⟨fun q hq => h q hq.toPeer, fun q hq => h q hq.toPeer, fun q _ hq => h q hq.toPeer⟩

/-- The binding `x` is the only one, it can be rendered, and there are no objects. -/
def startsAlone (v : World) (_ : Except GoError ReconcileResult) (_ : World) : Bool :=
  v.poolsInOrder && v.objects.entries.isEmpty &&
    decide (v.bindings.entries.map Binding.key = [trialKey "x"]) &&
    (v.bindings.get (trialKey "x")).any fun b =>
      !b.deleting && (desiredOf trialReconciler v b).isOk

theorem reconcile_ready_trial : ∃ s a w plan, Reachable trialReconciler trialSetting s ∧
    Leads (Unfailing trialSetting) (trialReconciler.reconcile (trialKey "x")) s.world a w ∧
    a = .ok ⟨0⟩ ∧ ∃ b' o, Delivered trialReconciler w (trialKey "x") b' plan o := by
  obtain ⟨s, a, w, hs, hrun, htest⟩ := exists_trial "x" startsAlone trialPrelude
    (by decide +kernel)
  simp only [startsAlone, Bool.and_eq_true, List.isEmpty_iff, decide_eq_true_eq] at htest
  obtain ⟨⟨⟨hpools, hnone⟩, hkeys⟩, hany⟩ := htest
  obtain ⟨b, hb, hstart⟩ := (Option.any_eq_true _ _).mp hany
  simp only [Bool.and_eq_true, Bool.not_eq_true'] at hstart
  obtain ⟨hpresent, hok⟩ := hstart
  rcases hplan : desiredOf trialReconciler s.world b with err | plan
  · rw [hplan] at hok
    cases hok
  have halone : ∀ q, ¬Peer s.world b q := by
    rintro q ⟨hq, hother, -⟩
    have hmem := List.mem_map_of_mem (f := Binding.key) (Store.get_eq_some.mp hq).1
    rw [hkeys, List.mem_singleton] at hmem
    exact hother (hmem.trans (Store.get_eq_some.mp hb).2.symm)
  have hobject : ∀ n o, s.world.objects.get n ≠ some o := by
    intro n o ho
    have hmem := (Store.get_eq_some.mp ho).1
    rw [hnone] at hmem
    cases hmem
  have hfree : ¬Taken trialReconciler s.world b plan := by
    rintro ⟨o, ho, -⟩
    exact hobject _ o ho
  rcases reconcile_ready (S := trialSetting) rfl hs (poolsWellFormed_of_inOrder hpools) hb hpresent
    hplan (unopposed_of_alone halone) hfree ⟨by decide, by decide⟩ (by decide) hrun with
    ⟨ha, hready⟩ | ⟨-, b', o, o₀, -, hheld, -⟩
  · exact ⟨s, a, w, plan, hs, hrun, ha, hready⟩
  · exact absurd hheld.1 (hobject _ o₀)

/-- **Conflict.** A binding that can be rendered and has somebody in its way never fails, and ends
with nobody who is involved holding an object that is not on its way out. It publishes the
conflict, naming exactly its competitors, once nobody blocks and all records are clear; until then
it comes again. -/
theorem reconcile_conflict {s : SystemState} {key : NamespacedName} {b : Binding}
    {a : Except GoError ReconcileResult} {w : World} (hS : S.Honest) (hs : Reachable r S s)
    (hb : s.world.bindings.get key = some b) (hpresent : b.deleting = false)
    (hplan : desiredOf r s.world b = .ok plan) (hreadable : ∀ q err, ¬Stumps r s.world b q err)
    (hopposed : ∃ q, Competes r s.world b plan q ∨ Blocks r s.world b q)
    (hrun : Leads (Unfailing S) (r.reconcile key) s.world a w) :
    ∃ result, a = .ok result ∧ Quarrel r s.world b plan w result := by
  have hnot : ¬Unopposed r s.world b plan := by
    rintro ⟨hcompetes, hblocks, -⟩
    obtain ⟨q, hq | hq⟩ := hopposed
    · exact hcompetes q hq
    · exact hblocks q hq
  cases carriedOut_of_unfailing hS hs hrun (fun h => absurd h hnot) hb hpresent hplan with
  | stumped hstumps => exact absurd hstumps (hreadable _ _)
  | quarrel _ hquarrel => exact ⟨_, rfl, hquarrel⟩
  | replacing hunopposed => exact absurd hunopposed hnot
  | delivered hunopposed => exact absurd hunopposed hnot
  | declined hunopposed => exact absurd hunopposed hnot

/-- The bindings `x` and `y` can be rendered, everything else as well, and the two clash. -/
def rivalsMeet (v : World) (_ : Except GoError ReconcileResult) (_ : World) : Bool :=
  (v.bindings.get (trialKey "x")).any fun q => (v.bindings.get (trialKey "y")).any fun b =>
    !b.deleting && !q.deleting &&
    v.bindings.entries.all (fun q => (renderedOf trialReconciler v q).isOk) &&
    match desiredOf trialReconciler v b, renderedOf trialReconciler v q with
    | .ok plan, .ok p => decide ((variantRecord b plan).Clash (variantRecord q p))
    | _, _ => false

theorem reconcile_conflict_trial : ∃ s a w b plan, Reachable trialReconciler trialSetting s ∧
    s.world.bindings.get (trialKey "y") = some b ∧
    Leads (Unfailing trialSetting) (trialReconciler.reconcile (trialKey "y")) s.world a w ∧
    ∃ result, a = .ok result ∧ Quarrel trialReconciler s.world b plan w result := by
  obtain ⟨s, a, w, hs, hrun, htest⟩ := exists_trial "y" rivalsMeet rivalMoves
    (by decide +kernel)
  obtain ⟨q, hq, htest⟩ := (Option.any_eq_true _ _).mp htest
  obtain ⟨b, hb, htest⟩ := (Option.any_eq_true _ _).mp htest
  simp only [Bool.and_eq_true, Bool.not_eq_true', List.all_eq_true] at htest
  obtain ⟨⟨⟨hpresent, hstays⟩, hall⟩, hclash⟩ := htest
  have hreadable : ∀ q err, ¬Stumps trialReconciler s.world b q err := by
    intro q err hstumps
    have hok := hall q (Store.get_eq_some.mp hstumps.stored).1
    rw [hstumps.fails] at hok
    cases hok
  split at hclash
  · rename_i plan p hplan hrendered
    obtain ⟨-, hqk⟩ := Store.get_eq_some.mp hq
    obtain ⟨-, hbk⟩ := Store.get_eq_some.mp hb
    have hcompetes : Competes trialReconciler s.world b plan q := by
      refine ⟨⟨hqk ▸ hq, ?_, ?_⟩, Or.inl hstays, p, hrendered, of_decide_eq_true hclash⟩
      · change Binding.key q = trialKey "x" at hqk
        change Binding.key b = trialKey "y" at hbk
        rw [hqk, hbk]
        decide
      · change Binding.key q = trialKey "x" at hqk
        change Binding.key b = trialKey "y" at hbk
        rw [hqk, hbk]
        rfl
    exact ⟨s, a, w, b, plan, hs, hb, hrun, reconcile_conflict (S := trialSetting) rfl hs hb hpresent
      hplan hreadable ⟨q, Or.inl hcompetes⟩ hrun⟩
  · cases hclash

/-- **Failure.** A binding that cannot be rendered ends with the reason in its status, whatever it
still holds on its way out, and no error; the reconcile comes again by itself only where a kind is
not served. -/
theorem reconcile_state_error {s : SystemState} {key : NamespacedName} {b : Binding} {err : GoError}
    {a : Except GoError ReconcileResult} {w : World} (hS : S.Honest) (hs : Reachable r S s)
    (hb : s.world.bindings.get key = some b) (hpresent : b.deleting = false)
    (hfails : desiredOf r s.world b = .error err)
    (hrun : Leads (Unfailing S) (r.reconcile key) s.world a w) :
    ∃ stateErr b', errorsAsStateError err = some stateErr ∧ Failed w key b' stateErr ∧
      a = .ok ⟨if isInfrastructureNotReadyReason stateErr.reason then infraNotReadyRequeueAfter
        else 0⟩ := by
  obtain ⟨-, rfl⟩ := Store.get_eq_some.mp hb
  have hdecision := of_unfailing hS hs hrun fun hv => smoothly_reconcile hv hb
    fun _ plan hplan => by cases hfails.symm.trans hplan
  cases hdecision with
  | failed _ hfails' hstate hfailed =>
    obtain rfl := Except.error.inj (hfails.symm.trans hfails')
    exact ⟨_, _, hstate, hfailed, rfl⟩
  | finalized hdeleting => cases hdeleting.symm.trans hpresent
  | released hdeleting => cases hdeleting.symm.trans hpresent
  | lingering hdeleting => cases hdeleting.symm.trans hpresent
  | carriedOut _ hplan => cases hfails.symm.trans hplan

/-- The binding `x` cannot be rendered, and the reconcile is to come again. -/
def waitsForKind (v : World) (a : Except GoError ReconcileResult) (_ : World) : Bool :=
  (v.bindings.get (trialKey "x")).any fun b =>
    !b.deleting && !(desiredOf trialReconciler v b).isOk &&
      match a with
      | .ok result => decide (result = ⟨infraNotReadyRequeueAfter⟩)
      | .error _ => false

theorem reconcile_state_error_trial : ∃ s w b' stateErr, Reachable trialReconciler trialSetting s ∧
    Leads (Unfailing trialSetting) (trialReconciler.reconcile (trialKey "x")) s.world
      (.ok ⟨infraNotReadyRequeueAfter⟩) w ∧ Failed w (trialKey "x") b' stateErr := by
  obtain ⟨s, a, w, hs, hrun, htest⟩ := exists_trial "x" waitsForKind
    [.create "x" "v"] (by decide +kernel)
  obtain ⟨b, hb, htest⟩ := (Option.any_eq_true _ _).mp htest
  simp only [Bool.and_eq_true, Bool.not_eq_true'] at htest
  obtain ⟨⟨hpresent, hnot⟩, hresult⟩ := htest
  split at hresult
  · rename_i result
    obtain rfl := of_decide_eq_true hresult
    rcases hfails : desiredOf trialReconciler s.world b with err | plan
    · obtain ⟨stateErr, b', -, hfailed, -⟩ :=
        reconcile_state_error (S := trialSetting) rfl hs hb hpresent hfails hrun
      exact ⟨s, w, b', stateErr, hs, hrun, hfailed⟩
    · rw [hfails] at hnot
      cases hnot
  · cases hresult

end Kleym
