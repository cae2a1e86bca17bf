import Kleym.Bounds
import Kleym.Exclusivity

/-!
# What a peer can do to the conflict evaluation of others

`evaluateBindingConflicts` renders every binding of the namespace. A peer that
cannot be rendered and holds no output should not matter to anybody else. Whether
it does hangs on the class of the error: a state error is answered with a look at
the peer's output and then skipped, while any other error ends the evaluation. The
binding itself is rendered by `computeDesiredState` and its peers by
`renderIdentityForBinding`; the two agree on everything except the pool reference,
whose errors only the first one turns into state errors.

The evaluation is run here without failing calls, against the state itself.
-/

namespace Kleym

open GoString Prog

/-- Run a piece of the operator's code with every call served as it should be. -/
abbrev execute {α : Type} (p : Op α) (w : World) : α × World := exec (respond {}) p w

theorem execute_bind {α β : Type} (p : Op α) (f : α → Op β) (w : World) :
    execute (p >>= f) w = execute (f (execute p w).1) (execute p w).2 :=
  exec_bind (respond {}) p f w

/-! ## Taking a binding out of the state -/

/-- The state without one binding. -/
def World.without (w : World) (k : NamespacedName) : World :=
  { w with bindings := w.bindings.erase k }

/-- The calls the evaluation makes for bindings other than `k`. -/
def PeerCall (k : NamespacedName) : Call → Prop
  | .getPool _ _ => True
  | .getClusterSPIFFEID _ => True
  | .patchBindingStatus _ base _ => base.key ≠ k
  | _ => False

theorem saveBinding_without {w : World} {k : NamespacedName} {b : Binding} (h : b.key ≠ k) :
    (w.without k).saveBinding b = (w.saveBinding b).without k := by
  simp only [World.saveBinding, World.without]
  congr 1
  exact (Store.erase_put (s := w.bindings) (v := { b with resourceVersion := w.revision + 1 })
    h).symm

theorem patchStatusOf_without {w : World} {k : NamespacedName} {base : Binding} {status : Status}
    (h : base.key ≠ k) :
    (w.without k).patchStatusOf base status =
      ((w.patchStatusOf base status).1, (w.patchStatusOf base status).2.without k) := by
  have hget : (w.without k).bindings.get base.key = w.bindings.get base.key := by
    rw [World.without, Store.get_erase, if_neg h]
  rw [World.patchStatusOf, World.patchStatusOf, hget]
  rcases hstored : w.bindings.get base.key with _ | stored
  · rfl
  · have hkey : stored.key = base.key := (Store.get_eq_some.mp hstored).2
    dsimp only
    split_ifs
    · rfl
    · have hsave := saveBinding_without (w := w) (b := stored.patchedBy base status) (k := k)
        fun hk => h (hkey.symm.trans hk)
      rw [hsave]
      rfl
    · rfl

theorem respond_without {k : NamespacedName} (c : Call) (w : World) (h : PeerCall k c) :
    respond {} c (w.without k) = ((respond {} c w).1, (respond {} c w).2.without k) := by
  cases c with
  | getPool gvk key => rfl
  | getClusterSPIFFEID name => rfl
  | patchBindingStatus kind base status => exact patchStatusOf_without h
  | _ => exact h.elim

/-- The part of the state that pools are resolved from. -/
def World.poolView (w : World) : Store InferencePool.key × List GroupVersionKind :=
  (w.pools, w.served)

theorem poolView_settleBinding (w : World) (b : Binding) :
    (w.settleBinding b).poolView = w.poolView := by
  rw [World.settleBinding]
  split_ifs <;> rfl

/-- No call changes the pools. -/
theorem poolView_respond (choice : Choice) (c : Call) (w : World) :
    (respond choice c w).2.poolView = w.poolView := by
  have heffect := respond_effect choice c w
  generalize (respond choice c w).2 = w' at heffect ⊢
  cases heffect with
  | updateBinding => exact poolView_settleBinding w _
  | _ => rfl

/-! ## The calls of the evaluation -/

theorem allows_peerCall {k : NamespacedName} {b : Binding} (h : b.key ≠ k) :
    Allows (PeerCall k) b where
  pool := fun _ _ _ => trivial
  get := fun _ => trivial
  patch := by
    intro m status hm _
    rw [PeerCall, hm.key]
    exact h

theorem always_scanPeer {r : Reconciler} {k : NamespacedName} {b peer : Binding} {identity : Plan}
    {scan : PeerScan} (h : peer.key ≠ k) :
    Always (PeerCall k) (fun _ => True) (r.scanPeer b identity scan peer) := by
  refine (always_identityForConflictEvaluation (allows_peerCall h) (.refl peer) b identity).bind ?_
  rintro ⟨peer', err | _ | _ | _⟩ - <;> trivial

/-! ## Rendering without failing calls -/

section Rendering

variable {r : Reconciler}

theorem readPool_cases (w : World) (gvk : GroupVersionKind) (key : NamespacedName) :
    (∃ pool, w.readPool gvk key = .ok pool) ∨
    (∃ err, w.readPool gvk key = .error err ∧ err.kind = .notFound) ∨
    ∃ err, w.readPool gvk key = .error err ∧ err.kind = .noMatch := by
  by_cases hserved : gvk ∈ w.served
  · rcases hget : w.pools.get (gvk, key) with _ | pool
    · exact Or.inr (Or.inl ⟨notFoundError poolResource key.name, by
        rw [World.readPool, if_neg (not_not.mpr hserved), hget], rfl⟩)
    · exact Or.inl ⟨pool, by rw [World.readPool, if_neg (not_not.mpr hserved), hget]⟩
  · exact Or.inr (Or.inr ⟨noMatchError gvk, by rw [World.readPool, if_pos hserved], rfl⟩)

/-- How `resolveByCandidates` goes on with the answer for one kind. -/
def candidateAnswered (key : NamespacedName) (gvks : List GroupVersionKind) (crdMissing : Bool) :
    Except GoError InferencePool → Op (Except GoError (Option InferencePool × Bool))
  | .ok pool => ret (.ok (some pool, crdMissing))
  | .error err =>
    if err.kind = .notFound then resolveByCandidates key gvks crdMissing
    else if err.kind = .noMatch then resolveByCandidates key gvks true
    else ret (.error err)

/-- Looking for a pool finds one or none, leaves the state alone and sees only the
pools. -/
theorem execute_resolveByCandidates (key : NamespacedName) (gvks : List GroupVersionKind)
    (crdMissing : Bool) {w w' : World} (h : w'.poolView = w.poolView) :
    ∃ found, execute (resolveByCandidates key gvks crdMissing) w = (.ok found, w) ∧
      execute (resolveByCandidates key gvks crdMissing) w' = (.ok found, w') := by
  have hread : ∀ gvk, w'.readPool gvk key = w.readPool gvk key := by
    intro gvk
    rw [World.poolView, World.poolView, Prod.mk.injEq] at h
    rw [World.readPool, World.readPool, h.1, h.2]
  induction gvks generalizing crdMissing with
  | nil => exact ⟨_, rfl, rfl⟩
  | cons gvk gvks ih =>
    have hcons : ∀ v : World, execute (resolveByCandidates key (gvk :: gvks) crdMissing) v =
        execute (candidateAnswered key gvks crdMissing (v.readPool gvk key)) v := fun _ => rfl
    rw [hcons, hcons, hread]
    rcases readPool_cases w gvk key with ⟨pool, hpool⟩ | ⟨err, herr, hkind⟩ | ⟨err, herr, hkind⟩
    · rw [hpool]
      exact ⟨_, rfl, rfl⟩
    · rw [herr, candidateAnswered, if_pos hkind]
      exact ih crdMissing
    · rw [herr, candidateAnswered, if_neg (by rw [hkind]; decide), if_pos hkind]
      exact ih true

/-- What rendering comes to once the pool has been looked for. -/
def renderFound (r : Reconciler) (b : Binding) (ref : PoolRef) :
    Option InferencePool × Bool → Except GoError Plan
  | (some pool, _) => (r.renderIdentity b pool).mapError StateError.toError
  | (none, true) => .error (StateError.toError ⟨.invalidRef, .inferencePoolCRDMissing,
      str "InferencePool CRD is not installed"⟩)
  | (none, false) => .error (StateError.toError ⟨.invalidRef, .targetPoolNotFound,
      str "poolRef " ++ r.platform.quote ref.name ++ str " was not found"⟩)

/-- Rendering leaves the state alone and sees only the pools. -/
theorem execute_renderFromPool (b : Binding) (ref : PoolRef) {w w' : World}
    (h : w'.poolView = w.poolView) :
    ∃ found, execute (r.renderFromPool b ref) w = (renderFound r b ref found, w) ∧
      execute (r.renderFromPool b ref) w' = (renderFound r b ref found, w') := by
  obtain ⟨found, hw, hw'⟩ := execute_resolveByCandidates ⟨ref.namespace_, ref.name⟩
    (candidatePoolGVKs (resolvePoolGVKs r.availablePoolGVKs) ref.group) false h
  have hrender : ∀ v, execute (resolveByCandidates ⟨ref.namespace_, ref.name⟩
      (candidatePoolGVKs (resolvePoolGVKs r.availablePoolGVKs) ref.group) false) v =
        (.ok found, v) →
      execute (r.renderFromPool b ref) v = (renderFound r b ref found, v) := by
    intro v hv
    rw [Reconciler.renderFromPool, execute_bind, Reconciler.resolveInferencePool, execute_bind, hv]
    obtain ⟨_ | pool, _ | _⟩ := found
    · rfl
    · rfl
    all_goals
      simp only [exec_ret, renderFound]
      rcases r.renderIdentity b pool with err | plan <;> rfl
  exact ⟨found, hrender w hw, hrender w' hw'⟩

/-- Rendering fails only with state errors, and always when the variant is invalid. -/
theorem renderFound_cases (b : Binding) (ref : PoolRef) (found : Option InferencePool × Bool) :
    (∃ stateErr : StateError, renderFound r b ref found = .error stateErr.toError) ∨
    ∃ plan, renderFound r b ref found = .ok plan ∧
      validateVariant r.platform b.spec.variant = .ok () := by
  obtain ⟨_ | pool, _ | _⟩ := found
  · exact Or.inl ⟨_, rfl⟩
  · exact Or.inl ⟨_, rfl⟩
  all_goals
    rcases hrendered : r.renderIdentity b pool with stateErr | plan
    · exact Or.inl ⟨stateErr, by rw [renderFound, hrendered]; rfl⟩
    · obtain ⟨target, -, hplan⟩ := planIdentity_of_renderIdentity hrendered
      exact Or.inr ⟨plan, by rw [renderFound, hrendered]; rfl,
        (accepted_of_planIdentity hplan).variant⟩

end Rendering

/-! ## The peer in the listing -/

section Peer

variable {r : Reconciler} {w w' : World} {b p : Binding} {identity : Plan} {scan : PeerScan}

/-- The binding's own reconcile ends in a state error: `bindingIdentityVariant`, then
`computeDesiredState`. -/
def endsInStateError (r : Reconciler) (p : Binding) (w : World) : Bool :=
  match (execute (r.renderDesired p) w).1 with
  | .error err => (errorsAsStateError err).isSome
  | .ok _ => false

/-- The binding holds neither a pending nor a confirmed record. -/
def Binding.Unrecorded (b : Binding) : Prop :=
  b.status.pendingClusterSPIFFEID = none ∧ b.status.ownedClusterSPIFFEID = none

instance (b : Binding) : Decidable b.Unrecorded := inferInstanceAs (Decidable (_ ∧ _))

/-- A peer that is on its way out, or whose pool reference `BindingPoolRef` accepts. -/
def Harmless (r : Reconciler) (p : Binding) : Prop :=
  p.deleting = true ∨
    (bindingPoolRef r.platform p.key.namespace_ p.spec.poolRef).isOk = true

instance (r : Reconciler) (p : Binding) : Decidable (Harmless r p) :=
  inferInstanceAs (Decidable (_ ∨ _))

/-- Without a record there is nothing to look up. -/
theorem execute_listManaged (P : Platform) (h : p.Unrecorded) (w : World) :
    execute (listManagedClusterSPIFFEIDs P p) w = ((p, .ok []), w) := by
  have hrecord : managedOutputRecordFromStatus p.status = .ok .unclaimed := by
    rw [managedOutputRecordFromStatus, h.1, h.2]
  have hobserve : observeManagedClusterSPIFFEID p [] = ret (.ok .unclaimedOutputAbsent) := by
    rw [observeManagedClusterSPIFFEID, hrecord]
    rfl
  rw [listManagedClusterSPIFFEIDs, hobserve]
  rfl

/-- A peer whose pool reference is accepted and whose own reconcile fails cannot be
rendered by others either. -/
theorem renderFromPool_of_endsInStateError {ref : PoolRef}
    (href : bindingPoolRef r.platform p.key.namespace_ p.spec.poolRef = .ok ref)
    (hfails : endsInStateError r p w = true) (hview : w'.poolView = w.poolView) :
    ∃ stateErr : StateError,
      execute (r.renderFromPool p ref) w' = (.error stateErr.toError, w') := by
  obtain ⟨found, hw, hw'⟩ := execute_renderFromPool (r := r) p ref hview
  rcases renderFound_cases (r := r) p ref found with ⟨stateErr, herr⟩ | ⟨plan, hplan, hvalid⟩
  · exact ⟨stateErr, by rw [hw', herr]⟩
  · rw [endsInStateError, Reconciler.renderDesired, Reconciler.bindingIdentityVariant,
      hvalid] at hfails
    simp only [Reconciler.computeDesiredState, href] at hfails
    rw [hw, hplan] at hfails
    cases hfails

theorem execute_scanPeer_harmless (hkey : p.key ≠ b.key) (hrecord : p.Unrecorded)
    (hfails : endsInStateError r p w = true) (hharmless : Harmless r p)
    (hview : w'.poolView = w.poolView) :
    execute (r.scanPeer b identity scan p) w' = (.ok scan, w') := by
  have hidentity : execute (r.identityForConflictEvaluation b identity p) w' =
      ((p, .ok .irrelevant), w') := by
    rw [Reconciler.identityForConflictEvaluation]
    split_ifs with hdeleting
    · rw [execute_bind, execute_listManaged _ hrecord]
      rfl
    · obtain ⟨ref, href⟩ : ∃ ref,
          bindingPoolRef r.platform p.key.namespace_ p.spec.poolRef = .ok ref := by
        have hok := hharmless.resolve_left hdeleting
        rcases hpool : bindingPoolRef r.platform p.key.namespace_ p.spec.poolRef with err | ref
        · rw [hpool] at hok
          cases hok
        · exact ⟨ref, rfl⟩
      obtain ⟨stateErr, herr⟩ := renderFromPool_of_endsInStateError href hfails hview
      rw [Reconciler.renderPeer, if_neg hkey, execute_bind,
        Reconciler.renderIdentityForBinding, href]
      simp only [herr, errorsAsStateError_toError]
      rw [execute_bind, execute_listManaged _ hrecord]
      rfl
  rw [Reconciler.scanPeer, execute_bind, hidentity]
  rfl

theorem execute_scanPeer_harmful (identity : Plan) (scan : PeerScan) (w' : World)
    (hkey : p.key ≠ b.key) (hharm : ¬Harmless r p) :
    ∃ err, execute (r.scanPeer b identity scan p) w' = (.error err, w') := by
  rw [Harmless, not_or] at hharm
  rcases hpool : bindingPoolRef r.platform p.key.namespace_ p.spec.poolRef with message | ref
  · refine ⟨plainError message, ?_⟩
    rw [Reconciler.scanPeer, execute_bind, Reconciler.identityForConflictEvaluation,
      if_neg hharm.1, Reconciler.renderPeer, if_neg hkey, Reconciler.renderIdentityForBinding, hpool]
    rfl
  · rw [hpool] at hharm
    exact absurd rfl hharm.2

/-- The listings with and without the peer. -/
theorem readBindings_split (hp : p ∈ w.bindings.entries)
    (hns : p.key.namespace_ = b.key.namespace_) :
    ∃ l₁ l₂, w.readBindings .current id b.key.namespace_ = l₁ ++ p :: l₂ ∧
      (w.without p.key).readBindings .current id b.key.namespace_ = l₁ ++ l₂ ∧
      (∀ q ∈ l₁, q.key ≠ p.key) ∧ ∀ q ∈ l₂, q.key ≠ p.key := by
  have hmem : p ∈ w.bindings.entries.filter fun q => q.key.namespace_ = b.key.namespace_ :=
    List.mem_filter.mpr ⟨hp, decide_eq_true hns⟩
  obtain ⟨l₁, l₂, hsplit⟩ := List.append_of_mem hmem
  have hnodup : ((l₁ ++ p :: l₂).map Binding.key).Nodup := by
    rw [← hsplit]
    exact w.bindings.nodup.sublist (List.filter_sublist.map Binding.key)
  rw [List.map_append, List.map_cons, List.nodup_append, List.nodup_cons] at hnodup
  obtain ⟨-, ⟨hp₂, -⟩, hdisjoint⟩ := hnodup
  have h₁ : ∀ q ∈ l₁, q.key ≠ p.key := fun q hq =>
    hdisjoint q.key (List.mem_map_of_mem hq) p.key List.mem_cons_self
  have h₂ : ∀ q ∈ l₂, q.key ≠ p.key := fun q hq hk =>
    hp₂ (hk ▸ List.mem_map_of_mem hq)
  refine ⟨l₁, l₂, hsplit, ?_, h₁, h₂⟩
  have hfilter : ∀ l : List Binding, (∀ q ∈ l, q.key ≠ p.key) →
      l.filter (fun q => decide (q.key ≠ p.key)) = l := fun l hl =>
    List.filter_eq_self.mpr fun q hq => decide_eq_true (hl q hq)
  change (w.bindings.entries.filter fun q => decide (q.key ≠ p.key)).filter _ = _
  rw [List.filter_comm, hsplit, List.filter_append,
    List.filter_cons_of_neg (by simp), hfilter l₁ h₁, hfilter l₂ h₂]

/-- The loop over the listing, with a harmless peer in it or not. -/
theorem execute_foldM_harmless {l₁ l₂ : List Binding} (h₁ : ∀ q ∈ l₁, q.key ≠ p.key)
    (h₂ : ∀ q ∈ l₂, q.key ≠ p.key) (hkey : p.key ≠ b.key) (hrecord : p.Unrecorded)
    (hfails : endsInStateError r p w = true) (hharmless : Harmless r p) :
    (execute (Prog.foldM (r.scanPeer b identity) (l₁ ++ p :: l₂) scan) w).1 =
      (execute (Prog.foldM (r.scanPeer b identity) (l₁ ++ l₂) scan) (w.without p.key)).1 := by
  have hmap : ∀ l : List Binding, (∀ q ∈ l, q.key ≠ p.key) → ∀ scan v,
      execute (Prog.foldM (r.scanPeer b identity) l scan) (v.without p.key) =
        ((execute (Prog.foldM (r.scanPeer b identity) l scan) v).1,
          (execute (Prog.foldM (r.scanPeer b identity) l scan) v).2.without p.key) :=
    fun l hl scan v => exec_map (respond {}) respond_without
      (Always.foldM fun q hq _ => always_scanPeer (hl q hq)) v
  have hview : (execute (Prog.foldM (r.scanPeer b identity) l₁ scan) w).2.poolView = w.poolView :=
    exec_preserves (respond {}) (poolView_respond {}) _ w
  rw [Prog.foldM_append, Prog.foldM_append, execute_bind, execute_bind, hmap l₁ h₁]
  rcases hloop : execute (Prog.foldM (r.scanPeer b identity) l₁ scan) w with ⟨err | scan', w'⟩
  · rfl
  · rw [hloop] at hview
    simp only [Prog.foldM]
    rw [execute_bind, execute_scanPeer_harmless hkey hrecord hfails hharmless hview, hmap l₂ h₂]

/-- The loop over a listing with a harmful peer in it ends in an error, unless an
earlier peer already ended it. -/
theorem execute_foldM_harmful (identity : Plan) (scan : PeerScan) (w : World)
    (l₁ l₂ : List Binding) (hkey : p.key ≠ b.key)
    (hharm : ¬Harmless r p) :
    ∃ err, (execute (Prog.foldM (r.scanPeer b identity) (l₁ ++ p :: l₂) scan) w).1 =
      .error err := by
  rw [Prog.foldM_append, execute_bind]
  rcases execute (Prog.foldM (r.scanPeer b identity) l₁ scan) w with ⟨err | scan', w'⟩
  · exact ⟨err, rfl⟩
  · obtain ⟨err, herr⟩ := execute_scanPeer_harmful identity scan' w' hkey hharm
    refine ⟨err, ?_⟩
    simp only [Prog.foldM]
    rw [execute_bind, herr]
    rfl

/-- The evaluation is the loop over the listing and what is made of its result. -/
theorem execute_evaluate (w : World) :
    (execute (r.evaluateBindingConflicts b identity) w).1 =
      ((execute (Prog.foldM (r.scanPeer b identity)
        (w.readBindings .current id b.key.namespace_) ⟨[], [], []⟩) w).1).map
          (Reconciler.conflictStateOf b) := by
  change (execute (Prog.foldM (r.scanPeer b identity)
    (w.readBindings .current id b.key.namespace_) ⟨[], [], []⟩ >>= _) w).1 = _
  rw [execute_bind]
  rcases execute (Prog.foldM (r.scanPeer b identity)
    (w.readBindings .current id b.key.namespace_) ⟨[], [], []⟩) w with ⟨err | scan', w'⟩
  · rfl
  · rfl

/-- **Isolation.** Take a peer without output whose own reconcile ends in a state
error, in a namespace where the evaluation succeeds without it. The evaluation gives
the same result with the peer in the listing exactly when the peer is being deleted
or its pool reference is well formed. -/
theorem evaluateBindingConflicts_undisturbed_iff (r : Reconciler) (w : World) (b p : Binding)
    (identity : Plan) (state : BindingConflictState) (hp : p ∈ w.bindings.entries)
    (hns : p.key.namespace_ = b.key.namespace_) (hkey : p.key ≠ b.key)
    (hrecord : p.Unrecorded) (hfails : endsInStateError r p w = true)
    (hwithout : (execute (r.evaluateBindingConflicts b identity) (w.without p.key)).1 =
      .ok state) :
    (execute (r.evaluateBindingConflicts b identity) w).1 = .ok state ↔ Harmless r p := by
  obtain ⟨l₁, l₂, hwith, hsplit, h₁, h₂⟩ := readBindings_split (b := b) hp hns
  constructor
  · intro hsame
    by_contra hharm
    obtain ⟨err, herr⟩ := execute_foldM_harmful identity ⟨[], [], []⟩ w l₁ l₂ hkey hharm
    rw [execute_evaluate, hwith, herr] at hsame
    cases hsame
  · intro hharmless
    rw [← hwithout, execute_evaluate, execute_evaluate, hwith, hsplit,
      execute_foldM_harmless h₁ h₂ hkey hrecord hfails hharmless]

/-- A peer with a reference to the pool of the given name. -/
def smallPeer (poolName : String) : Binding :=
  { smallBinding "y" "w" with
    spec := ⟨⟨str poolName, []⟩, str "s", str "w"⟩
    resourceVersion := 2 }

/-- The cluster with the small pool, a binding for it and a peer. -/
def smallCluster (poolName : String) : World :=
  { ((World.initial [smallPoolGVK]).saveBinding (smallBinding "x" "v")).saveBinding
      (smallPeer poolName) with
    pools := Store.empty.put smallPool }

/-- A peer that points at a pool that does not exist is skipped. -/
theorem evaluateBindingConflicts_undisturbed_small :
    (execute (smallReconciler.evaluateBindingConflicts smallX.binding smallX.plan)
      (smallCluster "q")).1 =
      .ok ⟨[], [], false⟩ :=
  (evaluateBindingConflicts_undisturbed_iff smallReconciler (smallCluster "q")
    smallX.binding (smallPeer "q") smallX.plan ⟨[], [], false⟩ (by decide +kernel) rfl
    (by decide +kernel) (by decide +kernel) (by decide +kernel) (by decide +kernel)).mpr
    (by decide +kernel)

/-- A peer whose pool reference is a blank, which the CRD admits, has no output and
its own reconcile reports a state error; yet the evaluation of its neighbour, which
succeeds without it, fails with it. -/
theorem evaluateBindingConflicts_disturbed_by_blank_reference :
    smallPeer " " ∈ (smallCluster " ").bindings.entries ∧ (smallPeer " ").Unrecorded ∧
    endsInStateError smallReconciler (smallPeer " ") (smallCluster " ") = true ∧
    (execute (smallReconciler.evaluateBindingConflicts smallX.binding smallX.plan)
      ((smallCluster " ").without (smallPeer " ").key)).1.isOk = true ∧
    (execute (smallReconciler.evaluateBindingConflicts smallX.binding smallX.plan)
      (smallCluster " ")).1.isOk = false := by
  decide +kernel

end Peer

end Kleym
