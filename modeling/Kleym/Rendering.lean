import Kleym.Transitions

/-!
# Rendering

What a rendered identity says about its binding: the desired object grants the identity
within the boundary the binding declares. What a failed rendering says: a state error
that the status can report. Rendering only reads pools.
-/

namespace Kleym

open GoString Prog Protocol

variable {r : Reconciler} {S : Setting} {s s' : Scene} {m : Binding} {plan : Plan}

/-! ## The desired object -/

/-- A pool that the reference of a binding leads to, of a kind the operator looks for. -/
def Reconciler.Refers (r : Reconciler) (m : Binding) (pool : InferencePool) : Prop :=
  ∃ ref, bindingPoolRef r.platform m.key.namespace_ m.spec.poolRef = .ok ref ∧
    pool.gvk ∈ candidatePoolGVKs (resolvePoolGVKs r.availablePoolGVKs) ref.group ∧
    pool.namespace_ = ref.namespace_ ∧ pool.name = ref.name

/-- A plan that was rendered for a binding, from a pool that its reference leads to. -/
def Rendered (r : Reconciler) (m : Binding) (plan : Plan) : Prop :=
  ∃ pool, r.Refers m pool ∧ r.renderIdentity m pool = .ok plan

theorem Rendered.variant (h : Rendered r m plan) : plan.variant = m.spec.variant := by
  obtain ⟨pool, -, hplan⟩ := h
  exact variant_of_renderIdentity hplan

theorem selectors_of_spec {o : ClusterSPIFFEID} {key : NamespacedName} {className : GoString}
    (h : o.spec = some (desiredSpec key plan className)) : o.selectors = plan.selectors := by
  have hstrings : (plan.selectors.map Json.string).filterMap Json.asString = plan.selectors := by
    rw [List.filterMap_map]
    exact List.filterMap_some
  rw [ClusterSPIFFEID.selectors, h]
  exact hstrings

/-- An object with the desired spec renders the boundary of the binding. -/
theorem Rendered.renders (h : Rendered r m plan) {o : ClusterSPIFFEID} {key : NamespacedName}
    {className : GoString} (hspec : o.spec = some (desiredSpec key plan className)) :
    o.Renders m.boundary := by
  obtain ⟨pool, -, hplan⟩ := h
  obtain ⟨target, -, hplan⟩ := planIdentity_of_renderIdentity hplan
  rw [ClusterSPIFFEID.Renders, selectors_of_spec hspec]
  exact planIdentity_boundary hplan

theorem mergeDesired_spec (current : ClusterSPIFFEID) (P : Platform) (key : NamespacedName)
    (className : GoString) :
    (mergeDesiredClusterSPIFFEID current (desiredClusterSPIFFEID P key plan className)).spec =
      some (desiredSpec key plan className) := rfl

theorem desiredName_ne_nil (P : Platform) (key : NamespacedName) (plan : Plan) :
    desiredName P key plan ≠ [] := by
  simp only [desiredName, buildClusterSPIFFEIDName]
  intro h
  have hlength := congrArg List.length h
  simp [str] at hlength

/-! ## State errors -/

theorem validateVariant_reportable {P : Platform} {variant : GoString} {err : StateError}
    (h : validateVariant P variant = .error err) : err.Reportable := by
  rw [validateVariant] at h
  split_ifs at h <;> cases h <;> exact ⟨by simp, by simp [failureReasons]⟩

theorem planIdentity_reportable {P : Platform} {input : PlanInput} {err : StateError}
    (h : planIdentity P input = .error err) : err.Reportable := by
  rw [planIdentity] at h
  split_ifs at h
  · cases h
    exact ⟨by simp, by simp [failureReasons]⟩
  rcases hvariant : validateVariant P input.variant with err' | ⟨⟩
  · simp only [hvariant] at h
    cases h
    exact validateVariant_reportable hvariant
  simp only [hvariant] at h
  -- every later check reports under a reason of its own
  repeat' split at h
  all_goals cases h
  all_goals exact ⟨by simp, by simp [failureReasons]⟩

theorem renderIdentity_reportable {pool : InferencePool} {err : StateError}
    (h : r.renderIdentity m pool = .error err) : err.Reportable := by
  rw [Reconciler.renderIdentity] at h
  split at h
  · cases h
    exact ⟨by simp, by simp [failureReasons]⟩
  · exact planIdentity_reportable h

/-- An error that is reported under its own condition, if it is a state error at all. -/
def ReportableError (err : GoError) : Prop :=
  ∀ stateErr, errorsAsStateError err = some stateErr → stateErr.Reportable

theorem reportableError_toError {err : StateError} (h : err.Reportable) :
    ReportableError err.toError := by
  intro stateErr hstate
  rw [errorsAsStateError_toError] at hstate
  cases hstate
  exact h

theorem reportableError_of_none {err : GoError} (h : errorsAsStateError err = none) :
    ReportableError err := by
  intro stateErr hstate
  rw [h] at hstate
  cases hstate

/-! ## Reading pools -/

/-- A read of a pool. -/
def PoolCall (c : Call) : Prop := ∃ gvk key, c = .getPool gvk key

/-- What a plan, or the error in its place, stands for. -/
def Outlined (r : Reconciler) (m : Binding) : Except GoError Plan → Prop
  | .ok plan => Rendered r m plan
  | .error err => ReportableError err

/-- Pools may be read at any time; what comes is the pool that was asked for, or an error of the
API, which is no state error. -/
def PlainPools {σ : Type} (T : Protocol Call Answer σ) : Prop :=
  ∀ gvk key s, T.guard (.getPool gvk key) s ∧ ∀ a s', T.api (.getPool gvk key) s a s' →
    PoolAnswered gvk key a

namespace PlainPools

variable {σ : Type} {T : Protocol Call Answer σ} {s : σ} (hT : PlainPools T) (hinv : T.inv s)

include hT hinv

theorem resolveByCandidates (key : NamespacedName) (gvks : List GroupVersionKind)
    (crdMissing : Bool) :
    T.Safe (Kleym.resolveByCandidates key gvks crdMissing)
      (Outcome (fun x _ => ∀ pool ∈ x.1, pool.key.1 ∈ gvks ∧ pool.key.2 = key)
        fun err _ => ReportableError err) s := by
  induction gvks generalizing crdMissing s with
  | nil => exact (by rintro _ ⟨⟩)
  | cons gvk gvks ih =>
    refine (Safe.perform (c := Call.getPool gvk key) (A := fun _ => True)
      (Q := fun a _ => PoolAnswered gvk key a) (fun _ _ _ => trivial) hinv trivial ?_).bind hinv ?_
    · intro s₁ _ _
      exact ⟨(hT gvk key s₁).1, fun a s₂ hapi _ => (hT gvk key s₁).2 a s₂ hapi⟩
    · have hrest : ∀ {s₁ : σ} (_ : T.inv s₁) (missing : Bool),
          T.Safe (Kleym.resolveByCandidates key gvks missing)
            (Outcome (fun x _ => ∀ pool ∈ x.1, pool.key.1 ∈ gvk :: gvks ∧ pool.key.2 = key)
              fun err _ => ReportableError err) s₁ := by
        intro s₁ hinv₁ missing
        refine (ih hinv₁ missing).mono hinv₁ ?_
        rintro (err | x) s₂ - hx
        · exact hx
        · exact fun pool hpool => ⟨List.mem_cons_of_mem gvk (hx pool hpool).1, (hx pool hpool).2⟩
      rintro (err | pool) s₁ hinv₁ hanswer
      · dsimp only
        split_ifs
        · exact hrest hinv₁ _
        · exact hrest hinv₁ _
        · exact reportableError_of_none hanswer
      · rintro _ ⟨⟩
        rw [show pool.key = (gvk, key) from hanswer]
        exact ⟨List.mem_cons_self, rfl⟩

theorem renderFromPool {ref : PoolRef}
    (href : bindingPoolRef r.platform m.key.namespace_ m.spec.poolRef = .ok ref) :
    T.Safe (r.renderFromPool m ref) (fun a _ => Outlined r m a) s := by
  have hresolve : T.Safe (r.resolveInferencePool ref)
      (Outcome (fun pool _ => r.Refers m pool) fun err _ => ReportableError err) s := by
    refine (hT.resolveByCandidates hinv _ _ _).bind hinv ?_
    rintro (err | ⟨_ | pool, _ | _⟩) s₁ - h₁
    · exact h₁
    · exact reportableError_toError ⟨by simp, by simp [failureReasons]⟩
    · exact reportableError_toError ⟨by simp, by simp [failureReasons]⟩
    all_goals
      obtain ⟨hgvk, hkey⟩ := h₁ pool rfl
      obtain ⟨hnamespace, hname⟩ := NamespacedName.mk.inj hkey
      exact ⟨ref, href, hgvk, hnamespace, hname⟩
  refine hresolve.bind hinv ?_
  rintro (err | pool) s₁ - h₁
  · exact h₁
  · dsimp only
    split
    · rename_i err herr
      exact reportableError_toError (renderIdentity_reportable herr)
    · rename_i plan hplan
      exact ⟨pool, h₁, hplan⟩

theorem renderIdentityForBinding :
    T.Safe (r.renderIdentityForBinding m) (fun a _ => Outlined r m a) s := by
  rw [Reconciler.renderIdentityForBinding]
  split
  · exact reportableError_of_none rfl
  · exact hT.renderFromPool hinv ‹_›

theorem renderDesired : T.Safe (r.renderDesired m) (fun a _ => Outlined r m a) s := by
  rw [Reconciler.renderDesired]
  split
  · rename_i err herr
    exact reportableError_toError (validateVariant_reportable herr)
  · rw [Reconciler.computeDesiredState]
    split
    · exact reportableError_toError ⟨by simp, by simp [failureReasons]⟩
    · exact hT.renderFromPool hinv ‹_›

end PlainPools

theorem plainPools_operator (r : Reconciler) (S : Setting) : PlainPools (operatorProtocol r S) :=
  fun _ _ _ => ⟨trivial, fun _ _ hapi => (Answered.getPool hapi).2.1⟩

theorem safe_renderIdentityForBinding (hinv : Inv S s.world) :
    (operatorProtocol r S).Safe (r.renderIdentityForBinding m) (fun a _ => Outlined r m a) s :=
  (plainPools_operator r S).renderIdentityForBinding hinv

theorem safe_renderDesired (hinv : Inv S s.world) :
    (operatorProtocol r S).Safe (r.renderDesired m) (fun a _ => Outlined r m a) s :=
  (plainPools_operator r S).renderDesired hinv

/-- Reading pools leaves everything a reconcile knows about the cluster. -/
theorem frame_pools {α : Type} {p : Op α} {Q : α → Scene → Prop} {V : α → Prop}
    {F : World → Prop} (hF : (operatorProtocol r S).Stable fun s => F s.world)
    (hp : Always PoolCall V p) (h : (operatorProtocol r S).Safe p Q s) (hinv : Inv S s.world)
    (hs : F s.world) : (operatorProtocol r S).Safe p (fun a s' => Q a s' ∧ F s'.world) s := by
  refine (Safe.frame hF ?_ hp h hinv hs).mono hinv fun a s' _ h' => ⟨h'.1, h'.2.2⟩
  rintro c s₁ a s₂ ⟨gvk, key, rfl⟩ - - hs₁ hapi -
  rw [(Answered.getPool hapi).1]
  exact hs₁

end Kleym
