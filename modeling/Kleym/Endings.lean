import Kleym.Planning
import Kleym.Aftermath

/-!
# How a reconcile ends

A reconcile that returns without an error and without asking to come again, and leaves its binding
Ready or in a settled conflict, has taken one of three paths: it has applied the output, it has
withdrawn the outputs of a conflict, or it was done with a binding that is being deleted. Every
other exit returns an error, asks to come again, or publishes a failure.

The paths are read backwards from the result. What a path has done on the way is put together from
the pieces in `Aftermath`.
-/

namespace Kleym

open GoString Prog

variable {r : Reconciler} {S : Setting} {P : Platform} {v v' v'' : World} {m m' q b : Binding}
  {plan : Plan} {api : (c : Call) → World → Answer c → World → Prop}

/-! ## Exits that leave nothing settled -/

theorem not_leads_reportApplyFailure {α : Type} {applyErr : GoError} {x : α} :
    ¬Leads api (reportApplyFailure m applyErr) v (.ok x) v' := by
  intro h
  obtain ⟨err | ⟨⟩, v₁, -, hrest⟩ := leads_bind.mp h
  · cases hrest.1
  · obtain ⟨⟨⟩, v₂, -, hend⟩ := leads_bind.mp hrest
    cases hend.1

/-- Ready, or in a conflict that has been settled. -/
def Status.Concludes (status : Status) : Prop :=
  status.Is .ready .true_ ∨ status.Is .conflict .true_

/-- A failure is neither. -/
theorem not_concludes_failure (status persisted : Status) (generation : ℕ) {err : StateError}
    (herr : err.Reportable) :
    ¬((applyFailureStatus status generation err).withRecordOf persisted).Concludes := by
  have hready : err.conditionType ≠ .ready := by
    intro htype
    have hreason := herr.2
    rw [htype] at hreason
    simp [failureReasons] at hreason
  have hverdict : ((applyFailureStatus status generation err).withRecordOf persisted).verdict =
      failureVerdicts err.conditionType err.reason err.message :=
    verdict_applyFailureStatus status generation err hready
  rw [Status.Concludes, Status.Is, Status.Is, hverdict, failureVerdicts,
    Function.update_of_ne (Ne.symm hready), Function.update_self,
    Function.update_of_ne (Ne.symm herr.1), Function.update_of_ne (by decide), healthy]
  simp

/-- The copy that `applyStateError` returns is one of the same binding, with the failure in its
status. -/
theorem Goes.applyStateError {err : StateError} (hm : Mirrors False v m)
    (h : Goes S (Kleym.applyStateError P m err) v (m', .ok ()) v') :
    m'.key = m.key ∧ ∃ status generation, m'.status = applyFailureStatus status generation err := by
  rw [Kleym.applyStateError] at h
  split_ifs at h
  · obtain ⟨⟨m₁, err | ⟨⟩⟩, v₁, hcleanup, hrest⟩ := leads_bind.mp h
    · cases hrest.1
    obtain ⟨hresult, rfl⟩ := hrest
    cases hresult
    refine ⟨?_, m₁.status, m₁.generation, rfl⟩
    obtain ⟨⟨m₂, err | ⟨⟩⟩, v₂, hcleaned, hrest⟩ := leads_bind.mp hcleanup
    · cases hrest.1
    have hcarried := Goes.cleanupManaged hm hcleaned
    obtain ⟨⟨m₃, err | _ | ⟨o, objects⟩⟩, v₃, hlist, hend⟩ := leads_bind.mp hrest
    · cases hend.1
    · obtain ⟨hlisted, -⟩ := Goes.listManaged hcarried.mirrors hlist
      obtain ⟨hcleared, -⟩ := Goes.clear hlisted.mirrors hend
      exact ((hcarried.trans hlisted).trans hcleared).continues.key
    · obtain ⟨hlisted, -⟩ := Goes.listManaged hcarried.mirrors hlist
      cases hend.1
      exact (hcarried.trans hlisted).continues.key
  · obtain ⟨hresult, -⟩ := h
    cases hresult
    exact ⟨rfl, m.status, m.generation, rfl⟩

theorem Goes.settleStateError {err : StateError} {result : ReconcileResult}
    (hm : Mirrors False v m) (herr : err.Reportable)
    (h : Goes S (r.settleStateError m err) v (.ok result) v')
    (hb : v'.bindings.get m.key = some b) : ¬b.status.Concludes := by
  obtain ⟨⟨m₁, applyErr | ⟨⟩⟩, v₁, happly, hrest⟩ := leads_bind.mp h
  · exact absurd hrest not_leads_reportApplyFailure
  obtain ⟨hkey, status, generation, hstatus⟩ := Goes.applyStateError hm happly
  obtain ⟨statusErr | ⟨⟩, v₂, hpublish, hrest⟩ := leads_bind.mp hrest
  · cases hrest.1
  obtain ⟨⟨⟩, v₃, hevent, hend⟩ := leads_bind.mp hrest
  obtain rfl := (Goes.served hevent).recordEvent
  have hsame : v₃ = v' := by
    split_ifs at hend <;> exact hend.2
  obtain rfl := hsame
  obtain ⟨stored, version, -, hget⟩ := (Goes.publishOutcome hpublish).stored
  rw [hkey, hb] at hget
  cases hget
  rw [hstatus]
  exact not_concludes_failure status _ generation herr

/-- Where a kind is not served, the run asks to come again. -/
theorem not_leads_settleStateError {err : StateError}
    (herr : isInfrastructureNotReadyReason err.reason = true) :
    ¬Leads api (r.settleStateError m err) v (.ok ⟨0⟩) v' := by
  intro h
  obtain ⟨⟨m₁, applyErr | ⟨⟩⟩, v₁, -, hrest⟩ := leads_bind.mp h
  · exact absurd hrest not_leads_reportApplyFailure
  obtain ⟨statusErr | ⟨⟩, v₂, -, hrest⟩ := leads_bind.mp hrest
  · cases hrest.1
  obtain ⟨⟨⟩, v₃, -, hend⟩ := leads_bind.mp hrest
  rw [if_pos herr] at hend
  cases hend.1

/-! ## The plan -/

/-- The pools in the cluster are what a JSON decoder makes: no map has a key twice. -/
def World.PoolsWellFormed (v : World) : Prop := ∀ pool ∈ v.pools.entries, pool.WellFormed

theorem World.PoolsWellFormed.of_poolView (h : v.PoolsWellFormed)
    (hpools : v'.poolView = v.poolView) : v'.PoolsWellFormed := by
  have hsame : v'.pools = v.pools := (Prod.mk.inj hpools).1
  rw [World.PoolsWellFormed, hsame]
  exact h

theorem Goes.resolveByCandidates {key : NamespacedName} {gvks : List GroupVersionKind}
    {missing missing' : Bool} {pool : InferencePool}
    (h : Goes S (Kleym.resolveByCandidates key gvks missing) v (.ok (some pool, missing')) v') :
    pool ∈ v.pools.entries := by
  induction gvks generalizing missing v with
  | nil => cases h.1
  | cons gvk gvks ih =>
    obtain ⟨a, v₁, hread, hrest⟩ := leads_bind.mp h
    obtain ⟨rfl, rfl⟩ := (Goes.served hread).getPool
    rcases hpool : v₁.readPool gvk key with err | found
    · rw [hpool] at hrest
      dsimp only at hrest
      split_ifs at hrest
      · exact ih hrest
      · exact ih hrest
      · cases hrest.1
    · rw [hpool] at hrest
      cases hrest.1
      exact World.mem_pools_of_readPool hpool

theorem Goes.wellFormed_renderDesired (hpools : v.PoolsWellFormed)
    (h : Goes S (r.renderDesired m) v (.ok plan) v') : plan.podSelector.wellFormed = true := by
  rw [Reconciler.renderDesired] at h
  split at h
  · cases h.1
  rw [Reconciler.computeDesiredState] at h
  split at h
  · cases h.1
  obtain ⟨err | pool, v₁, hresolve, hrest⟩ := leads_bind.mp h
  · cases hrest.1
  have hpool : pool ∈ v.pools.entries := by
    obtain ⟨err | ⟨_ | found, missing⟩, v₂, hcandidates, hend⟩ := leads_bind.mp hresolve
    · cases hend.1
    · cases missing <;> cases hend.1
    · cases hend.1
      exact Goes.resolveByCandidates hcandidates
  dsimp only at hrest
  rcases hrender : r.renderIdentity m pool with stateErr | rendered
  · rw [hrender] at hrest
    cases hrest.1
  rw [hrender] at hrest
  cases hrest.1
  rw [Reconciler.renderIdentity] at hrender
  rcases htarget : resolveInferenceTarget r.platform pool with message | target
  · rw [htarget] at hrender
    cases hrender
  rw [htarget] at hrender
  obtain ⟨-, -, rfl⟩ := planIdentity_eq_ok_iff.mp hrender
  rw [resolveInferenceTarget] at htarget
  rcases hderive : deriveSelectorsFromPool r.platform pool with message | ⟨podSelector, derived⟩
  · rw [hderive] at htarget
    cases htarget
  rw [hderive] at htarget
  cases htarget
  exact wellFormed_podSelector (hpools pool hpool) hderive

/-- The rules of a run that nobody disturbs and that keeps no contract. -/
def plainProtocol : Protocol Call Answer World where
  env := Eq
  api := Served
  inv _ := True
  guard _ _ := True
  env_refl _ := rfl
  env_trans := Eq.trans
  inv_env _ _ := trivial
  inv_api _ _ _ := trivial

theorem plainPools_plain : PlainPools plainProtocol := by
  refine fun gvk key v => ⟨trivial, fun a v' hserved => ?_⟩
  obtain ⟨-, rfl⟩ := Served.getPool hserved
  exact v.readPool_answered gvk key

theorem Goes.reportable_renderDesired {err : GoError}
    (h : Goes S (r.renderDesired m) v (.error err) v') : ReportableError err :=
  (plainPools_plain.renderDesired (r := r) (m := m) trivial).leads trivial
    (Leads.mono (fun hkept => hkept.served) h)

/-! ## The conflicts -/

theorem Surveyed.conflicts {state : BindingConflictState} (h : Surveyed r m plan v v' state) :
    state.conflicts = contested r m plan v' := by
  obtain ⟨items, hperm, rfl⟩ := h.listing
  exact conflicts_listedState hperm

theorem Goes.conflictState_none (hown : ∀ b, v.bindings.get m.key = some b → b.deleting = false)
    (h : Goes S (r.reconcileConflictState m plan) v (m', none) v') :
    m' = m ∧ contested r m plan v' = [] ∧ ∃ state, Surveyed r m plan v v' state := by
  obtain ⟨err | state, v₁, hevaluate, hrest⟩ := leads_bind.mp h
  · obtain ⟨result, v₂, -, hend⟩ := leads_bind.mp hrest
    cases hend.1
  dsimp only at hrest
  split_ifs at hrest with hfree
  · obtain ⟨hresult, rfl⟩ := hrest
    cases hresult
    have hsurveyed := Goes.evaluate hown hevaluate hfree.2
    exact ⟨rfl, hsurveyed.conflicts.symm.trans hfree.1, state, hsurveyed⟩
  · obtain ⟨⟨m₁, err | absent⟩, v₂, -, hrest⟩ := leads_bind.mp hrest
    · obtain ⟨result, v₃, -, hend⟩ := leads_bind.mp hrest
      cases hend.1
    · dsimp only at hrest
      split_ifs at hrest
      · obtain ⟨⟨m₂, err | ⟨⟩⟩, v₃, -, hend⟩ := leads_bind.mp hrest <;> cases hend.1
      · obtain ⟨err | ⟨⟩, v₃, -, hend⟩ := leads_bind.mp hrest <;> cases hend.1

/-- What a run leaves that settles a conflict: the members have been surveyed, stripped of
their outputs, and the conflict is published. -/
structure Conceded (r : Reconciler) (S : Setting) (m : Binding) (plan : Plan) (v v₁ v₂ v' : World)
    (qs : List Binding) : Prop where
  surveyed : ∃ state, Surveyed r m plan v v₁ state
  inv : Inv S v₁
  conflicts : contested r m plan v₁ ≠ []
  members : ∀ k, k ∈ qs.map Binding.key ↔
    k = m.key ∨ ∃ c ∈ contested r m plan v₁, c.peerBindingRef = k
  stored : ∀ q ∈ qs, v₁.bindings.get q.key = some q
  withdrawn : WithdrawnAll v₁ qs v₂
  published : Publishes m.key
    (applyConflictStatus m.status m.generation (contested r m plan v₁)) v₂ v'

/-- The members of a conflict that was surveyed are stored copies, each once. -/
theorem Surveyed.members {state : BindingConflictState} (h : Surveyed r m plan v v' state)
    (hconflicts : state.conflicts ≠ []) : ∃ qs : List Binding, state.members = qs.map .copy ∧
      (qs.map Binding.key).Nodup ∧ (∀ q ∈ qs, v'.bindings.get q.key = some q) ∧
      ∀ k, k ∈ qs.map Binding.key ↔
        k = m.key ∨ ∃ c ∈ contested r m plan v', c.peerBindingRef = k := by
  rw [h.conflicts] at hconflicts
  obtain ⟨items, hperm, rfl⟩ := h.listing
  have hcopies : ∀ x ∈ (listedState r m plan v' items).members,
      x ∈ Set.range ConflictMember.copy := by
    intro x hx
    obtain ⟨q, -, rfl, -⟩ := members_listedState hperm hx
    exact Set.mem_range_self q
  obtain ⟨qs, hqs⟩ : (listedState r m plan v' items).members ∈
      Set.range (List.map ConflictMember.copy) := by
    rw [Set.range_list_map]
    exact hcopies
  have hkeys : memberKeys m (listedState r m plan v' items).members = qs.map Binding.key := by
    rw [← hqs, memberKeys, List.map_map]
    rfl
  refine ⟨qs, hqs.symm, hkeys ▸ nodup_conflictStateOf m _, fun q hq => ?_, fun k => ⟨?_, ?_⟩⟩
  · obtain ⟨q', hq', heq, -⟩ := members_listedState hperm (hqs ▸ List.mem_map_of_mem hq)
    cases heq
    exact Store.get_eq_some.mpr ⟨List.mem_of_mem_filter hq', rfl⟩
  · intro hk
    obtain ⟨q, hq, rfl⟩ := List.mem_map.mp hk
    obtain ⟨q', -, heq, hcases⟩ := members_listedState hperm (hqs ▸ List.mem_map_of_mem hq)
    cases heq
    exact hcases
  · rw [← hkeys]
    rintro (rfl | ⟨c, hc, rfl⟩)
    · obtain ⟨c, hc⟩ := List.exists_mem_of_ne_nil _ hconflicts
      exact (memberKeys_listedState hperm hc).1
    · exact (memberKeys_listedState hperm hc).2

/-- The run that evaluates the conflict is part of the run that settles it. -/
theorem leads_conflictState_settled (hapi : ∀ {c v a v'}, api c v a v' → Kept S c v a v')
    (hinv : Inv S v) (hown : ∀ b, v.bindings.get m.key = some b → b.deleting = false)
    (h : Leads api (r.reconcileConflictState m plan) v (m', some (.ok ⟨0⟩)) v') :
    ∃ v₁ v₂ qs state, Leads api (r.evaluateBindingConflicts m plan) v (.ok state) v₁ ∧
      Conceded r S m plan v v₁ v₂ v' qs := by
  obtain ⟨err | state, v₁, hevaluate, hstate⟩ := leads_bind.mp h
  · obtain ⟨result, v₂, hreport, hend⟩ := leads_bind.mp hstate
    cases hend.1
    exact absurd hreport not_leads_reportApplyFailure
  dsimp only at hstate
  split_ifs at hstate with hnone
  · cases hstate.1
  obtain ⟨⟨m₁, err | absent⟩, v₂, hwithdraw, houtcome⟩ := leads_bind.mp hstate
  · obtain ⟨result, v₃, hreport, hend⟩ := leads_bind.mp houtcome
    cases hend.1
    exact absurd hreport not_leads_reportApplyFailure
  dsimp only at houtcome
  split_ifs at houtcome with hpending
  · -- waiting for an output to go away asks to come again
    obtain ⟨⟨m₂, err | ⟨⟩⟩, v₃, -, hend⟩ := leads_bind.mp houtcome <;> cases hend.1
  obtain ⟨habsent, hblocked⟩ := not_or.mp hpending
  rw [Bool.not_eq_false] at habsent
  rw [Bool.not_eq_true] at hblocked
  subst habsent
  have hgoes : Goes S (r.evaluateBindingConflicts m plan) v (.ok state) v₁ :=
    Leads.mono hapi hevaluate
  have hsurveyed := Goes.evaluate hown hgoes hblocked
  have hconflicts : state.conflicts ≠ [] := fun h => hnone ⟨h, hblocked⟩
  obtain ⟨qs, hqs, hnodup, hstored, hmembers⟩ := hsurveyed.members hconflicts
  rw [hqs] at hwithdraw
  obtain ⟨hsame, hwithdrawn⟩ := Goes.withdraw hstored hnodup (Leads.mono hapi hwithdraw)
  obtain ⟨err | ⟨⟩, v₃, hpublish, hend⟩ := leads_bind.mp houtcome
  · cases hend.1
  obtain ⟨-, rfl⟩ := hend
  have hpublished := Goes.publishOutcome (Leads.mono hapi hpublish)
  rw [hsame] at hpublished
  rw [hsurveyed.conflicts] at hpublished hconflicts
  exact ⟨v₁, v₂, qs, state, hevaluate, ⟨state, hsurveyed⟩, Goes.inv hinv hgoes, hconflicts,
    hmembers, hstored, hwithdrawn, hpublished⟩

/-! ## Deletion -/

/-- What is stored after an update that succeeded, unless the binding was let go. -/
theorem get_settleBinding {stored : Binding} (h : (v.settleBinding stored).bindings.get stored.key =
    some b) : b = { stored with resourceVersion := v.revision + 1 } := by
  rw [World.settleBinding] at h
  split_ifs at h
  · rw [World.dropBinding, Store.get_erase, if_pos rfl] at h
    cases h
  · rw [get_saveBinding] at h
    exact (Option.some.inj h).symm

theorem Goes.removeFinalizer {b' : Binding} (hm : Mirrors True v m)
    (h : Goes S (Reconciler.removeFinalizer m) v (.ok ⟨0⟩) v')
    (hb : v'.bindings.get m.key = some b') :
    b'.deleting = m.deleting ∧ inferenceIdentityBindingFinalizer ∉ b'.finalizers := by
  obtain ⟨⟨m₁, err | ⟨⟩⟩, v₁, hclear, hrest⟩ := leads_bind.mp h
  · cases hrest.1
  have hcarried : Carried True v m v₁ m₁ := by
    split_ifs at hclear
    · exact (Goes.clear hm hclear).1
    · obtain ⟨hresult, rfl⟩ := hclear
      cases hresult
      exact .refl hm
  obtain ⟨err | updated, v₂, hupdate, hend⟩ := leads_bind.mp hrest
  · cases hend.1
  obtain ⟨-, rfl⟩ := hend
  obtain ⟨stored, hget, -, rfl⟩ := Goes.updateBinding hupdate
  obtain rfl : stored = m₁ := Option.some.inj (hget.symm.trans hcarried.mirrors.current)
  rw [← hcarried.continues.key] at hb
  rw [get_settleBinding hb]
  refine ⟨hcarried.continues.deleting, ?_⟩
  change _ ∉ stored.finalizers.filter _
  simp

theorem Goes.reconcileDelete {b' : Binding} (hb : v.bindings.get b.key = some b)
    (hdeleting : b.deleting = true) (h : Goes S (r.reconcileDelete b) v (.ok ⟨0⟩) v')
    (hb' : v'.bindings.get b.key = some b') :
    b'.deleting = true ∧ inferenceIdentityBindingFinalizer ∉ b'.finalizers := by
  rw [Reconciler.reconcileDelete] at h
  by_cases hfinalizer : inferenceIdentityBindingFinalizer ∉ b.finalizers
  · rw [if_pos hfinalizer] at h
    obtain ⟨-, rfl⟩ := h
    obtain rfl := Option.some.inj (hb.symm.trans hb')
    exact ⟨hdeleting, hfinalizer⟩
  rw [if_neg hfinalizer] at h
  obtain ⟨⟨m₁, err | ⟨⟩⟩, v₁, hcleanup, hrest⟩ := leads_bind.mp h
  · exact absurd hrest not_leads_reportApplyFailure
  have hcleaned := Goes.cleanupManaged (mirrors_of_get hb) hcleanup
  obtain ⟨⟨m₂, err | _ | ⟨o, objects⟩⟩, v₂, hlist, hend⟩ := leads_bind.mp hrest
  · exact absurd hend not_leads_reportApplyFailure
  · obtain ⟨hlisted, -⟩ := Goes.listManaged hcleaned.mirrors hlist
    have hcontinues := (hcleaned.trans hlisted).continues
    rw [← hcontinues.key] at hb'
    obtain ⟨hsame, hgone⟩ := Goes.removeFinalizer hlisted.mirrors hend hb'
    exact ⟨hsame.trans (hcontinues.deleting.trans hdeleting), hgone⟩
  · cases hend.1

/-! ## The three paths -/

/-- A binding whose plan is about to be carried out. -/
structure Underway (r : Reconciler) (v : World) (b : Binding) (plan : Plan) : Prop where
  stored : v.bindings.get b.key = some b
  present : b.deleting = false
  finalizer : inferenceIdentityBindingFinalizer ∈ b.finalizers
  rendered : (execute (r.renderDesired (r.prepareStatus b)) v).1 = .ok plan
  podSelector : plan.podSelector.wellFormed = true

theorem Underway.own (h : Underway r v b plan) :
    ∀ x, v.bindings.get (r.prepareStatus b).key = some x → x.deleting = false := by
  intro x hx
  obtain rfl := Option.some.inj (h.stored.symm.trans hx)
  exact h.present

theorem Underway.mirrors {v₁ : World} (h : Underway r v b plan)
    (hsame : v₁.bindings.get b.key = v.bindings.get b.key) :
    Mirrors False v₁ (r.prepareStatus b) :=
  (mirrors_of_get (hsame.trans h.stored)).withStatus (record_prepareStatus b)

/-- What a run leaves that applies an output: there is no conflict, the output is in place, and
the success is published. -/
structure Achieved (r : Reconciler) (S : Setting) (m : Binding) (plan : Plan) (v v₁ v₂ v' : World)
    (m' : Binding) (o : ClusterSPIFFEID) (managed : RenderedClusterSPIFFEIDStatus) : Prop where
  surveyed : ∃ state, Surveyed r m plan v v₁ state
  inv : Inv S v₁
  uncontested : contested r m plan v₁ = []
  carried : Carried False v₁ m v₂ m'
  inPlace : InPlace r.platform v₂ m' plan
    (desiredClusterSPIFFEID r.platform m.key plan r.config.clusterSPIFFEIDClassName) o managed
  published : Publishes m.key (applySuccessStatus m'.status m'.generation [plan] [managed]) v₂ v'

theorem Goes.applyOutput {m₁ : Binding} (hplan : plan.podSelector.wellFormed = true)
    (hm : Mirrors False v m₁) (hname : recordedClusterSPIFFEIDName m₁.status = [] ∨
      recordedClusterSPIFFEIDName m₁.status = desiredName r.platform m₁.key plan)
    (h : Goes S (r.applyOutput m₁ plan) v (.ok ⟨0⟩) v') :
    ∃ v₁ m₂ o managed, Carried False v m₁ v₁ m₂ ∧
      InPlace r.platform v₁ m₂ plan (desiredClusterSPIFFEID r.platform m₁.key plan
        r.config.clusterSPIFFEIDClassName) o managed ∧
      Publishes m₁.key (applySuccessStatus m₂.status m₂.generation [plan] [managed]) v₁ v' := by
  obtain ⟨⟨m₂, err | statuses⟩, v₁, happly, hrest⟩ := leads_bind.mp h
  · dsimp only at hrest
    split_ifs at hrest
    · exact absurd hrest (not_leads_settleStateError rfl)
    · exact absurd hrest not_leads_reportApplyFailure
  obtain ⟨hcarried, o, managed, rfl, hplace⟩ :=
    Goes.reconcileClusterSPIFFEIDs hplan hm hname happly
  obtain ⟨err | ⟨⟩, v₂, hpublish, hrest⟩ := leads_bind.mp hrest
  · cases hrest.1
  obtain ⟨⟨⟩, v₃, hevent, hend⟩ := leads_bind.mp hrest
  obtain rfl := (Goes.served hevent).recordEvent
  obtain ⟨-, rfl⟩ := hend
  have hpublished := Goes.publishOutcome hpublish
  rw [hcarried.continues.key] at hpublished
  exact ⟨v₁, m₂, o, managed, hcarried, hplace, hpublished⟩

/-- Once the plan is there, the output is applied or the conflict is settled. -/
theorem Underway.cases (h : Underway r v b plan)
    (hapi : ∀ {c v a v'}, api c v a v' → Kept S c v a v') (hinv : Inv S v)
    (hrun : Leads api (r.reconcileIdentity (r.prepareStatus b) plan) v (.ok ⟨0⟩) v') :
    (∃ v₁ v₂ m' o managed, Achieved r S (r.prepareStatus b) plan v v₁ v₂ v' m' o managed) ∨
    ∃ v₁ v₂ qs state,
      Leads api (r.evaluateBindingConflicts (r.prepareStatus b) plan) v (.ok state) v₁ ∧
      Conceded r S (r.prepareStatus b) plan v v₁ v₂ v' qs := by
  obtain ⟨⟨m₁, _ | result⟩, v₁, hstate, hrest⟩ := leads_bind.mp hrun
  · left
    have hgoes : Goes S (r.reconcileConflictState (r.prepareStatus b) plan) v (m₁, none) v₁ :=
      Leads.mono hapi hstate
    obtain ⟨rfl, hnone, state, hsurveyed⟩ := Goes.conflictState_none h.own hgoes
    obtain ⟨⟨m₂, err | _ | _⟩, v₂, hchanged, hrest⟩ := leads_bind.mp hrest
    · exact absurd hrest not_leads_reportApplyFailure
    · obtain ⟨hcleaned, hname⟩ :=
        Goes.cleanupChanged (h.mirrors hsurveyed.own) (Leads.mono hapi hchanged)
      have hkey : m₂.key = (r.prepareStatus b).key := hcleaned.continues.key
      obtain ⟨v₃, m₃, o, managed, happlied, hplace, hpublished⟩ :=
        Goes.applyOutput h.podSelector hcleaned.mirrors (hkey ▸ hname) (Leads.mono hapi hrest)
      rw [hkey] at hplace hpublished
      exact ⟨v₁, v₃, m₃, o, managed, ⟨state, hsurveyed⟩, Goes.inv hinv hgoes, hnone,
        hcleaned.trans happlied, hplace, hpublished⟩
    · -- waiting for the old output to go away asks to come again
      obtain ⟨⟨m₃, err | ⟨⟩⟩, v₃, -, hend⟩ := leads_bind.mp hrest <;> cases hend.1
  · right
    obtain ⟨hresult, rfl⟩ := hrest
    subst hresult
    exact leads_conflictState_settled hapi hinv h.own hstate

theorem leads_reconcilePresent {b' : Binding}
    (hapi : ∀ {c v a v'}, api c v a v' → Kept S c v a v') (hpools : v.PoolsWellFormed)
    (hstored : v.bindings.get b.key = some b) (hpresent : b.deleting = false)
    (hfinalizer : inferenceIdentityBindingFinalizer ∈ b.finalizers)
    (hrun : Leads api (r.reconcilePresent (r.prepareStatus b)) v (.ok ⟨0⟩) v')
    (hb' : v'.bindings.get b.key = some b') (hconcludes : b'.status.Concludes) :
    ∃ plan, Underway r v b plan ∧
      Leads api (r.reconcileIdentity (r.prepareStatus b) plan) v (.ok ⟨0⟩) v' := by
  obtain ⟨err | plan, v₁, hrender, hrest⟩ := leads_bind.mp hrun
  · have hgoes : Goes S (r.renderDesired (r.prepareStatus b)) v (.error err) v₁ :=
      Leads.mono hapi hrender
    obtain ⟨-, rfl⟩ := goes_pools (pools_renderDesired r _) hgoes
    dsimp only at hrest
    rcases hstate : errorsAsStateError err with _ | stateErr
    · rw [hstate] at hrest
      cases hrest.1
    rw [hstate] at hrest
    have hm : Mirrors False v₁ (r.prepareStatus b) :=
      (mirrors_of_get hstored).withStatus (record_prepareStatus b)
    exact absurd hconcludes (Goes.settleStateError hm
      (Goes.reportable_renderDesired hgoes stateErr hstate) (Leads.mono hapi hrest) hb')
  · have hgoes : Goes S (r.renderDesired (r.prepareStatus b)) v (.ok plan) v₁ :=
      Leads.mono hapi hrender
    have hplan := Goes.wellFormed_renderDesired hpools hgoes
    obtain ⟨hrendered, rfl⟩ := goes_pools (pools_renderDesired r _) hgoes
    exact ⟨plan, ⟨hstored, hpresent, hfinalizer, hrendered.symm, hplan⟩, hrest⟩

/-- **How a reconcile ends** that has concluded: the binding is on its way out and done with, or
its plan has been carried out. -/
theorem leads_reconcile {key : NamespacedName} {b' : Binding}
    (hapi : ∀ {c v a v'}, api c v a v' → Kept S c v a v') (hinv : Inv S v)
    (hpools : v.PoolsWellFormed) (hrun : Leads api (r.reconcile key) v (.ok ⟨0⟩) v')
    (hb' : v'.bindings.get key = some b') (hconcludes : b'.status.Concludes) :
    (b'.deleting = true ∧ inferenceIdentityBindingFinalizer ∉ b'.finalizers) ∨
    ∃ v₁ b plan, b.key = key ∧ Inv S v₁ ∧ Underway r v₁ b plan ∧
      Leads api (r.reconcileIdentity (r.prepareStatus b) plan) v₁ (.ok ⟨0⟩) v' := by
  obtain ⟨read, v₁, hread, hrest⟩ := leads_bind.mp hrun
  obtain ⟨rfl, rfl⟩ := (Goes.served (Leads.mono hapi hread)).getBinding
  rw [World.readBinding] at hrest
  rcases hget : v₁.bindings.get key with _ | first
  · rw [hget] at hrest
    obtain ⟨-, rfl⟩ := hrest
    rw [hget] at hb'
    cases hb'
  obtain ⟨-, rfl⟩ := Store.get_eq_some.mp hget
  rw [hget] at hrest
  dsimp only at hrest
  by_cases hdeleting : first.deleting = true
  · rw [if_pos hdeleting] at hrest
    exact Or.inl (Goes.reconcileDelete hget hdeleting (Leads.mono hapi hrest) hb')
  · right
    rw [if_neg hdeleting] at hrest
    obtain ⟨err | second, v₂, hensure, hrest⟩ := leads_bind.mp hrest
    · cases hrest.1
    have hgoes : Goes S (Reconciler.ensureFinalizer first) v₁ (.ok second) v₂ :=
      Leads.mono hapi hensure
    have hfinalized := Goes.ensureFinalizer hget (Bool.eq_false_iff.mpr hdeleting) hgoes
    rw [← hfinalized.key] at hb' ⊢
    obtain ⟨plan, hunderway, hidentity⟩ := leads_reconcilePresent hapi
      (hpools.of_poolView hfinalized.beside.poolView) hfinalized.stored hfinalized.present
      hfinalized.finalizer hrest hb' hconcludes
    exact ⟨v₂, second, plan, rfl, Goes.inv hinv hgoes, hunderway, hidentity⟩

end Kleym
