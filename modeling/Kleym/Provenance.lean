import Kleym.Sources
import Kleym.Tally

/-!
# Provenance

What `Sources` says about one reconcile holds for all runs: with any number of reconciles at once,
old reads, faults, crashes and edits, every status that was ever persisted is accounted for by the
versions of the bindings, and so is every object that is about to be written. As long as nobody
forges a status, a binding publishes no configuration but that of the operator, no identity that was
not rendered from a binding of its name, and no conflict but with peers in its namespace.

So the CLI, which takes its configuration from the status of bindings, has that of the operator: what
`kleym inspect binding` shows is what the operator desires.
-/

namespace Kleym

open GoString Prog

variable {r : Reconciler} {S : Setting} {w w' : World}

/-! ## Versions -/

/-- A past in which a cluster could answer: it has all versions, and the pools that are there. -/
structure Past.Covers (V : Past) (w : World) : Prop where
  binding : ∀ b ∈ w.bindingVersions, V.binding b
  object : ∀ o ∈ w.objectVersions, V.object o
  pool : ∀ pool ∈ w.pools.entries, V.pool pool

/-- Every status and every record that was ever persisted is accounted for. -/
def World.Vouched (r : Reconciler) (V : Past) (w : World) : Prop :=
  ∀ b ∈ w.bindingVersions, b.Vouched r V

namespace World.Vouched

variable {V : Past}

theorem stored (h : w.Vouched r V) (hhistory : History w) {key : NamespacedName} {b : Binding}
    (hget : w.bindings.get key = some b) : b.Vouched r V :=
  h b (hhistory.binding_mem b (Store.get_eq_some.mp hget).1)

theorem saveBinding (h : w.Vouched r V) {b : Binding} (hb : b.Vouched r V) :
    (w.saveBinding b).Vouched r V :=
  List.forall_mem_cons.mpr ⟨⟨hb.status, hb.named⟩, h⟩

theorem settleBinding (h : w.Vouched r V) {b : Binding} (hb : b.Vouched r V) :
    (w.settleBinding b).Vouched r V := by
  rw [World.settleBinding]
  split_ifs
  · exact h
  · exact h.saveBinding hb

/-- Others write no status but the empty one. -/
theorem user (h : w.Vouched r V) (hhistory : History w) (hS : S.Honest) {op : UserOp}
    (hop : op.Permitted S w) : (op.apply w).Vouched r V := by
  cases op with
  | createBinding key uid finalizers spec =>
    refine h.saveBinding ⟨.empty, ?_⟩
    rintro name (⟨_, ⟨⟩, -⟩ | ⟨_, ⟨⟩, -⟩)
  | editBinding key spec =>
    rw [UserOp.apply]
    split
    · exact h
    · rename_i b hget
      have hb := h.stored hhistory hget
      exact h.saveBinding ⟨hb.status, hb.named⟩
  | deleteBinding key =>
    rw [UserOp.apply]
    split
    · exact h
    · rename_i b hget
      have hb := h.stored hhistory hget
      exact h.settleBinding ⟨hb.status, hb.named⟩
  | writeBinding key finalizers status =>
    have hforgery := hop.1
    rw [hS] at hforgery
    cases hforgery
  | modifyObject object =>
    rw [UserOp.apply]
    split <;> exact h
  | terminateObject name =>
    rw [UserOp.apply]
    split <;> exact h
  | _ => exact h

/-- A patch of the record that is accounted for. -/
theorem ownershipPatch (h : w.Vouched r V) (hinv : Inv S w) {base stored : Binding} {status : Status}
    (hget : w.bindings.get base.key = some stored)
    (hversion : stored.resourceVersion = base.resourceVersion) (hbased : Based S w base)
    (hcall : Warranted r V (.patchBindingStatus .ownership base status)) :
    (stored.patchedBy base status).Vouched r V := by
  obtain ⟨hcopy, hsame, -⟩ := hbased.stored_eq hinv.history hget hversion
  have hrecord : (stored.patchedBy base status).record =
      Binding.record { base with status := status } := record_mergeStatus status hsame
  have huid : stored.uid = base.uid := by rw [hcopy]
  refine ⟨hcall.1.merge (h.stored hinv.history hget).status, fun name hname => ?_⟩
  change Named r V stored.uid name
  rw [huid]
  exact hcall.2 name ((Binding.records_congr hrecord).mp hname)

/-- A call that is accounted for keeps the accounts. -/
theorem effect (h : w.Vouched r V) (hinv : Inv S w) {log : Log} {c : Call} {fresh : GoString}
    (hguard : Guard r S log w c) (hcall : Warranted r V c) (heffect : Effect c w fresh w') :
    w'.Vouched r V := by
  cases heffect with
  | updateBinding hget =>
    have hb := h.stored hinv.history hget
    exact h.settleBinding ⟨hb.status, hb.named⟩
  | @patchBindingStatus kind base stored status _ _ hget hversion hadmitted =>
    cases kind with
    | ownership => exact h.saveBinding (h.ownershipPatch hinv hget hversion hguard.1 hcall)
    | ordinary =>
      -- the patch was computed from the version that is stored, so it arrives as it is
      obtain rfl := hinv.history.binding_inj base (OrdinaryPatch.base_mem hguard) stored
        (hinv.history.binding_mem stored (Store.get_eq_some.mp hget).1) hversion.symm
      have hrecord : (base.patchedBy base status).record = base.record :=
        (record_mergeStatus status rfl).trans (OrdinaryPatch.record hguard)
      refine h.saveBinding ⟨?_, fun name hname => ?_⟩
      · rw [Binding.patchedBy, mergeStatus_current]
        exact hcall
      · exact (h.stored hinv.history hget).named name ((Binding.records_congr hrecord).mp hname)
  | _ => exact h

end World.Vouched

/-- Whatever is answered, it is of the past or what something of the past has been changed to. -/
theorem attested_of_answered {V : Past} {log log' : Log} {c : Call} {a : Answer c}
    (h : Answered S c ⟨w, log⟩ a ⟨w', log'⟩) (hinv : Inv S w) (hcovers : V.Covers w)
    (hV : ∀ b, V.binding b → b.Vouched r V) : Attested r V c a := by
  cases c with
  | getBinding key =>
    intro b hb
    obtain ⟨hkey, hmem, -⟩ := (h.getBinding hinv).2 b hb
    exact ⟨hkey, hcovers.binding b hmem⟩
  | listBindings reader namespace_ =>
    intro items hitems b hb
    obtain ⟨hnamespace, hmem⟩ := ((h.listBindings hinv).2.2 items hitems).1 b hb
    exact ⟨hnamespace, hcovers.binding b hmem⟩
  | updateBinding b =>
    rintro target rfl
    obtain ⟨stored, hget, -, huid, rfl, -⟩ := h.updateBinding
    obtain ⟨hmem, hkey⟩ := Store.get_eq_some.mp hget
    have hstored := hV stored (hcovers.binding stored (hinv.history.binding_mem stored hmem))
    exact ⟨hkey, huid, rfl, hstored.status, hstored.named⟩
  | getPool gvk key =>
    rintro pool rfl
    obtain ⟨-, hkey, hmem⟩ := h.getPool
    exact ⟨hkey, hcovers.pool pool (hmem pool rfl)⟩
  | getClusterSPIFFEID name =>
    intro o ho
    exact hcovers.object o ((h.getClusterSPIFFEID hinv).2.1 o ho).2.1
  | createClusterSPIFFEID owner object =>
    rintro created rfl
    obtain ⟨fresh, -, -, rfl, -⟩ := h.createClusterSPIFFEID
    rfl
  | updateClusterSPIFFEID owner object =>
    rintro updated rfl
    obtain ⟨stored, -, rfl⟩ := h.updateClusterSPIFFEID
    rfl
  | _ => trivial

/-! ## Runs -/

/-- What a reconcile may have been answered with up to a state: the versions of bindings and
objects, and the pools that were there at some time of a run that leads to it. -/
def SystemState.past (r : Reconciler) (S : Setting) (s : SystemState) : Past where
  binding b := b ∈ s.world.bindingVersions
  object o := o ∈ s.world.objectVersions
  pool pool := ∃ s₀, Reachable r S s₀ ∧ Relation.ReflTransGen (Step r S) s₀ s ∧
    pool ∈ s₀.world.pools.entries

theorem SystemState.past_covers {s : SystemState} (h : Reachable r S s) :
    (s.past r S).Covers s.world :=
  ⟨fun _ hb => hb, fun _ ho => ho, fun _ hpool => ⟨s, h, .refl, hpool⟩⟩

theorem SystemState.past_step {s s' : SystemState} (h : Reachable r S s) (hstep : Step r S s s') :
    (s.past r S).Precedes (s'.past r S) := by
  have hgrows : Grows s.world s'.world := by
    cases hstep with
    | user op hop _ =>
      obtain ⟨u, hu⟩ := op.exists_other
      exact (spares_user h.inv hop hu).toGrows
    | start key _ => exact .refl _
    | answer choice hchoice => exact grows_respond choice _ _
    | stop => exact .refl _
  refine ⟨fun b hb => hgrows.bindingVersions hb, fun o ho => hgrows.objectVersions ho, ?_⟩
  rintro pool ⟨s₀, hs₀, hrun, hpool⟩
  exact ⟨s₀, hs₀, hrun.tail hstep, hpool⟩

theorem Past.Precedes.trans {V V' V'' : Past} (h : V.Precedes V') (h' : V'.Precedes V'') :
    V.Precedes V'' :=
  ⟨fun b hb => h'.binding b (h.binding b hb), fun o ho => h'.object o (h.object o ho),
    fun pool hpool => h'.pool pool (h.pool pool hpool)⟩

theorem Past.Covers.mono {V V' : Past} (h : V.Covers w) (hV : V.Precedes V') : V'.Covers w :=
  ⟨fun b hb => hV.binding b (h.binding b hb), fun o ho => hV.object o (h.object o ho),
    fun pool hpool => hV.pool pool (h.pool pool hpool)⟩

/-- What holds in every state: the accounts are in order, and every reconcile under way keeps them
so, whatever it will have read by then. -/
structure Accounts (r : Reconciler) (S : Setting) (s : SystemState) : Prop where
  vouched : s.world.Vouched r (s.past r S)
  follows : ∀ t ∈ s.threads, ∀ V : Past, (s.past r S).Precedes V →
    (∀ b, V.binding b → b.Vouched r V) → Follows r V (fun _ => True) t.prog

/-- The next call of a reconcile is accounted for. -/
theorem Accounts.warranted {s : SystemState} (h : Accounts r S s) {c : Call}
    {k : Answer c → Op (Except GoError ReconcileResult)} {log : Log}
    (ht : ⟨.call c k, log⟩ ∈ s.threads) : Warranted r (s.past r S) c :=
  (h.follows _ ht _ ⟨fun _ hb => hb, fun _ ho => ho, fun _ hpool => hpool⟩ h.vouched).1

theorem Accounts.step {s s' : SystemState} (h : Accounts r S s) (hS : S.Honest)
    (hreach : Reachable r S s) (hstep : Step r S s s') : Accounts r S s' := by
  have hpast := SystemState.past_step hreach hstep
  have hkeep : s'.world.Vouched r (s.past r S) → s'.world.Vouched r (s'.past r S) :=
    fun hvouched b hb => (hvouched b hb).mono hpast
  have hfollows : ∀ t ∈ s.threads, ∀ V : Past, (s'.past r S).Precedes V →
      (∀ b, V.binding b → b.Vouched r V) → Follows r V (fun _ => True) t.prog :=
    fun t ht V hV => h.follows t ht V (hpast.trans hV)
  cases hstep with
  | user op hop _ => exact ⟨hkeep (h.vouched.user hreach.inv.history hS hop), hfollows⟩
  | start key _ =>
    refine ⟨hkeep h.vouched, List.forall_mem_cons.mpr ⟨fun V _ hV => ?_, hfollows⟩⟩
    exact follows_reconcile hV key
  | @answer w before after c k log choice hchoice =>
    have hmem : ⟨.call c k, log⟩ ∈ before ++ ⟨.call c k, log⟩ :: after :=
      List.mem_append_right _ List.mem_cons_self
    refine ⟨hkeep (h.vouched.effect hreach.inv (hreach.guarded hmem) (h.warranted hmem)
      (respond_effect choice c w)), fun t ht V hV hvouched => ?_⟩
    rcases List.mem_append.mp ht with ht | ht
    · exact hfollows t (List.mem_append_left _ ht) V hV hvouched
    rcases List.mem_cons.mp ht with rfl | ht
    · have hanswered : Answered S c ⟨w, log⟩ (respond choice c w).1
          ⟨(respond choice c w).2, log ++ [⟨c, (respond choice c w).1⟩]⟩ :=
        ⟨⟨choice, hchoice, rfl⟩, rfl⟩
      have hcovers := (SystemState.past_covers hreach).mono (hpast.trans hV)
      exact (hfollows _ hmem V hV hvouched).2 _
        (attested_of_answered hanswered hreach.inv hcovers hvouched)
    · exact hfollows t (List.mem_append_right _ (List.mem_cons_of_mem _ ht)) V hV hvouched
  | @stop _ before after t =>
    have hother := ((List.sublist_cons_self t after).append_left before).subset
    exact ⟨hkeep h.vouched, fun t ht => hfollows t (hother ht)⟩

theorem Reachable.accounts {s : SystemState} (hS : S.Honest) (h : Reachable r S s) :
    Accounts r S s := by
  induction h with
  | refl => exact ⟨List.forall_mem_nil _, List.forall_mem_nil _⟩
  | tail hreach hstep ih => exact ih.step hS hreach hstep

/-- A status that has a trust domain has the configuration of the operator. -/
theorem Status.Vouched.config_eq {V : Past} {key : NamespacedName} {status : Status}
    (h : status.Vouched r V key) (hpublished : status.trustDomain ≠ []) :
    status.trustDomain = r.config.trustDomain ∧
      status.clusterSPIFFEIDClassName = r.config.clusterSPIFFEIDClassName :=
  Prod.mk.inj (h.config.resolve_left fun hnone => hpublished (Prod.mk.inj hnone).1)

theorem agreedValue_eq {values : List GoString} {value : GoString} (hne : values ≠ [])
    (hall : ∀ v ∈ values, v = value) : agreedValue values = value := by
  obtain ⟨first, rest, rfl⟩ := List.exists_cons_of_ne_nil hne
  rw [List.forall_mem_cons] at hall
  rw [agreedValue, if_pos fun v hv => (hall.2 v hv).trans hall.1.symm, hall.1]

/-- What bindings publish is never mixed. -/
theorem World.Vouched.publishedConfig_eq {V : Past} (h : w.Vouched r V) {bindings : List Binding}
    (hstored : ∀ b ∈ bindings, b ∈ w.bindingVersions)
    (hpublished : published bindings ≠ []) :
    publishedConfig bindings = ⟨r.config.trustDomain, r.config.clusterSPIFFEIDClassName, true⟩ := by
  have hconfig : ∀ b ∈ published bindings, b.status.trustDomain = r.config.trustDomain ∧
      b.status.clusterSPIFFEIDClassName = r.config.clusterSPIFFEIDClassName := by
    intro b hb
    obtain ⟨hmem, hne⟩ := List.mem_filter.mp hb
    exact (h b (hstored b hmem)).status.config_eq (of_decide_eq_true hne)
  rw [publishedConfig, agreedValue_eq (by simpa using hpublished), agreedValue_eq]
  · simpa using hpublished
  · exact List.forall_mem_map.mpr fun b hb => (hconfig b hb).2
  · exact List.forall_mem_map.mpr fun b hb => (hconfig b hb).1

/-- **`kleym status` shows no other configuration.** In every state of every run without forged
statuses, whichever versions of bindings are listed, once one of them has published its
configuration: the trust domain in the report is the first one in the arguments of the operator, and
that of the operator if these have none; and the class is the last one in the arguments, and that of
the operator if these have neither setting. It is never `mixed`. -/
theorem reachable_status_config {s : SystemState} (hS : S.Honest) (h : Reachable r S s)
    {i : StatusInspector} {deployments : List Deployment} {bindings : List Binding}
    (hi : i.Answers deployments bindings) (hstored : ∀ b ∈ bindings, b ∈ s.world.bindingVersions)
    (hpublished : ∃ b ∈ bindings, b.status.trustDomain ≠ []) :
    let args := operatorArgs deployments
    i.status.1.config =
      { trustDomain :=
          if firstGiven (trustDomainArgs args) = [] then r.config.trustDomain
          else firstGiven (trustDomainArgs args)
        clusterSPIFFEIDClassName :=
          if trustDomainArgs args = [] ∧ classNameArgs args = [] then
            r.config.clusterSPIFFEIDClassName
          else lastGiven (classNameArgs args)
        clusterSPIFFEIDClassNameKnown := true } := by
  intro args
  obtain ⟨b, hb, hne⟩ := hpublished
  have hsome : published bindings ≠ [] :=
    List.ne_nil_of_mem (List.mem_filter.mpr ⟨hb, decide_eq_true hne⟩)
  rw [config_status hi, StatusConfig.fill, if_neg hsome,
    (h.accounts hS).vouched.publishedConfig_eq hstored hsome]
  by_cases hnone : trustDomainArgs args = [] ∧ classNameArgs args = []
  · simp [argsConfig, args, hnone]
  · have hknown : (argsConfig args).clusterSPIFFEIDClassNameKnown = true := by
      rw [argsConfig, Bool.not_eq_true', Bool.and_eq_false_iff]
      simpa [List.isEmpty_eq_false_iff] using not_and_or.mp hnone
    rw [if_pos hknown, if_neg hnone]
    rfl

/-- Over all versions of a binding that has become Ready the report shows the trust domain `t`. -/
theorem reachable_status_config_unset : ∃ s bindings, Reachable trialReconciler busySetting s ∧
    bindings.any (fun b => b.status.trustDomain = []) = true ∧
    (fullInstallation bindings).status.1.config = ⟨str "t", [], true⟩ := by
  obtain ⟨s, hs, htest⟩ := exists_reachable (r := trialReconciler) (S := busySetting) trialReady
    (fun s => s.world.bindingVersions.any (fun b => b.status.trustDomain = []) &&
      s.world.bindingVersions.any fun b => b.status.trustDomain ≠ []) (by decide +kernel)
  rw [Bool.and_eq_true] at htest
  obtain ⟨b, hb, hpublished⟩ := List.any_eq_true.mp htest.2
  have hanswers : (fullInstallation s.world.bindingVersions).Answers [] s.world.bindingVersions :=
    ⟨fun _ _ h => (by cases h), rfl, rfl, rfl⟩
  exact ⟨s, s.world.bindingVersions, hs, htest.1, reachable_status_config (S := busySetting) rfl hs
    hanswers (fun _ hb => hb) ⟨b, hb, of_decide_eq_true hpublished⟩⟩

/-- There is one kind of pools, so a discovery that finds it and one that finds nothing lead to the
same lookups. -/
theorem resolvePoolGVKs_discovered {restMapping : GroupVersionKind → Except GoError Unit}
    {available : List GroupVersionKind}
    (h : filterAvailableInspectionGVKs restMapping inferencePoolGVKs = .ok available) :
    resolvePoolGVKs available = inferencePoolGVKs := by
  rw [inferencePoolGVKs, filterAvailableInspectionGVKs] at h
  split at h
  · cases h
    rfl
  · split_ifs at h
    cases h
    rfl

/-- Only the kinds that are looked up matter for what is rendered. -/
theorem renderDesired_kinds (r : Reconciler) {available : List GroupVersionKind}
    (h : resolvePoolGVKs available = resolvePoolGVKs r.availablePoolGVKs) (b : Binding) :
    Reconciler.renderDesired { r with availablePoolGVKs := available } b = r.renderDesired b := by
  simp only [Reconciler.renderDesired, Reconciler.computeDesiredState, Reconciler.renderFromPool,
    Reconciler.resolveInferencePool, h]
  rfl

/-- **`kleym inspect binding` shows what the operator desires.** In every state of every run without
forged statuses, an inspection without overrides that can discover the served kinds, reads any
version of a binding which has published its configuration, and then whatever the cluster answers,
ends as the operator would with this version and these answers: it reports an error and renders
nothing where the operator has no plan, and otherwise describes the object that the operator
desires. -/
theorem reachable_inspect_desired {s : SystemState} (hS : S.Honest) (h : Reachable r S s)
    (hP : r.platform.Documented) {σ : Type} (answer : (c : Call) → σ → Answer c × σ) (q : σ)
    {i : BindingInspector} (hplatform : i.platform = r.platform)
    (htrust : i.identityConfig.trustDomainOverride = false)
    (hclass : i.identityConfig.clusterSPIFFEIDClassNameOverride = false)
    {available : List GroupVersionKind}
    (hserved : filterAvailableInspectionGVKs i.restMapping inferencePoolGVKs = .ok available)
    (hkinds : resolvePoolGVKs r.availablePoolGVKs = inferencePoolGVKs)
    {key : NamespacedName} {b : Binding}
    (hread : (answer (.getBinding key) q).1 = (.ok b : Except GoError Binding))
    (hb : b ∈ s.world.bindingVersions) (hpublished : b.status.trustDomain ≠ []) :
    let rendering := (exec answer (r.renderDesired b) (answer (.getBinding key) q).2).1
    let outcome := (exec answer (i.inspectBinding key) q).1
    (∀ err, rendering = .error err → outcome.2 = some .errorFindings ∧
      outcome.1.renderedIdentity = {} ∧ outcome.1.renderedClusterSPIFFEID = {}) ∧
    (∀ plan, rendering = .ok plan → outcome.2 = none ∧ outcome.1.Describes
      (desiredClusterSPIFFEID r.platform b.key plan r.config.clusterSPIFFEIDClassName)) := by
  obtain ⟨htrustDomain, hclassName⟩ := ((h.accounts hS).vouched b hb).status.config_eq hpublished
  have hne : r.config.trustDomain ≠ [] := htrustDomain ▸ hpublished
  have hconfig : (sourcedIdentityConfig i.identityConfig b).toResolvedIdentityConfig =
      ⟨r.config.trustDomain, r.config.clusterSPIFFEIDClassName⟩ := by
    rw [sourcedIdentityConfig]
    simp [htrust, hclass, htrustDomain, hclassName, hne]
  have hoperator : Reconciler.renderDesired ((ResolvedIdentityConfig.mk r.config.trustDomain
      r.config.clusterSPIFFEIDClassName).reconciler i.platform available) b = r.renderDesired b := by
    rw [ResolvedIdentityConfig.reconciler, hplatform]
    exact renderDesired_kinds r ((resolvePoolGVKs_discovered hserved).trans hkinds.symm) b
  have houtcome := outcome_inspectBinding answer q i (hplatform.symm ▸ hP) key
  dsimp only
  generalize (exec answer (i.inspectBinding key) q).1 = outcome at houtcome ⊢
  cases houtcome with
  | undiscovered hserved' => cases hserved.symm.trans hserved'
  | unread _ hread' => cases hread.symm.trans hread'
  | absent _ hread' => cases hread.symm.trans hread'
  | found hserved' hread' hinspected =>
    cases hserved.symm.trans hserved'
    cases hread.symm.trans hread'
    rw [hconfig, hoperator] at hinspected
    generalize (exec answer (r.renderDesired b) (answer (.getBinding key) q).2).1 = rendering
      at hinspected ⊢
    cases hinspected with
    | unrendered hfails hidentity houtput =>
      rw [hfails]
      exact ⟨fun _ _ => ⟨rfl, hidentity, houtput⟩, by rintro _ ⟨⟩⟩
    | rendered hplan hdescribes =>
      rw [hplan]
      refine ⟨(by rintro _ ⟨⟩), ?_⟩
      rintro _ ⟨⟩
      exact ⟨rfl, hplatform ▸ hdescribes⟩

/-- An inspector of the trial cluster. -/
def trialInspector : BindingInspector where
  platform := trialReconciler.platform
  isForbidden _ := false
  restMapping _ := .error ⟨.noMatch, []⟩
  listPods _ _ := .ok []
  now := []
  identityConfig := ⟨defaultTrustDomain, false, [], false⟩

/-- The operator has rendered `x`, and would again. -/
def SystemState.inspectable (s : SystemState) : Bool :=
  (s.world.bindings.get (trialKey "x")).any fun b =>
    b.status.trustDomain ≠ [] && (exec (respond {}) (trialReconciler.renderDesired b) s.world).1.isOk

/-- An inspection of a binding that is Ready. -/
theorem reachable_inspect_desired_trial : ∃ s b plan, Reachable trialReconciler busySetting s ∧
    s.world.bindings.get (trialKey "x") = some b ∧
    let outcome := (exec (respond {}) (trialInspector.inspectBinding (trialKey "x")) s.world).1
    outcome.2 = none ∧ outcome.1.Describes
      (desiredClusterSPIFFEID trialReconciler.platform b.key plan []) := by
  obtain ⟨s, hs, htest⟩ := exists_reachable (r := trialReconciler) (S := busySetting) trialReady
    SystemState.inspectable (by decide +kernel)
  obtain ⟨b, hget, hb⟩ := (Option.any_eq_true _ _).mp htest
  rw [Bool.and_eq_true] at hb
  have hread : s.world.readBinding .current (trialKey "x") = .ok b := by
    simp only [World.readBinding, hget]
  have hmem := hs.inv.history.binding_mem b (Store.get_eq_some.mp hget).1
  rcases hrendering : (exec (respond {}) (trialReconciler.renderDesired b) s.world).1 with err | plan
  · rw [hrendering] at hb
    cases hb.2
  · exact ⟨s, b, plan, hs, hget, (reachable_inspect_desired (S := busySetting) rfl hs
      (documented_referencePlatform _ _) (respond {}) s.world (i := trialInspector) rfl rfl rfl
      rfl rfl hread hmem (of_decide_eq_true hb.1)).2 plan hrendering⟩

end Kleym
