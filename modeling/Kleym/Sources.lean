import Kleym.Records
import Kleym.Undisturbed
import Kleym.Conflicts

/-!
# Where a status and an object come from

What a binding's status publishes, next to its conditions and its record, are a configuration, SPIFFE
IDs with their selectors, an output, and the peers it conflicts with. All of it comes from somewhere:
from the configuration of the operator, and from plans that were rendered from specs which bindings
had. The same holds for the objects that are written.

Here a reconcile is followed through all its functions, relative to the bindings it may be answered
with: as long as these are in `V`, and their own statuses are accounted for, everything it writes is.
-/

namespace Kleym

open GoString Prog

/-! ## Accounts of a status -/

/-- What a reconcile may have been answered with: versions of bindings and of objects, and pools. -/
structure Past where
  binding : Binding → Prop
  object : ClusterSPIFFEID → Prop
  pool : InferencePool → Prop

/-- A past that goes on. -/
structure Past.Precedes (V V' : Past) : Prop where
  binding : ∀ b, V.binding b → V'.binding b
  object : ∀ o, V.object o → V'.object o
  pool : ∀ pool, V.pool pool → V'.pool pool

/-- A plan that was rendered for a binding, from a pool which its reference led to. -/
def RenderedFrom (r : Reconciler) (V : Past) (b : Binding) (plan : Plan) : Prop :=
  ∃ pool, V.pool pool ∧ r.Refers b pool ∧ r.renderIdentity b pool = .ok plan

/-- A plan that was rendered from a spec which a binding of this name had. -/
def Grounded (r : Reconciler) (V : Past) (key : NamespacedName) (plan : Plan) : Prop :=
  ∃ b, V.binding b ∧ b.key = key ∧ RenderedFrom r V b plan

/-- A name that was rendered from a spec which the binding with this UID had. -/
def Named (r : Reconciler) (V : Past) (uid name : GoString) : Prop :=
  ∃ b plan, V.binding b ∧ b.uid = uid ∧ RenderedFrom r V b plan ∧
    name = desiredName r.platform b.key plan

/-- What the evaluator was shown of a binding of this name: its plan, next to the service account of
the copy that was listed. -/
def VariantRecord.Grounded (r : Reconciler) (V : Past) (key : NamespacedName)
    (record : VariantRecord) : Prop :=
  ∃ b plan, V.binding b ∧ b.key = key ∧ Kleym.Grounded r V key plan ∧ record = variantRecord b plan

/-- Everything that the status of a binding publishes is accounted for. -/
structure Status.Vouched (r : Reconciler) (V : Past) (key : NamespacedName) (status : Status) :
    Prop where
  config : status.config = ([], []) ∨
    status.config = (r.config.trustDomain, r.config.clusterSPIFFEIDClassName)
  computed : ∀ id ∈ status.computedSpiffeIDs, ∃ plan, Grounded r V key plan ∧ plan.spiffeID = id
  selectors : ∀ rendered ∈ status.renderedSelectors, ∃ plan, Grounded r V key plan ∧
    rendered = ⟨plan.spiffeID, plan.selectors⟩
  output : ∀ output ∈ status.renderedClusterSPIFFEID, ∃ plan, Grounded r V key plan ∧
    output.name = desiredName r.platform key plan ∧ output.spiffeID = plan.spiffeID ∧
    output.selectorFingerprint = selectorFingerprint r.platform plan.selectors
  conflicts : ∀ item ∈ status.conflicts, ∃ x y : VariantRecord, x.Grounded r V key ∧
    y.Grounded r V ⟨key.namespace_, item.bindingName⟩ ∧ x.Clash y ∧
    item.cause = (x.report y).cause ∧ item.spiffeID = y.spiffeID ∧ item.variant = y.variant

/-- The status of a binding and the names in its record are accounted for. -/
structure Binding.Vouched (r : Reconciler) (V : Past) (b : Binding) : Prop where
  status : b.status.Vouched r V b.key
  named : ∀ name, b.Records name → Named r V b.uid name

/-- What a status publishes besides its configuration. -/
def Status.published (status : Status) : List GoString × List RenderedSelectorStatus ×
    Option RenderedClusterSPIFFEIDStatus × List VariantConflictStatus :=
  (status.computedSpiffeIDs, status.renderedSelectors, status.renderedClusterSPIFFEID,
    status.conflicts)

/-- A patch of the record leaves alone what is published, or clears it. -/
structure Handover (base status : Status) : Prop where
  config : status.config = base.config
  published : status.published = base.published ∨ status.published = ([], [], none, [])

section

variable {r : Reconciler} {V : Past} {key : NamespacedName} {status base stored : Status}

theorem RenderedFrom.mono {V' : Past} {b : Binding} {plan : Plan} (h : RenderedFrom r V b plan)
    (hV : V.Precedes V') : RenderedFrom r V' b plan := by
  obtain ⟨pool, hpool, hplan⟩ := h
  exact ⟨pool, hV.pool pool hpool, hplan⟩

theorem Grounded.mono {V' : Past} {plan : Plan} (h : Grounded r V key plan)
    (hV : V.Precedes V') : Grounded r V' key plan := by
  obtain ⟨b, hb, hkey, hrendered⟩ := h
  exact ⟨b, hV.binding b hb, hkey, hrendered.mono hV⟩

theorem Named.mono {V' : Past} {uid name : GoString} (h : Named r V uid name)
    (hV : V.Precedes V') : Named r V' uid name := by
  obtain ⟨b, plan, hb, huid, hrendered, hname⟩ := h
  exact ⟨b, plan, hV.binding b hb, huid, hrendered.mono hV, hname⟩

theorem VariantRecord.Grounded.mono {V' : Past} {record : VariantRecord}
    (h : record.Grounded r V key) (hV : V.Precedes V') : record.Grounded r V' key := by
  obtain ⟨b, plan, hb, hkey, hplan, hrecord⟩ := h
  exact ⟨b, plan, hV.binding b hb, hkey, hplan.mono hV, hrecord⟩

namespace Status.Vouched

theorem empty : Status.Vouched r V key {} :=
  ⟨Or.inl rfl, List.forall_mem_nil _, List.forall_mem_nil _, (by rintro _ ⟨⟩), List.forall_mem_nil _⟩

theorem mono {V' : Past} (h : status.Vouched r V key) (hV : V.Precedes V') :
    status.Vouched r V' key where
  config := h.config
  computed id hid := (h.computed id hid).imp fun _ hplan => ⟨hplan.1.mono hV, hplan.2⟩
  selectors s hs := (h.selectors s hs).imp fun _ hplan => ⟨hplan.1.mono hV, hplan.2⟩
  output o ho := (h.output o ho).imp fun _ hplan => ⟨hplan.1.mono hV, hplan.2⟩
  conflicts c hc := by
    obtain ⟨x, y, hx, hy, hclash⟩ := h.conflicts c hc
    exact ⟨x, y, hx.mono hV, hy.mono hV, hclash⟩

/-- Nothing else about a status matters. -/
theorem congr (h : base.Vouched r V key) (hconfig : status.config = base.config)
    (hpublished : status.published = base.published) : status.Vouched r V key := by
  obtain ⟨hcomputed, hselectors, houtput, hconflicts⟩ : status.computedSpiffeIDs =
      base.computedSpiffeIDs ∧ status.renderedSelectors = base.renderedSelectors ∧
      status.renderedClusterSPIFFEID = base.renderedClusterSPIFFEID ∧
      status.conflicts = base.conflicts := by
    simpa [Status.published] using hpublished
  exact ⟨hconfig ▸ h.config, hcomputed ▸ h.computed, hselectors ▸ h.selectors, houtput ▸ h.output,
    hconflicts ▸ h.conflicts⟩

/-- A status that publishes its configuration only. -/
theorem of_cleared (h : base.Vouched r V key) (hconfig : status.config = base.config)
    (hpublished : status.published = ([], [], none, [])) : status.Vouched r V key := by
  obtain ⟨hcomputed, hselectors, houtput, hconflicts⟩ : status.computedSpiffeIDs = [] ∧
      status.renderedSelectors = [] ∧ status.renderedClusterSPIFFEID = none ∧
      status.conflicts = [] := by
    simpa [Status.published] using hpublished
  refine ⟨hconfig ▸ h.config, ?_, ?_, ?_, ?_⟩
  · simp [hcomputed]
  · simp [hselectors]
  · simp [houtput]
  · simp [hconflicts]

end Status.Vouched

theorem Binding.Vouched.mono {V' : Past} {b : Binding} (h : b.Vouched r V) (hV : V.Precedes V') :
    b.Vouched r V' :=
  ⟨h.status.mono hV, fun name hname => (h.named name hname).mono hV⟩

theorem Handover.vouched (h : Handover base status) (hbase : base.Vouched r V key) :
    status.Vouched r V key :=
  h.published.elim (hbase.congr h.config) (hbase.of_cleared h.config)

/-! ## Merging -/

theorem mergeField_subset {α : Type} [DecidableEq α] {base target current : List α}
    (h : target = base ∨ target = []) : mergeField base target current ⊆ current := by
  rw [mergeField]
  split_ifs with hsame
  · exact List.Subset.refl current
  · rw [h.resolve_left (Ne.symm hsame)]
    exact List.nil_subset current

theorem mem_of_mergeOptional {α : Type} [DecidableEq α] {zero : α} {merge : α → α → α → α}
    {base target current : Option α} (h : target = base ∨ target = none) {a : α}
    (ha : a ∈ mergeOptional zero merge base target current) : a ∈ current := by
  rcases h with rfl | rfl
  · rwa [mergeOptional_same] at ha
  · cases base with
    | none => rwa [mergeOptional_same] at ha
    | some base => cases ha

/-- What was published before such a patch is published after it, or less. -/
theorem Handover.merge (h : Handover base status) (hstored : stored.Vouched r V key) :
    (mergeStatus base status stored).Vouched r V key := by
  obtain ⟨htrust, hclass⟩ := Prod.mk.inj h.config
  have hconfig : (mergeStatus base status stored).config = stored.config := by
    simp [Status.config, mergeStatus, htrust, hclass]
  have hparts := h.published
  simp only [Status.published, Prod.mk.injEq] at hparts
  refine ⟨hconfig ▸ hstored.config, fun id hid => ?_, fun s hs => ?_, fun o ho => ?_, fun c hc => ?_⟩
  · exact hstored.computed id (mergeField_subset (hparts.imp (·.1) (·.1)) hid)
  · exact hstored.selectors s (mergeField_subset (hparts.imp (·.2.1) (·.2.1)) hs)
  · exact hstored.output o (mem_of_mergeOptional (hparts.imp (·.2.2.1) (·.2.2.1)) ho)
  · exact hstored.conflicts c (mergeField_subset (hparts.imp (·.2.2.2) (·.2.2.2)) hc)

/-! ## The status functions -/

theorem published_initializeConditions (status : Status) (generation : ℕ) :
    (initializeConditions status generation).published = status.published := by
  rw [initializeConditions]
  generalize canonicalConditions = entries
  induction entries generalizing status with
  | nil => rfl
  | cons entry entries ih =>
    rw [List.foldl_cons, ih, initializeCondition]
    split <;> rfl

/-- What `prepareStatus` publishes is what was there, under the configuration of the operator. -/
theorem Status.Vouched.prepareStatus {b : Binding} (h : b.status.Vouched r V key) :
    (r.prepareStatus b).status.Vouched r V key := by
  have hbase : Status.Vouched r V key (applyOperatorConfig b.status r.config.trustDomain
      r.config.clusterSPIFFEIDClassName) :=
    ⟨Or.inr rfl, h.computed, h.selectors, h.output, h.conflicts⟩
  refine hbase.congr rfl ?_
  exact published_initializeConditions b.status b.generation

theorem config_resolveOther (failed type : ConditionType) (generation : ℕ) (status : Status) :
    (resolveOther failed generation status type).config = status.config ∧
      (resolveOther failed generation status type).published = status.published := by
  rw [resolveOther]
  split_ifs <;> exact ⟨rfl, rfl⟩

theorem Status.Vouched.applyFailureStatus (h : status.Vouched r V key) (generation : ℕ)
    (err : StateError) : (applyFailureStatus status generation err).Vouched r V key := by
  refine h.of_cleared ?_ ?_
  · simp only [Kleym.applyFailureStatus, (config_resolveOther _ _ _ _).1]
    rfl
  · simp only [Kleym.applyFailureStatus, (config_resolveOther _ _ _ _).2]
    rfl

theorem Status.Vouched.applyPendingConflictStatus (h : status.Vouched r V key) (generation : ℕ) :
    (applyPendingConflictStatus status generation).Vouched r V key :=
  h.of_cleared rfl rfl

theorem Status.Vouched.applyPendingManagedOutputReplacementStatus (h : status.Vouched r V key)
    (generation : ℕ) :
    (applyPendingManagedOutputReplacementStatus status generation).Vouched r V key :=
  h.of_cleared rfl rfl

/-- A success publishes one plan. -/
theorem Status.Vouched.applySuccessStatus (h : status.Vouched r V key) (generation : ℕ)
    {plan : Plan} (hplan : Grounded r V key plan) {outputs : List RenderedClusterSPIFFEIDStatus}
    (houtputs : ∀ output ∈ outputs, output.name = desiredName r.platform key plan ∧
      output.spiffeID = plan.spiffeID ∧
      output.selectorFingerprint = selectorFingerprint r.platform plan.selectors) :
    (applySuccessStatus status generation [plan] outputs).Vouched r V key where
  config := h.config
  computed _ hid := ⟨plan, hplan, (List.mem_singleton.mp hid).symm⟩
  selectors _ hs := ⟨plan, hplan, List.mem_singleton.mp hs⟩
  output _ ho := ⟨plan, hplan, houtputs _ (List.mem_of_mem_head? ho)⟩
  conflicts _ hc := absurd hc List.not_mem_nil

/-- A conflict publishes what the evaluator was shown of peers in the namespace. -/
theorem Status.Vouched.applyConflictStatus (h : status.Vouched r V key) (generation : ℕ)
    {conflicts : List VariantConflict} (hconflicts : ∀ c ∈ conflicts, ∃ x y : VariantRecord,
      x.Grounded r V key ∧ y.Grounded r V ⟨key.namespace_, c.peerBindingRef.name⟩ ∧ x.Clash y ∧
      c = x.report y) :
    (applyConflictStatus status generation conflicts).Vouched r V key where
  config := h.config
  computed _ hid := absurd hid List.not_mem_nil
  selectors _ hs := absurd hs List.not_mem_nil
  output := by rintro _ ⟨⟩
  conflicts item hitem := by
    obtain ⟨c, hc, rfl⟩ := List.mem_map.mp hitem
    obtain ⟨x, y, hx, hy, hclash, rfl⟩ := hconflicts c hc
    exact ⟨x, y, hx, hy, hclash, rfl, rfl, rfl⟩

end

/-! ## Copies -/

/-- A copy of a binding in `V`, with a status and a record that are accounted for. -/
structure Sourced (r : Reconciler) (V : Past) (m : Binding) : Prop where
  origin : ∃ b, V.binding b ∧ b.key = m.key ∧ b.uid = m.uid ∧ b.spec = m.spec
  vouched : m.Vouched r V

/-- Answers that hand out what is in `V`, or what this is changed to. -/
def Attested (r : Reconciler) (V : Past) : (c : Call) → Answer c → Prop
  | .getBinding key, a => ∀ b, a = (.ok b : Except GoError Binding) → b.key = key ∧ V.binding b
  | .listBindings _ namespace_, a =>
    ∀ items, a = (.ok items : Except GoError (List Binding)) →
      ∀ b ∈ items, b.key.namespace_ = namespace_ ∧ V.binding b
  | .updateBinding b, a => ∀ b', a = (.ok b' : Except GoError Binding) →
    b'.key = b.key ∧ b'.uid = b.uid ∧ b'.spec = b.spec ∧ b'.Vouched r V
  | .getPool gvk key, a =>
    ∀ pool, a = (.ok pool : Except GoError InferencePool) → pool.key = (gvk, key) ∧ V.pool pool
  | .getClusterSPIFFEID _, a => ∀ o, a = (.ok o : Except GoError ClusterSPIFFEID) → V.object o
  | .createClusterSPIFFEID _ object, a =>
    ∀ o, a = (.ok o : Except GoError ClusterSPIFFEID) → o.name = object.name
  | .updateClusterSPIFFEID _ object, a =>
    ∀ o, a = (.ok o : Except GoError ClusterSPIFFEID) → o.name = object.name
  | _, _ => True

/-- Calls that write nothing which is not accounted for. -/
def Warranted (r : Reconciler) (V : Past) : Call → Prop
  | .patchBindingStatus .ordinary base status => status.Vouched r V base.key
  | .patchBindingStatus .ownership base status => Handover base.status status ∧
    ∀ name, Binding.Records { base with status := status } name → Named r V base.uid name
  | .createClusterSPIFFEID owner object => ∃ b plan claim, V.binding b ∧ b.uid = owner ∧
    RenderedFrom r V b plan ∧ object = setClusterSPIFFEIDOwnershipClaim
      (desiredClusterSPIFFEID r.platform b.key plan r.config.clusterSPIFFEIDClassName) claim
  | .updateClusterSPIFFEID owner object => ∃ b plan current, V.binding b ∧ b.uid = owner ∧
    RenderedFrom r V b plan ∧ V.object current ∧
    current.name = desiredName r.platform b.key plan ∧ object = mergeDesiredClusterSPIFFEID current
      (desiredClusterSPIFFEID r.platform b.key plan r.config.clusterSPIFFEIDClassName)
  | _ => True

section

variable {r : Reconciler} {V : Past} {m m' : Binding} {plan : Plan}

/-- A piece of code whose writes are accounted for, and that returns values in `Q`. -/
abbrev Follows (r : Reconciler) (V : Past) {α : Type} (Q : α → Prop) : Op α → Prop :=
  Within (Attested r V) (Warranted r V) Q

/-- What comes back is a later copy of the binding. -/
def Hands (r : Reconciler) (V : Past) (m : Binding) {α : Type} (x : Binding × α) : Prop :=
  Continues m x.1 ∧ Sourced r V x.1

theorem Sourced.next (h : Sourced r V m) (hm : Continues m m')
    (hstatus : m'.status.Vouched r V m.key) (hnamed : ∀ name, m'.Records name → Named r V m.uid name) :
    Sourced r V m' := by
  refine ⟨?_, hm.key.symm ▸ hstatus, hm.uid.symm ▸ hnamed⟩
  rw [hm.key, hm.uid, hm.boundary_spec]
  exact h.origin

theorem Sourced.hands (h : Sourced r V m) {α : Type} (a : α) : Hands r V m (m, a) := ⟨.refl m, h⟩

theorem Hands.trans {α β : Type} {x : Binding × α} {y : Binding × β} (h : Hands r V m x)
    (h' : Hands r V x.1 y) : Hands r V m y := ⟨h.1.trans h'.1, h'.2⟩

/-- Only the key and the spec of a binding matter for what it is rendered to. -/
theorem RenderedFrom.congr (h : RenderedFrom r V m plan) (hkey : m'.key = m.key)
    (hspec : m'.spec = m.spec) : RenderedFrom r V m' plan := by
  obtain ⟨pool, hpool, hrefers, hplan⟩ := h
  refine ⟨pool, hpool, ?_, ?_⟩
  · rw [Reconciler.Refers, hkey, hspec]
    exact hrefers
  · have hinput : r.planInput m' = r.planInput m := by
      funext target
      rw [Reconciler.planInput, Reconciler.planInput, hkey, hspec]
    rw [Reconciler.renderIdentity, hinput]
    exact hplan

theorem Continues.rendered (h : Continues m m') (hplan : RenderedFrom r V m plan) :
    RenderedFrom r V m' plan :=
  hplan.congr h.key h.boundary_spec

/-- A plan that is rendered for a copy was rendered for the binding. -/
theorem Sourced.rendered (h : Sourced r V m) (hplan : RenderedFrom r V m plan) :
    ∃ b, V.binding b ∧ b.key = m.key ∧ b.uid = m.uid ∧ RenderedFrom r V b plan := by
  obtain ⟨b, hb, hkey, huid, hspec⟩ := h.origin
  exact ⟨b, hb, hkey, huid, hplan.congr hkey hspec⟩

theorem Sourced.grounded (h : Sourced r V m) (hplan : RenderedFrom r V m plan) :
    Grounded r V m.key plan := by
  obtain ⟨b, hb, hkey, -, hrendered⟩ := h.rendered hplan
  exact ⟨b, hb, hkey, hrendered⟩

/-- The name that is rendered for a copy is one of the binding's. -/
theorem Sourced.desiredName_named (h : Sourced r V m) (hplan : RenderedFrom r V m plan) :
    Named r V m.uid (desiredName r.platform m.key plan) := by
  obtain ⟨b, hb, hkey, huid, hrendered⟩ := h.rendered hplan
  exact ⟨b, plan, hb, huid, hrendered, by rw [hkey]⟩

theorem Sourced.prepareStatus (h : Sourced r V m) : Sourced r V (r.prepareStatus m) :=
  h.next rfl h.vouched.status.prepareStatus fun name hname =>
    h.vouched.named name ((Binding.records_congr (record_prepareStatus m)).mp hname)

/-! ## The record -/

theorem follows_patchOwnershipStatus (h : Sourced r V m) {status : Status}
    (hstatus : Handover m.status status)
    (hnamed : ∀ name, Binding.Records { m with status := status } name → Named r V m.uid name) :
    Follows r V (fun x => Hands r V m x ∧ (x.2 = .ok () → x.1.status = status))
      (patchOwnershipStatus m status) := by
  refine (Within.perform (c := Call.patchBindingStatus .ownership m status)
    ⟨hstatus, hnamed⟩).bind ?_
  rintro (err | target) -
  · exact ⟨h.hands _, by rintro ⟨⟩⟩
  · exact ⟨⟨rfl, h.next rfl (hstatus.vouched h.vouched.status) hnamed⟩, fun _ => rfl⟩

theorem follows_confirm (P : Platform) (h : Sourced r V m) {name : GoString} (uid : GoString)
    (hname : Named r V m.uid name) :
    Follows r V (Hands r V m) (confirmClusterSPIFFEIDOwnership P m name uid) := by
  rw [confirmClusterSPIFFEIDOwnership]
  split_ifs
  · exact h.hands _
  · have hconfirm : Handover m.status (confirmedStatus m name uid) := ⟨rfl, Or.inl rfl⟩
    refine (follows_patchOwnershipStatus h hconfirm ?_).mono (fun _ hc => hc) fun _ hx => hx.1
    rintro _ (⟨_, ⟨⟩, -⟩ | ⟨_, ⟨⟩, rfl⟩)
    exact hname

/-- After a clear nothing is recorded. -/
theorem follows_clear_none (h : Sourced r V m) :
    Follows r V (fun x => Hands r V m x ∧ (x.2 = .ok () →
      recordedClusterSPIFFEIDName x.1.status = [])) (clearClusterSPIFFEIDOwnership m) := by
  rw [clearClusterSPIFFEIDOwnership]
  split_ifs with hnone
  · exact ⟨h.hands _, fun _ => by rw [recordedClusterSPIFFEIDName, hnone.1, hnone.2]⟩
  · have hclear : Handover m.status (clearedStatus m) := ⟨rfl, Or.inl rfl⟩
    refine (follows_patchOwnershipStatus h hclear ?_).mono (fun _ hc => hc)
      fun x hx => ⟨hx.1, fun hok => by rw [hx.2 hok]; rfl⟩
    rintro _ (⟨_, ⟨⟩, -⟩ | ⟨_, ⟨⟩, -⟩)

theorem follows_clear (h : Sourced r V m) :
    Follows r V (Hands r V m) (clearClusterSPIFFEIDOwnership m) :=
  (follows_clear_none h).mono (fun _ hc => hc) fun _ hx => hx.1

/-- An object that matches the record is of the past, and has the recorded name. -/
def Matches (V : Past) (m : Binding) : ManagedOutputObservation → Prop
  | .pendingOutputMatched o => V.object o ∧ m.Records o.name ∧ o.name ≠ [] ∧
    o.name = recordedClusterSPIFFEIDName m.status
  | .confirmedOutputMatched o => V.object o ∧ m.Records o.name ∧ o.name ≠ [] ∧
    o.name = recordedClusterSPIFFEIDName m.status
  | _ => True

theorem matches_classify {record : ManagedOutputRecord} {o : ClusterSPIFFEID} {name : GoString}
    (hrecord : managedOutputRecordFromStatus m.status = .ok record) (ho : V.object o)
    (hname : lookupName record name ≠ []) :
    Matches V m (classifyManagedClusterSPIFFEID record (some o)) := by
  rw [managedOutputRecordFromStatus] at hrecord
  split at hrecord
  · cases hrecord
  · rename_i pending hpending howned
    split_ifs at hrecord
    cases hrecord
    rw [classifyManagedClusterSPIFFEID]
    split_ifs with hmatch
    · have hrecorded : o.name = recordedClusterSPIFFEIDName m.status := by
        rw [hmatch.1, recordedClusterSPIFFEIDName, howned, hpending]
      exact ⟨ho, Or.inl ⟨pending, hpending, hmatch.1.symm⟩, hmatch.1 ▸ hname, hrecorded⟩
    · trivial
  · rename_i owned hpending howned
    split_ifs at hrecord
    cases hrecord
    rw [classifyManagedClusterSPIFFEID]
    split_ifs with hmatch
    · have hrecorded : o.name = recordedClusterSPIFFEIDName m.status := by
        rw [hmatch.1, recordedClusterSPIFFEIDName, howned]
      exact ⟨ho, Or.inr ⟨owned, howned, hmatch.1.symm⟩, hmatch.1 ▸ hname, hrecorded⟩
    · trivial
  · cases hrecord
    trivial

theorem follows_observe (m : Binding) (name : GoString) :
    Follows r V (fun x => ∀ obs, x = .ok obs → Matches V m obs)
      (observeManagedClusterSPIFFEID m name) := by
  have habsent : ∀ record, Matches V m (classifyManagedClusterSPIFFEID record none) := by
    rintro (_ | _ | _) <;> trivial
  rw [observeManagedClusterSPIFFEID]
  split
  · rintro _ ⟨⟩
  · rename_i record hrecord
    split_ifs with hblank
    · rintro _ ⟨⟩
      exact habsent record
    · refine (Within.perform (c := Call.getClusterSPIFFEID _) trivial).bind ?_
      rintro (err | object) hobject
      · dsimp only
        split_ifs
        · rintro _ ⟨⟩
          exact habsent record
        · rintro _ ⟨⟩
      · rintro _ ⟨⟩
        exact matches_classify hrecord (hobject object rfl) hblank

theorem follows_listManaged (P : Platform) (h : Sourced r V m) :
    Follows r V (Hands r V m) (listManagedClusterSPIFFEIDs P m) := by
  refine (follows_observe m []).bind ?_
  rintro (err | obs) hobs
  · exact h.hands _
  · cases obs with
    | pendingOutputMatched object =>
      obtain ⟨-, hrecords, -⟩ := hobs _ rfl
      refine (follows_confirm P h object.uid (h.vouched.named _ hrecords)).bind ?_
      rintro ⟨m', err | ⟨⟩⟩ hm' <;> exact hm'
    | confirmedOutputMatched object => exact h.hands _
    | unclaimedOutputAbsent => exact h.hands _
    | unclaimedOutputForeign object => exact h.hands _
    | _ =>
      refine (follows_clear h).bind ?_
      rintro ⟨m', err | ⟨⟩⟩ hm' <;> exact hm'

theorem follows_deleteManagedObjects (owner : GoString) (objects : List ClusterSPIFFEID) :
    Follows r V (fun _ => True) (deleteManagedObjects owner objects) :=
  .of_always (always_deleteManagedObjects (fun _ _ => trivial) objects)

theorem follows_cleanupManaged (P : Platform) (h : Sourced r V m) :
    Follows r V (Hands r V m) (cleanupManagedClusterSPIFFEIDs P m) := by
  refine (follows_listManaged P h).bind ?_
  rintro ⟨m', err | objects⟩ hm'
  · exact hm'
  · exact (follows_deleteManagedObjects _ objects).bind fun _ _ => hm'

/-- The record names nothing, or the object under this name. -/
def Aligned (m : Binding) (name : GoString) : Prop :=
  recordedClusterSPIFFEIDName m.status = [] ∨ recordedClusterSPIFFEIDName m.status = name

theorem follows_cleanupChanged (P : Platform) (h : Sourced r V m) (name : GoString) :
    Follows r V (fun x => Hands r V m x ∧ (x.2 = .ok false → Aligned x.1 name))
      (cleanupChangedClusterSPIFFEIDName P m name) := by
  rw [cleanupChangedClusterSPIFFEIDName]
  split_ifs with haligned
  · exact ⟨h.hands _, fun _ => haligned⟩
  refine (follows_cleanupManaged P h).bind ?_
  rintro ⟨m₁, err | ⟨⟩⟩ hm₁
  · exact ⟨hm₁, by rintro ⟨⟩⟩
  refine (follows_listManaged P hm₁.2).bind ?_
  rintro ⟨m₂, err | _ | ⟨o, objects⟩⟩ hm₂
  · exact ⟨hm₁.trans hm₂, by rintro ⟨⟩⟩
  · dsimp only
    split_ifs with hrecorded
    · refine (follows_clear_none hm₂.2).bind ?_
      rintro ⟨m₃, err | ⟨⟩⟩ ⟨hm₃, hnone⟩
      · exact ⟨hm₁.trans (hm₂.trans hm₃), by rintro ⟨⟩⟩
      · exact ⟨hm₁.trans (hm₂.trans hm₃), fun _ => Or.inl (hnone rfl)⟩
    · exact ⟨hm₁.trans hm₂, fun _ => Or.inl (not_not.mp hrecorded)⟩
  · exact ⟨hm₁.trans hm₂, by rintro ⟨⟩⟩

/-! ## The output -/

/-- An output that says what was rendered. -/
def Reflects (r : Reconciler) (key : NamespacedName) (plan : Plan)
    (output : RenderedClusterSPIFFEIDStatus) : Prop :=
  output.name = desiredName r.platform key plan ∧ output.spiffeID = plan.spiffeID ∧
    output.selectorFingerprint = selectorFingerprint r.platform plan.selectors

/-- What comes back with an output says what was rendered. -/
def HandsOutput (r : Reconciler) (V : Past) (m : Binding) (plan : Plan)
    (x : Binding × Except GoError RenderedClusterSPIFFEIDStatus) : Prop :=
  Hands r V m x ∧ ∀ output, x.2 = .ok output → Reflects r m.key plan output

theorem follows_reserve (P : Platform) (h : Sourced r V m) {name : GoString}
    (hname : Named r V m.uid name) :
    Follows r V (Hands r V m) (reserveClusterSPIFFEIDClaim P m name) := by
  rw [reserveClusterSPIFFEIDClaim]
  split
  · exact h.hands _
  · refine (Within.perform (c := Call.newUUID m.uid) trivial).bind fun claim _ => ?_
    have hreserve : Handover m.status (reservedStatus m name claim) := ⟨rfl, Or.inr rfl⟩
    refine (follows_patchOwnershipStatus h hreserve ?_).bind ?_
    · rintro _ (⟨_, ⟨⟩, rfl⟩ | ⟨_, ⟨⟩, -⟩)
      exact hname
    · rintro ⟨m', err | ⟨⟩⟩ ⟨hm', -⟩ <;> exact hm'
  · exact h.hands _

theorem follows_submit (h : Sourced r V m) (hplan : RenderedFrom r V m plan) (claim : GoString) :
    Follows r V (HandsOutput r V m plan) (submitManagedClusterSPIFFEID r.platform m plan
      (desiredClusterSPIFFEID r.platform m.key plan r.config.clusterSPIFFEIDClassName) claim) := by
  obtain ⟨b, hb, hkey, huid, hrendered⟩ := h.rendered hplan
  refine (Within.perform (c := Call.createClusterSPIFFEID m.uid _)
    ⟨b, plan, claim, hb, huid, hrendered, by rw [hkey]⟩).bind ?_
  rintro (err | object) hobject
  · dsimp only
    split_ifs <;> exact ⟨h.hands _, by rintro _ ⟨⟩⟩
  · have hname : object.name = desiredName r.platform m.key plan := hobject object rfl
    dsimp only
    split_ifs
    · exact ⟨h.hands _, by rintro _ ⟨⟩⟩
    · refine (follows_confirm r.platform h object.uid
        (hname ▸ h.desiredName_named hplan)).bind ?_
      rintro ⟨m', err | ⟨⟩⟩ hm'
      · exact ⟨hm', by rintro _ ⟨⟩⟩
      · exact ⟨hm', fun _ houtput => Except.ok.inj houtput ▸ ⟨hname, rfl, rfl⟩⟩

theorem follows_authorize (P : Platform) (h : Sourced r V m) (desired : ClusterSPIFFEID)
    {obs : ManagedOutputObservation} (hobs : Matches V m obs) :
    Follows r V (fun x => Hands r V m x ∧ ∀ current, x.2 = .ok (some current) →
        V.object current ∧ current.name ≠ [] ∧ current.name = recordedClusterSPIFFEIDName m.status)
      (authorizeManagedOutputApply P m desired obs) := by
  cases obs with
  | unclaimedOutputAbsent => exact ⟨h.hands _, by rintro _ ⟨⟩⟩
  | unclaimedOutputForeign o => exact ⟨h.hands _, by rintro _ ⟨⟩⟩
  | pendingOutputAbsent claim => exact ⟨h.hands _, by rintro _ ⟨⟩⟩
  | confirmedOutputMatched o =>
    obtain ⟨ho, -, hname⟩ := hobs
    refine ⟨h.hands _, ?_⟩
    rintro _ ⟨⟩
    exact ⟨ho, hname⟩
  | pendingOutputMatched o =>
    obtain ⟨ho, hrecords, hname⟩ := hobs
    refine (follows_confirm P h o.uid (h.vouched.named _ hrecords)).bind ?_
    rintro ⟨m', err | ⟨⟩⟩ hm'
    · exact ⟨hm', by rintro _ ⟨⟩⟩
    · refine ⟨hm', ?_⟩
      rintro _ ⟨⟩
      exact ⟨ho, hname⟩
  | _ =>
    refine (follows_clear h).bind ?_
    rintro ⟨m', err | ⟨⟩⟩ hm' <;> exact ⟨hm', by rintro _ ⟨⟩⟩

theorem follows_update (h : Sourced r V m) (hplan : RenderedFrom r V m plan)
    {current : ClusterSPIFFEID} (hcurrent : V.object current)
    (hname : current.name = desiredName r.platform m.key plan) :
    Follows r V (fun x => ∀ output, x = .ok output → Reflects r m.key plan output)
      (updateManagedClusterSPIFFEID r.platform m.uid plan current
        (desiredClusterSPIFFEID r.platform m.key plan r.config.clusterSPIFFEIDClassName)) := by
  obtain ⟨b, hb, hkey, huid, hrendered⟩ := h.rendered hplan
  rw [updateManagedClusterSPIFFEID]
  split_ifs
  · exact fun _ houtput => Except.ok.inj houtput ▸ ⟨hname, rfl, rfl⟩
  · refine (Within.perform (c := Call.updateClusterSPIFFEID m.uid _)
      ⟨b, plan, current, hb, huid, hrendered, hcurrent, by rw [hkey, hname], by rw [hkey]⟩).bind ?_
    rintro (err | updated) hupdated
    · rintro _ ⟨⟩
    · exact fun _ houtput => Except.ok.inj houtput ▸
        ⟨(hupdated updated rfl).trans hname, rfl, rfl⟩

theorem follows_reconcileClusterSPIFFEID (h : Sourced r V m) (hplan : RenderedFrom r V m plan)
    (haligned : Aligned m (desiredName r.platform m.key plan)) :
    Follows r V (HandsOutput r V m plan) (reconcileClusterSPIFFEID r.platform m plan
      (desiredClusterSPIFFEID r.platform m.key plan r.config.clusterSPIFFEIDClassName)) := by
  refine (follows_observe m _).bind ?_
  rintro (err | obs) hobs
  · exact ⟨h.hands _, by rintro _ ⟨⟩⟩
  refine (follows_authorize r.platform h _ (hobs obs rfl)).bind ?_
  rintro ⟨m₁, err | _ | current⟩ ⟨hm₁, hcurrent⟩
  · exact ⟨hm₁, by rintro _ ⟨⟩⟩
  · have hplan₁ : RenderedFrom r V m₁ plan := hm₁.1.rendered hplan
    have hsubmit : ∀ {m₂} claim, Hands r V m₁ (m₂, claim) → Follows r V (HandsOutput r V m plan)
        (submitManagedClusterSPIFFEID r.platform m₂ plan
          (desiredClusterSPIFFEID r.platform m.key plan r.config.clusterSPIFFEIDClassName) claim) := by
      intro m₂ claim hm₂
      have hkey : m₂.key = m.key := hm₂.1.key.trans hm₁.1.key
      rw [← hkey]
      refine (follows_submit hm₂.2 (hm₂.1.rendered hplan₁) claim).mono (fun _ hc => hc)
        fun x hx => ⟨hm₁.trans (hm₂.trans hx.1), hkey ▸ hx.2⟩
    cases obs with
    | pendingOutputAbsent claim => exact hsubmit claim (hm₁.2.hands claim)
    | _ =>
      have hname := hm₁.2.desiredName_named hplan₁
      rw [show m₁.key = m.key from hm₁.1.key] at hname
      refine (follows_reserve r.platform hm₁.2 hname).bind ?_
      rintro ⟨m₂, err | claim⟩ hm₂
      · exact ⟨hm₁.trans hm₂, by rintro _ ⟨⟩⟩
      · exact hsubmit claim hm₂
  · obtain ⟨hobject, hne, hrecorded⟩ := hcurrent current rfl
    have hname : current.name = desiredName r.platform m.key plan :=
      haligned.elim (fun hnone => absurd (hrecorded.trans hnone) hne) hrecorded.trans
    have hkey : m₁.key = m.key := hm₁.1.key
    dsimp only
    rw [← hkey] at hname ⊢
    exact (follows_update hm₁.2 (hm₁.1.rendered hplan) hobject hname).bind fun result hresult =>
      ⟨hm₁, hkey ▸ hresult⟩

/-! ## Status -/

theorem follows_patchStatusOnce (m : Binding) {desired : Status}
    (hdesired : desired.Vouched r V m.key) :
    Follows r V (fun _ => True) (patchStatusOnce m desired) := by
  refine (Within.perform (c := Call.getBinding m.key) trivial).bind ?_
  rintro (err | latest) hlatest
  · trivial
  obtain ⟨hkey, -⟩ := hlatest latest rfl
  dsimp only
  split_ifs
  · trivial
  · have hpatch : Warranted r V (.patchBindingStatus .ordinary latest { desired with
        pendingClusterSPIFFEID := latest.status.pendingClusterSPIFFEID
        ownedClusterSPIFFEID := latest.status.ownedClusterSPIFFEID }) := by
      rw [Warranted, hkey]
      exact hdesired.congr rfl rfl
    refine (Within.perform hpatch).bind ?_
    rintro (err | updated) - <;> trivial

theorem follows_patchStatus (h : m.status.Vouched r V m.key) :
    Follows r V (fun _ => True) (patchStatus m) := by
  suffices hretry : ∀ (n : ℕ) {desired : Status}, desired.Vouched r V m.key →
      Follows r V (fun _ => True) (patchStatusRetrying m desired n) from hretry 4 h
  intro n
  induction n with
  | zero => exact fun hdesired => follows_patchStatusOnce m hdesired
  | succ n ih =>
    intro desired hdesired
    refine (follows_patchStatusOnce m hdesired).bind ?_
    rintro ⟨m', err | ⟨⟩⟩ -
    · dsimp only
      split_ifs
      · exact ih hdesired
      · trivial
    · trivial

theorem follows_publishOutcome (h : m.status.Vouched r V m.key) :
    Follows r V (fun _ => True) (publishOutcome m) := by
  refine (follows_patchStatus h).bind ?_
  rintro ⟨m', err | ⟨⟩⟩ -
  · trivial
  · exact ⟨trivial, fun _ _ => trivial⟩

theorem follows_reportApplyFailure {α : Type} (h : m.status.Vouched r V m.key) (err : GoError) :
    Follows r V (fun _ => True) (reportApplyFailure m err : Op (Except GoError α)) := by
  have hfailure := h.applyFailureStatus m.generation (newManagedOutputApplyFailedStateError err)
  refine (follows_publishOutcome (m := { m with status := _ }) hfailure).bind ?_
  rintro (statusErr | ⟨⟩) -
  · trivial
  · exact ⟨trivial, fun _ _ => trivial⟩

theorem follows_settleStateError (h : Sourced r V m) (stateErr : StateError) :
    Follows r V (fun _ => True) (r.settleStateError m stateErr) := by
  have hcleanup : Follows r V (Hands r V m) (cleanupAfterStateError r.platform m) := by
    refine (follows_cleanupManaged r.platform h).bind ?_
    rintro ⟨m₁, err | ⟨⟩⟩ hm₁
    · exact hm₁
    refine (follows_listManaged r.platform hm₁.2).bind ?_
    rintro ⟨m₂, err | _ | ⟨o, objects⟩⟩ hm₂
    · exact hm₁.trans hm₂
    · exact (follows_clear hm₂.2).mono (fun _ hc => hc) fun _ hm₃ => hm₁.trans (hm₂.trans hm₃)
    · exact hm₁.trans hm₂
  have happly : Follows r V (fun x => x.1.status.Vouched r V x.1.key)
      (applyStateError r.platform m stateErr) := by
    rw [applyStateError]
    split_ifs
    · refine hcleanup.bind ?_
      rintro ⟨m₁, err | ⟨⟩⟩ hm₁
      · exact hm₁.2.vouched.status
      · exact hm₁.2.vouched.status.applyFailureStatus _ _
    · exact h.vouched.status.applyFailureStatus _ _
  refine happly.bind ?_
  rintro ⟨m₁, err | ⟨⟩⟩ hm₁
  · exact follows_reportApplyFailure hm₁ err
  refine (follows_publishOutcome hm₁).bind ?_
  rintro (err | ⟨⟩) -
  · trivial
  · refine (Within.perform (c := Call.recordEvent _ _ _) trivial).bind fun _ _ => ?_
    split_ifs <;> trivial

theorem follows_applyOutput (h : Sourced r V m) (hplan : RenderedFrom r V m plan)
    (haligned : Aligned m (desiredName r.platform m.key plan)) :
    Follows r V (fun _ => True) (r.applyOutput m plan) := by
  have houtput : Follows r V (fun x => Hands r V m x ∧ ∀ outputs, x.2 = .ok outputs →
        ∀ output ∈ outputs, Reflects r m.key plan output)
      (reconcileClusterSPIFFEIDs r.platform r.config.clusterSPIFFEIDClassName [plan] m) := by
    refine (follows_reconcileClusterSPIFFEID h hplan haligned).bind ?_
    rintro ⟨m₁, err | status⟩ ⟨hm₁, hstatus⟩
    · exact ⟨hm₁, by rintro _ ⟨⟩⟩
    · refine ⟨hm₁, fun outputs heq => ?_⟩
      rw [← Except.ok.inj heq]
      exact List.forall_mem_singleton.mpr (hstatus status rfl)
  refine houtput.bind ?_
  rintro ⟨m₁, err | outputs⟩ ⟨hm₁, houtputs⟩
  · dsimp only
    split_ifs
    · exact follows_settleStateError hm₁.2 _
    · exact follows_reportApplyFailure hm₁.2.vouched.status err
  · have hkey : m₁.key = m.key := hm₁.1.key
    have hsuccess := hm₁.2.vouched.status.applySuccessStatus m₁.generation
      (hm₁.2.grounded (hm₁.1.rendered hplan)) (hkey ▸ houtputs outputs rfl)
    refine (follows_publishOutcome (m := { m₁ with status := _ }) hsuccess).bind ?_
    rintro (err | ⟨⟩) -
    · trivial
    · exact ⟨trivial, fun _ _ => trivial⟩

/-! ## Rendering -/

theorem follows_resolveByCandidates (key : NamespacedName) (gvks : List GroupVersionKind)
    (crdMissing : Bool) :
    Follows r V (fun x => ∀ pool missing, x = .ok (some pool, missing) →
        V.pool pool ∧ pool.key.1 ∈ gvks ∧ pool.key.2 = key)
      (resolveByCandidates key gvks crdMissing) := by
  induction gvks generalizing crdMissing with
  | nil => rintro pool missing ⟨⟩
  | cons gvk gvks ih =>
    have hrest : ∀ missing, Follows r V (fun x => ∀ pool missing, x = .ok (some pool, missing) →
        V.pool pool ∧ pool.key.1 ∈ gvk :: gvks ∧ pool.key.2 = key)
        (resolveByCandidates key gvks missing) := fun missing =>
      (ih missing).mono (fun _ hc => hc) fun x hx pool missing' heq =>
        (hx pool missing' heq).imp id fun hkey => ⟨List.mem_cons_of_mem gvk hkey.1, hkey.2⟩
    refine (Within.perform (c := Call.getPool gvk key) trivial).bind ?_
    rintro (err | pool) hpool
    · dsimp only
      split_ifs
      · exact hrest _
      · exact hrest _
      · rintro pool missing ⟨⟩
    · rintro _ missing ⟨⟩
      obtain ⟨hkey, hpast⟩ := hpool pool rfl
      rw [hkey]
      exact ⟨hpast, List.mem_cons_self, rfl⟩

theorem follows_renderFromPool {ref : PoolRef}
    (href : bindingPoolRef r.platform m.key.namespace_ m.spec.poolRef = .ok ref) :
    Follows r V (fun x => ∀ plan, x = .ok plan → RenderedFrom r V m plan)
      (r.renderFromPool m ref) := by
  have hresolve : Follows r V (fun x => ∀ pool, x = .ok pool → V.pool pool ∧ r.Refers m pool)
      (r.resolveInferencePool ref) := by
    refine (follows_resolveByCandidates _ _ _).bind ?_
    rintro (err | ⟨_ | pool, missing⟩) hpool
    · rintro pool ⟨⟩
    · cases missing <;> rintro pool ⟨⟩
    · obtain ⟨hpast, hgvk, hkey⟩ := hpool pool missing rfl
      obtain ⟨hnamespace, hname⟩ := NamespacedName.mk.inj hkey
      cases missing
      all_goals
        rintro _ ⟨⟩
        exact ⟨hpast, ref, href, hgvk, hnamespace, hname⟩
  refine hresolve.bind ?_
  rintro (err | pool) hpool
  · rintro plan ⟨⟩
  · obtain ⟨hpast, hrefers⟩ := hpool pool rfl
    dsimp only
    split
    · rintro plan ⟨⟩
    · rename_i plan hrender
      exact fun _ heq => Except.ok.inj heq ▸ ⟨pool, hpast, hrefers, hrender⟩

theorem follows_renderIdentityForBinding (m : Binding) :
    Follows r V (fun x => ∀ plan, x = .ok plan → RenderedFrom r V m plan)
      (r.renderIdentityForBinding m) := by
  rw [Reconciler.renderIdentityForBinding]
  split
  · rintro plan ⟨⟩
  · exact follows_renderFromPool ‹_›

theorem follows_renderDesired (m : Binding) :
    Follows r V (fun x => ∀ plan, x = .ok plan → RenderedFrom r V m plan) (r.renderDesired m) := by
  rw [Reconciler.renderDesired]
  split
  · rintro plan ⟨⟩
  · rw [Reconciler.computeDesiredState]
    split
    · rintro plan ⟨⟩
    · exact follows_renderFromPool ‹_›

/-! ## Conflicts -/

/-- What comes back about a peer: a copy of it, and a plan that is grounded. -/
def HandsVerdict (r : Reconciler) (V : Past) (m : Binding)
    (x : Binding × Except GoError PeerVerdict) : Prop :=
  Hands r V m x ∧ ∀ plan, x.2 = .ok (.relevant plan) → Grounded r V m.key plan

theorem follows_renderPeer {q : Binding} (hm : Sourced r V m) (hplan : RenderedFrom r V m plan)
    (hq : Sourced r V q) : Follows r V (HandsVerdict r V q) (r.renderPeer m plan q) := by
  rw [Reconciler.renderPeer]
  split_ifs with hsame
  · refine ⟨hq.hands _, fun plan' heq => ?_⟩
    cases heq
    exact hsame.symm ▸ hm.grounded hplan
  · refine (follows_renderIdentityForBinding q).bind ?_
    rintro (err | plan') hrendered
    · dsimp only
      split
      · exact ⟨hq.hands _, by rintro _ ⟨⟩⟩
      · refine (follows_listManaged r.platform hq).bind ?_
        rintro ⟨q', err | _ | _⟩ hq' <;> exact ⟨hq', by rintro _ ⟨⟩⟩
    · refine ⟨hq.hands _, fun plan'' heq => ?_⟩
      cases heq
      exact hq.grounded (hrendered plan' rfl)

theorem follows_identityForConflictEvaluation {q : Binding} (hm : Sourced r V m)
    (hplan : RenderedFrom r V m plan) (hq : Sourced r V q) :
    Follows r V (HandsVerdict r V q) (r.identityForConflictEvaluation m plan q) := by
  rw [Reconciler.identityForConflictEvaluation]
  split_ifs
  · refine (follows_listManaged r.platform hq).bind ?_
    rintro ⟨q', err | _ | _⟩ hq'
    · exact ⟨hq', by rintro _ ⟨⟩⟩
    · exact ⟨hq', by rintro _ ⟨⟩⟩
    · refine (follows_renderPeer hm hplan hq'.2).mono (fun _ hc => hc) fun x hx => ?_
      exact ⟨hq'.trans hx.1, hq'.1.key ▸ hx.2⟩
  · exact follows_renderPeer hm hplan hq

/-- Everything a scan has collected is accounted for. -/
structure PeerScan.Sourced (r : Reconciler) (V : Past) (namespace_ : GoString)
    (scan : PeerScan) : Prop where
  records : ∀ record ∈ scan.records, record.bindingRef.namespace_ = namespace_ ∧
    record.Grounded r V record.bindingRef
  referenced : ∀ q ∈ scan.bindingsByRef, Kleym.Sourced r V q
  blocked : ∀ q ∈ scan.blockedMembers, Kleym.Sourced r V q

theorem follows_scanPeer {q : Binding} {namespace_ : GoString} {scan : PeerScan}
    (hm : Sourced r V m) (hplan : RenderedFrom r V m plan) (hq : Sourced r V q)
    (hnamespace : q.key.namespace_ = namespace_) (hscan : scan.Sourced r V namespace_) :
    Follows r V (fun x => ∀ scan', x = .ok scan' → scan'.Sourced r V namespace_)
      (r.scanPeer m plan scan q) := by
  refine (follows_identityForConflictEvaluation hm hplan hq).bind ?_
  rintro ⟨q', err | _ | p | _⟩ ⟨hq', hverdict⟩
  · rintro scan' ⟨⟩
  · rintro scan' ⟨⟩
    exact hscan
  · rintro scan' ⟨⟩
    refine ⟨List.forall_mem_append.mpr ⟨hscan.records, List.forall_mem_singleton.mpr ?_⟩,
      List.forall_mem_cons.mpr ⟨hq'.2, hscan.referenced⟩, hscan.blocked⟩
    have hkey : q'.key = q.key := hq'.1.key
    obtain ⟨b, hb, hbkey, -, hspec⟩ := hq'.2.origin
    refine ⟨(congrArg NamespacedName.namespace_ hkey).trans hnamespace, b, p, hb, hbkey, ?_, ?_⟩
    · rw [variantRecord, hkey]
      exact hverdict p rfl
    · rw [variantRecord, variantRecord, hbkey, hspec]
  · rintro scan' ⟨⟩
    exact ⟨hscan.records, hscan.referenced,
      List.forall_mem_append.mpr ⟨hscan.blocked, List.forall_mem_singleton.mpr hq'.2⟩⟩

/-- A conflict is the report of one record on another that it clashes with. -/
theorem report_of_conflict {records : List VariantRecord} {c : VariantConflict}
    (hc : c ∈ evaluateVariantConflicts records) :
    ∃ x ∈ records, ∃ y ∈ records, x.Clash y ∧ c = x.report y := by
  obtain ⟨x, y, hpair, hc⟩ := mem_evaluateVariantConflicts.mp hc
  have hx : x ∈ records := hpair.subset List.mem_cons_self
  have hy : y ∈ records := hpair.subset (List.mem_cons_of_mem _ List.mem_cons_self)
  rw [pairConflicts_eq] at hc
  split_ifs at hc with hclash
  · rcases List.mem_pair.mp hc with rfl | rfl
    · exact ⟨x, hx, y, hy, hclash, rfl⟩
    · exact ⟨y, hy, x, hx, VariantRecord.clash_comm.mp hclash, rfl⟩
  · cases hc

/-- Members whose copies are accounted for. -/
def MembersSourced (r : Reconciler) (V : Past) (members : List ConflictMember) : Prop :=
  ∀ q, .copy q ∈ members → Sourced r V q

theorem MembersSourced.tail {y : ConflictMember} {members : List ConflictMember}
    (h : MembersSourced r V (y :: members)) : MembersSourced r V members :=
  fun q hq => h q (List.mem_cons_of_mem y hq)

/-- A conflict state whose reports and members are accounted for. -/
structure BindingConflictState.Sourced (r : Reconciler) (V : Past) (m : Binding)
    (state : BindingConflictState) : Prop where
  conflicts : ∀ c ∈ state.conflicts, ∃ x y : VariantRecord, x.Grounded r V m.key ∧
    y.Grounded r V ⟨m.key.namespace_, c.peerBindingRef.name⟩ ∧ x.Clash y ∧ c = x.report y
  members : MembersSourced r V state.members

theorem PeerScan.Sourced.conflictStateOf {scan : PeerScan}
    (h : scan.Sourced r V m.key.namespace_) :
    (Reconciler.conflictStateOf m scan).Sourced r V m := by
  refine ⟨fun c hc => ?_, fun q hq => ?_⟩
  · rw [conflicts_conflictStateOf] at hc
    obtain ⟨hmem, hown⟩ := List.mem_filter.mp hc
    obtain ⟨x, hx, y, hy, hclash, rfl⟩ := report_of_conflict hmem
    have hkey : x.bindingRef = m.key := of_decide_eq_true hown
    obtain ⟨hnamespace, hgrounded⟩ := h.records y hy
    refine ⟨x, y, hkey ▸ (h.records x hx).2, ?_, hclash, rfl⟩
    rw [← hnamespace]
    exact hgrounded
  · rcases mem_conflictStateOf hq with heq | ⟨q', heq, hq'⟩
    · cases heq
    · cases heq
      exact hq'.elim (h.referenced q) (h.blocked q)

theorem follows_evaluate (hV : ∀ b, V.binding b → b.Vouched r V) (hm : Sourced r V m)
    (hplan : RenderedFrom r V m plan) :
    Follows r V (fun x => ∀ state, x = .ok state → state.Sourced r V m)
      (r.evaluateBindingConflicts m plan) := by
  refine (Within.perform (c := Call.listBindings m.key m.key.namespace_) trivial).bind ?_
  rintro (err | items) hitems
  · rintro state ⟨⟩
  have hempty : PeerScan.Sourced r V m.key.namespace_ ⟨[], [], []⟩ :=
    ⟨List.forall_mem_nil _, List.forall_mem_nil _, List.forall_mem_nil _⟩
  refine (Within.foldM hempty fun q hq scan hscan => ?_).bind ?_
  · obtain ⟨hnamespace, hlisted⟩ := hitems items rfl q hq
    exact follows_scanPeer hm hplan ⟨⟨q, hlisted, rfl, rfl, rfl⟩, hV q hlisted⟩ hnamespace hscan
  · rintro (err | scan) hscan
    · rintro state ⟨⟩
    · rintro state ⟨⟩
      exact (hscan scan rfl).conflictStateOf

theorem follows_cleanupMembers (P : Platform) {members : List ConflictMember}
    (hm : Sourced r V m) (hmembers : MembersSourced r V members) :
    Follows r V (fun x => Hands r V m x ∧ ∀ members', x.2 = .ok members' →
        MembersSourced r V members') (cleanupMembers P members m) := by
  induction members generalizing m with
  | nil => exact ⟨hm.hands _, fun _ h => Except.ok.inj h ▸ hmembers⟩
  | cons y rest ih =>
    cases y with
    | current =>
      refine (follows_cleanupManaged P hm).bind ?_
      rintro ⟨m₁, err | ⟨⟩⟩ hm₁
      · exact ⟨hm₁, by rintro _ ⟨⟩⟩
      refine (ih hm₁.2 hmembers.tail).bind ?_
      rintro ⟨m₂, err | members'⟩ ⟨hm₂, hrest⟩
      · exact ⟨hm₁.trans hm₂, by rintro _ ⟨⟩⟩
      · refine ⟨hm₁.trans hm₂, fun _ h => Except.ok.inj h ▸ fun q hq => ?_⟩
        rcases List.mem_cons.mp hq with hq | hq
        · cases hq
        · exact hrest members' rfl q hq
    | copy peer =>
      refine (follows_cleanupManaged P (hmembers peer List.mem_cons_self)).bind ?_
      rintro ⟨peer₁, err | ⟨⟩⟩ hpeer₁
      · exact ⟨hm.hands _, by rintro _ ⟨⟩⟩
      refine (ih hm hmembers.tail).bind ?_
      rintro ⟨m₂, err | members'⟩ ⟨hm₂, hrest⟩
      · exact ⟨hm₂, by rintro _ ⟨⟩⟩
      · refine ⟨hm₂, fun _ h => Except.ok.inj h ▸ fun q hq => ?_⟩
        rcases List.mem_cons.mp hq with hq | hq
        · cases hq
          exact hpeer₁.2
        · exact hrest members' rfl q hq

theorem follows_confirmMembersAbsent (P : Platform) {members : List ConflictMember}
    (hm : Sourced r V m) (hmembers : MembersSourced r V members) :
    Follows r V (Hands r V m) (confirmMembersAbsent P members m) := by
  induction members generalizing m with
  | nil => exact hm.hands _
  | cons y rest ih =>
    cases y with
    | current =>
      refine (follows_listManaged P hm).bind ?_
      rintro ⟨m₁, err | _ | ⟨o, objects⟩⟩ hm₁
      · exact hm₁
      · exact (ih hm₁.2 hmembers.tail).mono (fun _ hc => hc) fun _ hm₂ => hm₁.trans hm₂
      · exact hm₁
    | copy peer =>
      refine (follows_listManaged P (hmembers peer List.mem_cons_self)).bind ?_
      rintro ⟨peer₁, err | _ | ⟨o, objects⟩⟩ -
      · exact hm.hands _
      · exact ih hm hmembers.tail
      · exact hm.hands _

theorem follows_withdraw (P : Platform) {members : List ConflictMember} (hm : Sourced r V m)
    (hmembers : MembersSourced r V members) :
    Follows r V (Hands r V m) (withdrawConflictOutputs P members m) := by
  refine (follows_cleanupMembers P hm hmembers).bind ?_
  rintro ⟨m₁, err | members'⟩ ⟨hm₁, hmembers'⟩
  · exact hm₁
  · exact (follows_confirmMembersAbsent P hm₁.2 (hmembers' members' rfl)).mono (fun _ hc => hc)
      fun _ hm₂ => hm₁.trans hm₂

theorem follows_reconcileConflictState (hV : ∀ b, V.binding b → b.Vouched r V)
    (hm : Sourced r V m) (hplan : RenderedFrom r V m plan) :
    Follows r V (fun x => x.2 = none → Hands r V m x) (r.reconcileConflictState m plan) := by
  refine (follows_evaluate hV hm hplan).bind ?_
  rintro (err | state) hstate
  · exact (follows_reportApplyFailure hm.vouched.status err).bind fun _ _ => by rintro ⟨⟩
  dsimp only
  split_ifs
  · exact fun _ => hm.hands _
  refine (follows_withdraw r.platform hm (hstate state rfl).members).bind ?_
  rintro ⟨m₁, err | absent⟩ hm₁
  · exact (follows_reportApplyFailure hm₁.2.vouched.status err).bind fun _ _ => by rintro ⟨⟩
  dsimp only
  split_ifs
  · refine (follows_patchStatus (m := { m₁ with status := _ })
      (hm₁.2.vouched.status.applyPendingConflictStatus _)).bind ?_
    rintro ⟨m₂, err | ⟨⟩⟩ - <;> rintro ⟨⟩
  · have hconflict : (applyConflictStatus m₁.status m₁.generation state.conflicts).Vouched r V
        m₁.key := by
      refine hm₁.2.vouched.status.applyConflictStatus _ ?_
      rw [show m₁.key = m.key from hm₁.1.key]
      exact (hstate state rfl).conflicts
    refine (follows_publishOutcome (m := { m₁ with status := _ }) hconflict).bind ?_
    rintro (err | ⟨⟩) - <;> rintro ⟨⟩

/-! ## The phases -/

theorem follows_reconcileIdentity (hV : ∀ b, V.binding b → b.Vouched r V)
    (hm : Sourced r V m) (hplan : RenderedFrom r V m plan) :
    Follows r V (fun _ => True) (r.reconcileIdentity m plan) := by
  refine (follows_reconcileConflictState hV hm hplan).bind ?_
  rintro ⟨m₁, _ | result⟩ hm₁
  · obtain ⟨hcontinues, hsourced⟩ := hm₁ rfl
    refine (follows_cleanupChanged r.platform hsourced _).bind ?_
    rintro ⟨m₂, err | _ | _⟩ ⟨hm₂, haligned⟩
    · exact follows_reportApplyFailure hm₂.2.vouched.status err
    · refine follows_applyOutput hm₂.2 (hm₂.1.rendered (hcontinues.rendered hplan)) ?_
      rw [show m₂.key = m₁.key from hm₂.1.key]
      exact haligned rfl
    · refine (follows_patchStatus (m := { m₂ with status := _ })
        (hm₂.2.vouched.status.applyPendingManagedOutputReplacementStatus _)).bind ?_
      rintro ⟨m₃, err | ⟨⟩⟩ - <;> trivial
  · trivial

theorem follows_removeFinalizer (hm : Sourced r V m) :
    Follows r V (fun _ => True) (Reconciler.removeFinalizer m) := by
  refine Within.bind (Q := Hands r V m) ?_ ?_
  · split_ifs
    · exact follows_clear hm
    · exact hm.hands _
  · rintro ⟨m₁, err | ⟨⟩⟩ -
    · trivial
    · refine (Within.perform (c := Call.updateBinding _) trivial).bind ?_
      rintro (err | updated) - <;> trivial

theorem follows_reconcileDelete (hm : Sourced r V m) :
    Follows r V (fun _ => True) (r.reconcileDelete m) := by
  rw [Reconciler.reconcileDelete]
  by_cases hfinalizer : inferenceIdentityBindingFinalizer ∉ m.finalizers
  · rw [if_pos hfinalizer]
    trivial
  rw [if_neg hfinalizer]
  refine (follows_cleanupManaged r.platform hm).bind ?_
  rintro ⟨m₁, err | ⟨⟩⟩ hm₁
  · exact follows_reportApplyFailure hm₁.2.vouched.status err
  refine (follows_listManaged r.platform hm₁.2).bind ?_
  rintro ⟨m₂, err | _ | ⟨o, objects⟩⟩ hm₂
  · exact follows_reportApplyFailure hm₂.2.vouched.status err
  · exact follows_removeFinalizer hm₂.2
  · trivial

theorem follows_reconcilePresent (hV : ∀ b, V.binding b → b.Vouched r V)
    (hm : Sourced r V m) : Follows r V (fun _ => True) (r.reconcilePresent m) := by
  refine (follows_renderDesired m).bind ?_
  rintro (err | plan) hplan
  · dsimp only
    split
    · trivial
    · exact follows_settleStateError hm _
  · exact follows_reconcileIdentity hV hm (hplan plan rfl)

theorem follows_ensureFinalizer (hm : Sourced r V m) :
    Follows r V (fun x => ∀ b, x = .ok b → Sourced r V b) (Reconciler.ensureFinalizer m) := by
  rw [Reconciler.ensureFinalizer]
  split_ifs
  · exact fun _ heq => Except.ok.inj heq ▸ hm
  · refine (Within.perform (c := Call.updateBinding _) trivial).mono (fun _ hc => hc) ?_
    intro x hx b heq
    obtain ⟨hkey, huid, hspec, hvouched⟩ := hx b heq
    obtain ⟨origin, horigin⟩ := hm.origin
    exact ⟨⟨origin, by rw [hkey, huid, hspec]; exact horigin⟩, hvouched⟩

/-- **What a reconcile writes is accounted for**, as long as what it reads is. -/
theorem follows_reconcile (hV : ∀ b, V.binding b → b.Vouched r V) (key : NamespacedName) :
    Follows r V (fun _ => True) (r.reconcile key) := by
  refine (Within.perform (c := Call.getBinding key) trivial).bind ?_
  rintro (err | b) hb
  · dsimp only
    split_ifs <;> trivial
  obtain ⟨-, hread⟩ := hb b rfl
  have hsourced : Sourced r V b := ⟨⟨b, hread, rfl, rfl, rfl⟩, hV b hread⟩
  dsimp only
  split_ifs
  · exact follows_reconcileDelete hsourced
  · refine (follows_ensureFinalizer hsourced).bind ?_
    rintro (err | b') hb'
    · trivial
    · have hsourced' := hb' b' rfl
      exact follows_reconcilePresent hV (hsourced'.prepareStatus)

end

end Kleym
