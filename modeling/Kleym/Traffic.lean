import Kleym.Phases

/-!
# The traffic of a reconcile

Every call a reconcile can make, said once for all its functions. The bound looks at the answers
in one respect only: what is read under a name has that name, and bindings come with records in
scope. So a reconcile stays in the namespace of its request, as far as bindings and pools go; the
names it claims are rendered by `BuildClusterSPIFFEIDName`; the `ClusterSPIFFEID`s it asks for are
those that are recorded or rendered in the namespace; and what it writes to one is a rendered
object.
-/

namespace Kleym

open GoString Prog

/-! ## Scopes -/

/-- A binding has this name in its record. -/
def Binding.Records (b : Binding) (name : GoString) : Prop :=
  (∃ pending ∈ b.status.pendingClusterSPIFFEID, pending.name = name) ∨
    ∃ owned ∈ b.status.ownedClusterSPIFFEID, owned.name = name

theorem Binding.records_congr {b b' : Binding} {name : GoString} (h : b'.record = b.record) :
    b'.Records name ↔ b.Records name := by
  obtain ⟨hpending, howned⟩ := Prod.mk.inj h
  rw [Binding.Records, Binding.Records, hpending, howned]

/-- A namespace, and the names of the `ClusterSPIFFEID`s that are in use there. -/
structure Scope where
  namespace_ : GoString
  names : GoString → Prop

/-- A namespace with all names there are. -/
def Scope.whole (namespace_ : GoString) : Scope := ⟨namespace_, fun _ => True⟩

/-- Whatever is rendered in the namespace has its name in scope. -/
def Scope.Renders (scope : Scope) (r : Reconciler) : Prop :=
  ∀ b pool plan, b.key.namespace_ = scope.namespace_ → r.renderIdentity b pool = .ok plan →
    scope.names (desiredName r.platform b.key plan)

theorem Scope.whole_renders (namespace_ : GoString) (r : Reconciler) :
    (Scope.whole namespace_).Renders r :=
  fun _ _ _ _ _ => trivial

/-- A binding of the namespace that has names in scope in its record. -/
structure Binding.In (b : Binding) (scope : Scope) : Prop where
  namespace_ : b.key.namespace_ = scope.namespace_
  names : ∀ name, b.Records name → name ≠ [] → scope.names name

theorem Binding.In.of_record {scope : Scope} {b b' : Binding} (h : b.In scope)
    (hkey : b'.key = b.key) (hrecord : b'.record = b.record) : b'.In scope :=
  ⟨hkey ▸ h.namespace_, fun name hname => h.names name ((Binding.records_congr hrecord).mp hname)⟩

theorem Binding.in_whole {namespace_ : GoString} {b : Binding} (h : b.key.namespace_ = namespace_) :
    b.In (.whole namespace_) :=
  ⟨h, fun _ _ _ => trivial⟩

/-- An answer that is about what was asked for, with bindings in scope. -/
def Truthful (scope : Scope) : (c : Call) → Answer c → Prop
  | .getBinding key, a => ∀ b, a = (.ok b : Except GoError Binding) →
    b.key = key ∧ (key.namespace_ = scope.namespace_ → b.In scope)
  | .listBindings _ namespace_, a =>
    ∀ items, a = (.ok items : Except GoError (List Binding)) → ∀ b ∈ items,
      b.key.namespace_ = namespace_ ∧ (namespace_ = scope.namespace_ → b.In scope)
  | .updateBinding b, a => ∀ b', a = (.ok b' : Except GoError Binding) →
    b'.key = b.key ∧ (b.key.namespace_ = scope.namespace_ → b'.In scope)
  | .createClusterSPIFFEID _ object, a =>
    ∀ o, a = (.ok o : Except GoError ClusterSPIFFEID) → o.name = object.name
  | _, _ => True

/-- The calls that stay in scope, with the names and objects that are rendered there. -/
def Confined (r : Reconciler) (scope : Scope) : Call → Prop
  | .getBinding key => key.namespace_ = scope.namespace_
  | .listBindings _ listed => listed = scope.namespace_
  | .updateBinding b => b.key.namespace_ = scope.namespace_
  | .patchBindingStatus kind base status =>
    Binding.In { base with status := status } scope ∧ (kind = .ownership →
      ∀ pending ∈ status.pendingClusterSPIFFEID,
        ∃ plan, pending.name = desiredName r.platform base.key plan)
  | .getPool _ key => key.namespace_ = scope.namespace_
  | .getClusterSPIFFEID name => scope.names name
  | .createClusterSPIFFEID _ object => scope.names object.name ∧
    ∃ key plan claim, key.namespace_ = scope.namespace_ ∧ object = setClusterSPIFFEIDOwnershipClaim
      (desiredClusterSPIFFEID r.platform key plan r.config.clusterSPIFFEIDClassName) claim
  | .updateClusterSPIFFEID _ object => scope.names object.name ∧
    ∃ key plan current, key.namespace_ = scope.namespace_ ∧
      object = mergeDesiredClusterSPIFFEID current
        (desiredClusterSPIFFEID r.platform key plan r.config.clusterSPIFFEIDClassName)
  | .deleteClusterSPIFFEID _ name _ => scope.names name
  | _ => True

/-- Whatever a cluster answers, even from a cache, is about what was asked for, and in scope where
what can be read is. -/
theorem truthful_respond {scope : Scope} (choice : Choice) (c : Call) (w : World)
    (hin : ∀ b, b.key.namespace_ = scope.namespace_ →
      (choice.reading = .current → b ∈ w.bindings.entries) → b.In scope) :
    Truthful scope c (respond choice c w).1 := by
  -- an answer that is not an error is the one that was served
  have hserved : ∀ {β : Type} {served : Except GoError β × World} {a : β},
      (choice.fault.strike w served).1 = .ok a → served.1 = .ok a := fun h =>
    congrArg Prod.fst (Fault.strike_ok (Prod.ext h rfl))
  cases c with
  | getBinding key =>
    intro b hb
    obtain ⟨hkey, -, hcurrent⟩ := World.readBinding_ok (hserved hb)
    exact ⟨hkey, fun hnamespace => hin b (hkey ▸ hnamespace) hcurrent⟩
  | listBindings reader namespace_ =>
    intro items hitems b hb
    obtain rfl := Except.ok.inj (hserved hitems)
    obtain ⟨hnamespace, -⟩ := World.mem_readBindings choice.order.2 hb
    refine ⟨hnamespace, fun hsame => hin b (hnamespace.trans hsame) fun hcurrent => ?_⟩
    rw [hcurrent] at hb
    have hperm := World.readBindings_current (w := w) choice.order.2 namespace_
    exact (List.mem_filter.mp (hperm.mem_iff.mp hb)).1
  | updateBinding b =>
    intro b' hb'
    have hread := hserved hb'
    rcases w.replaceBinding_cases b with ⟨err, h⟩ | ⟨stored, hget, -, -, h⟩
    · rw [h] at hread
      cases hread
    · rw [h] at hread
      cases hread
      obtain ⟨hmem, hkey⟩ := Store.get_eq_some.mp hget
      refine ⟨hkey, fun hnamespace => ?_⟩
      exact (hin stored (hkey ▸ hnamespace) fun _ => hmem).of_record rfl rfl
  | createClusterSPIFFEID owner object =>
    intro o ho
    have hread := hserved ho
    rcases w.createObject_cases choice.fresh owner object with ⟨err, h⟩ | ⟨-, -, h⟩
    · rw [h] at hread
      cases hread
    · rw [h] at hread
      cases hread
      rfl
  | _ => trivial

/-- With all names in scope, nothing is asked of the cluster. -/
theorem truthful_whole (namespace_ : GoString) (choice : Choice) (c : Call) (w : World) :
    Truthful (.whole namespace_) c (respond choice c w).1 :=
  truthful_respond choice c w fun _ hb _ => Binding.in_whole hb

section

variable {r : Reconciler} {scope : Scope} {m b : Binding} {plan : Plan}

/-- A piece of code that stays in scope, and returns values in `Q`. -/
abbrev Stays (r : Reconciler) (scope : Scope) {α : Type} (Q : α → Prop) : Op α → Prop :=
  Within (Truthful scope) (Confined r scope) Q

/-- The pools that a binding refers to are in its namespace. -/
theorem Binding.In.confined_getPool (h : m.In scope) {gvk : GroupVersionKind}
    {key : NamespacedName} (hread : m.MayRead gvk key) : Confined r scope (.getPool gvk key) := by
  rw [hread.1]
  exact h.namespace_

/-- What comes back is a copy of the same binding, in scope. -/
def Brings (scope : Scope) (m : Binding) {α : Type} (x : Binding × α) : Prop :=
  x.1.key = m.key ∧ x.1.In scope

theorem Binding.In.brings {α : Type} (h : m.In scope) (a : α) : Brings scope m (m, a) := ⟨rfl, h⟩

theorem Brings.trans {α β : Type} {x : Binding × α} {y : Binding × β} (h : Brings scope m x)
    (h' : Brings scope x.1 y) : Brings scope m y := ⟨h'.1.trans h.1, h'.2⟩

/-! ## The record -/

theorem stays_patchOwnershipStatus (hm : m.In scope) {status : Status}
    (hin : Binding.In { m with status := status } scope)
    (hpending : ∀ pending ∈ status.pendingClusterSPIFFEID,
      ∃ plan, pending.name = desiredName r.platform m.key plan) :
    Stays r scope (Brings scope m) (patchOwnershipStatus m status) := by
  refine (Within.perform (c := Call.patchBindingStatus .ownership m status)
    ⟨hin, fun _ => hpending⟩).bind ?_
  rintro (err | target) -
  · exact hm.brings _
  · exact ⟨rfl, hin.of_record rfl rfl⟩

theorem stays_clear (hm : m.In scope) :
    Stays r scope (Brings scope m) (clearClusterSPIFFEIDOwnership m) := by
  rw [clearClusterSPIFFEIDOwnership]
  split_ifs
  · exact hm.brings _
  · refine stays_patchOwnershipStatus hm ⟨hm.namespace_, ?_⟩ (by rintro _ ⟨⟩)
    rintro _ (⟨_, ⟨⟩, -⟩ | ⟨_, ⟨⟩, -⟩)

theorem stays_confirm (P : Platform) (hm : m.In scope) {name : GoString} (hname : scope.names name)
    (uid : GoString) :
    Stays r scope (Brings scope m) (confirmClusterSPIFFEIDOwnership P m name uid) := by
  rw [confirmClusterSPIFFEIDOwnership]
  split_ifs
  · exact hm.brings _
  · refine stays_patchOwnershipStatus hm ⟨hm.namespace_, ?_⟩ (by rintro _ ⟨⟩)
    rintro _ (⟨_, ⟨⟩, -⟩ | ⟨_, ⟨⟩, rfl⟩) -
    exact hname

/-- An object that matches a record is in scope. -/
def Spotted (scope : Scope) : ManagedOutputObservation → Prop
  | .pendingOutputMatched o => scope.names o.name
  | .confirmedOutputMatched o => scope.names o.name
  | _ => True

theorem Binding.In.recorded (hm : m.In scope) {record : ManagedOutputRecord}
    (hrecord : managedOutputRecordFromStatus m.status = .ok record) {name : GoString}
    (hname : name ≠ [] → scope.names name) (hblank : lookupName record name ≠ []) :
    scope.names (lookupName record name) ∧
      ∀ o, Spotted scope (classifyManagedClusterSPIFFEID record (some o)) := by
  rw [managedOutputRecordFromStatus] at hrecord
  split at hrecord
  · cases hrecord
  · rename_i pending hpending howned
    split_ifs at hrecord
    cases hrecord
    have hin := hm.names pending.name (Or.inl ⟨pending, hpending, rfl⟩) hblank
    refine ⟨hin, fun o => ?_⟩
    rw [classifyManagedClusterSPIFFEID]
    split_ifs with hmatch
    · rw [Spotted, hmatch.1]
      exact hin
    · trivial
  · rename_i owned hpending howned
    split_ifs at hrecord
    cases hrecord
    have hin := hm.names owned.name (Or.inr ⟨owned, howned, rfl⟩) hblank
    refine ⟨hin, fun o => ?_⟩
    rw [classifyManagedClusterSPIFFEID]
    split_ifs with hmatch
    · rw [Spotted, hmatch.1]
      exact hin
    · trivial
  · cases hrecord
    exact ⟨hname hblank, fun _ => trivial⟩

theorem stays_observe (hm : m.In scope) {name : GoString} (hname : name ≠ [] → scope.names name) :
    Stays r scope (fun x => ∀ obs, x = .ok obs → Spotted scope obs)
      (observeManagedClusterSPIFFEID m name) := by
  have habsent : ∀ record, Spotted scope (classifyManagedClusterSPIFFEID record none) := by
    rintro (_ | _ | _) <;> trivial
  rw [observeManagedClusterSPIFFEID]
  split
  · rintro _ ⟨⟩
  · rename_i record hrecord
    split_ifs with hblank
    · rintro _ ⟨⟩
      exact habsent record
    · obtain ⟨hlookup, hspotted⟩ := hm.recorded hrecord hname hblank
      refine (Within.perform (c := Call.getClusterSPIFFEID _) hlookup).bind ?_
      rintro (err | object) -
      · dsimp only
        split_ifs
        · rintro _ ⟨⟩
          exact habsent record
        · rintro _ ⟨⟩
      · rintro _ ⟨⟩
        exact hspotted object

/-- The objects that come back with a copy are in scope. -/
def BringsObjects (scope : Scope) (m : Binding)
    (x : Binding × Except GoError (List ClusterSPIFFEID)) : Prop :=
  Brings scope m x ∧ ∀ objects, x.2 = .ok objects → ∀ o ∈ objects, scope.names o.name

theorem stays_listManaged (P : Platform) (hm : m.In scope) :
    Stays r scope (BringsObjects scope m) (listManagedClusterSPIFFEIDs P m) := by
  have hempty : ∀ {x : Binding × Except GoError (List ClusterSPIFFEID)}, Brings scope m x →
      (∀ objects, x.2 = .ok objects → objects = []) → BringsObjects scope m x := by
    intro x hx hnone
    refine ⟨hx, fun objects hobjects => ?_⟩
    rw [hnone objects hobjects]
    exact List.forall_mem_nil _
  have hobserve : Stays r scope (fun x => ∀ obs, x = .ok obs → Spotted scope obs)
      (observeManagedClusterSPIFFEID m []) := stays_observe hm fun hne => absurd rfl hne
  refine hobserve.bind ?_
  rintro (err | obs) hobs
  · exact hempty (hm.brings _) (by rintro _ ⟨⟩)
  · cases obs with
    | pendingOutputMatched object =>
      have hname : scope.names object.name := hobs _ rfl
      refine (stays_confirm P hm hname object.uid).bind ?_
      rintro ⟨m', err | ⟨⟩⟩ hm'
      · exact hempty hm' (by rintro _ ⟨⟩)
      · refine ⟨hm', ?_⟩
        rintro _ ⟨⟩
        exact List.forall_mem_singleton.mpr hname
    | confirmedOutputMatched object =>
      refine ⟨hm.brings _, ?_⟩
      rintro _ ⟨⟩
      exact List.forall_mem_singleton.mpr (hobs _ rfl)
    | unclaimedOutputAbsent => exact hempty (hm.brings _) (by rintro _ ⟨⟩; rfl)
    | unclaimedOutputForeign object => exact hempty (hm.brings _) (by rintro _ ⟨⟩; rfl)
    | _ =>
      refine (stays_clear hm).bind ?_
      rintro ⟨m', err | ⟨⟩⟩ hm'
      · exact hempty hm' (by rintro _ ⟨⟩)
      · exact hempty hm' (by rintro _ ⟨⟩; rfl)

theorem stays_deleteManagedObjects (owner : GoString) {objects : List ClusterSPIFFEID}
    (hobjects : ∀ o ∈ objects, scope.names o.name) :
    Stays r scope (fun _ => True) (deleteManagedObjects owner objects) := by
  induction objects with
  | nil => trivial
  | cons object rest ih =>
    obtain ⟨hobject, hrest⟩ := List.forall_mem_cons.mp hobjects
    refine (Within.perform (c := Call.deleteClusterSPIFFEID _ _ _) hobject).bind ?_
    rintro (err | ⟨⟩) -
    · dsimp only
      split_ifs
      · exact ih hrest
      · trivial
    · exact ih hrest

theorem stays_cleanupManaged (P : Platform) (hm : m.In scope) :
    Stays r scope (Brings scope m) (cleanupManagedClusterSPIFFEIDs P m) := by
  refine (stays_listManaged P hm).bind ?_
  rintro ⟨m', err | objects⟩ ⟨hm', hobjects⟩
  · exact hm'
  · exact (stays_deleteManagedObjects m'.uid (hobjects objects rfl)).bind fun _ _ => hm'

/-! ## Status -/

theorem stays_patchStatusOnce (hm : m.key.namespace_ = scope.namespace_) (desired : Status) :
    Stays r scope (fun _ => True) (patchStatusOnce m desired) := by
  refine (Within.perform (c := Call.getBinding m.key) hm).bind ?_
  rintro (err | latest) hlatest
  · trivial
  obtain ⟨-, hin⟩ := hlatest latest rfl
  dsimp only
  split_ifs
  · trivial
  · -- the record goes out as it was just read
    have hpatch : Confined r scope (.patchBindingStatus .ordinary latest
        { desired with
          pendingClusterSPIFFEID := latest.status.pendingClusterSPIFFEID
          ownedClusterSPIFFEID := latest.status.ownedClusterSPIFFEID }) :=
      ⟨(hin hm).of_record rfl rfl, by rintro ⟨⟩⟩
    refine (Within.perform hpatch).bind ?_
    rintro (err | updated) - <;> trivial

theorem stays_patchStatus (hm : m.key.namespace_ = scope.namespace_) :
    Stays r scope (fun _ => True) (patchStatus m) := by
  suffices h : ∀ (n : ℕ) (desired : Status),
      Stays r scope (fun _ => True) (patchStatusRetrying m desired n) from h 4 m.status
  intro n
  induction n with
  | zero => exact stays_patchStatusOnce hm
  | succ n ih =>
    intro desired
    refine (stays_patchStatusOnce hm desired).bind ?_
    rintro ⟨m', err | ⟨⟩⟩ -
    · dsimp only
      split_ifs
      · exact ih desired
      · trivial
    · trivial

theorem stays_publishOutcome (hm : m.key.namespace_ = scope.namespace_) :
    Stays r scope (fun _ => True) (publishOutcome m) := by
  refine (stays_patchStatus hm).bind ?_
  rintro ⟨m', err | ⟨⟩⟩ -
  · trivial
  · exact ⟨trivial, fun _ _ => trivial⟩

theorem stays_reportApplyFailure {α : Type} (hm : m.key.namespace_ = scope.namespace_)
    (err : GoError) :
    Stays r scope (fun _ => True) (reportApplyFailure m err : Op (Except GoError α)) := by
  refine (stays_publishOutcome (by exact hm)).bind ?_
  rintro (statusErr | ⟨⟩) -
  · trivial
  · exact ⟨trivial, fun _ _ => trivial⟩

/-! ## The output -/

theorem stays_reserve (hm : m.In scope)
    (hname : scope.names (desiredName r.platform m.key plan)) :
    Stays r scope (Brings scope m)
      (reserveClusterSPIFFEIDClaim r.platform m (desiredName r.platform m.key plan)) := by
  rw [reserveClusterSPIFFEIDClaim]
  split
  · exact hm.brings _
  · refine (Within.perform (c := Call.newUUID m.uid) trivial).bind fun claim _ => ?_
    have hin : Binding.In { m with
        status := reservedStatus m (desiredName r.platform m.key plan) claim } scope := by
      refine ⟨hm.namespace_, ?_⟩
      rintro _ (⟨_, ⟨⟩, rfl⟩ | ⟨_, ⟨⟩, -⟩) -
      exact hname
    refine (stays_patchOwnershipStatus hm hin ?_).bind ?_
    · rintro _ ⟨⟩
      exact ⟨plan, rfl⟩
    · rintro ⟨m', err | ⟨⟩⟩ hm' <;> exact hm'
  · exact hm.brings _

theorem stays_submit (hm : m.In scope) {key : NamespacedName}
    (hkey : key.namespace_ = scope.namespace_)
    (hname : scope.names (desiredName r.platform key plan)) (claim : GoString) :
    Stays r scope (Brings scope m)
      (submitManagedClusterSPIFFEID r.platform m plan
        (desiredClusterSPIFFEID r.platform key plan r.config.clusterSPIFFEIDClassName) claim) := by
  refine (Within.perform (c := Call.createClusterSPIFFEID m.uid _)
    ⟨hname, key, plan, claim, hkey, rfl⟩).bind ?_
  rintro (err | object) hobject
  · dsimp only
    split_ifs <;> exact hm.brings _
  · have hsame : object.name = desiredName r.platform key plan := hobject object rfl
    dsimp only
    split_ifs
    · exact hm.brings _
    · refine (stays_confirm r.platform hm (hsame ▸ hname) object.uid).bind ?_
      rintro ⟨m', err | ⟨⟩⟩ hm' <;> exact hm'

theorem stays_authorize (hm : m.In scope) (desired : ClusterSPIFFEID)
    {obs : ManagedOutputObservation} (hobs : Spotted scope obs) :
    Stays r scope (fun x => Brings scope m x ∧
        ∀ current, x.2 = .ok (some current) → scope.names current.name)
      (authorizeManagedOutputApply r.platform m desired obs) := by
  cases obs with
  | unclaimedOutputAbsent => exact ⟨hm.brings _, by rintro _ ⟨⟩⟩
  | unclaimedOutputForeign o => exact ⟨hm.brings _, by rintro _ ⟨⟩⟩
  | pendingOutputAbsent claim => exact ⟨hm.brings _, by rintro _ ⟨⟩⟩
  | confirmedOutputMatched o =>
    refine ⟨hm.brings _, ?_⟩
    rintro _ ⟨⟩
    exact hobs
  | pendingOutputMatched o =>
    have hname : scope.names o.name := hobs
    refine (stays_confirm r.platform hm hname o.uid).bind ?_
    rintro ⟨m', err | ⟨⟩⟩ hm'
    · exact ⟨hm', by rintro _ ⟨⟩⟩
    · refine ⟨hm', ?_⟩
      rintro _ ⟨⟩
      exact hname
  | _ =>
    refine (stays_clear hm).bind ?_
    rintro ⟨m', err | ⟨⟩⟩ hm' <;> exact ⟨hm', by rintro _ ⟨⟩⟩

theorem stays_reconcileClusterSPIFFEID (hm : m.In scope)
    (hname : scope.names (desiredName r.platform m.key plan)) :
    Stays r scope (Brings scope m)
      (reconcileClusterSPIFFEID r.platform m plan
        (desiredClusterSPIFFEID r.platform m.key plan r.config.clusterSPIFFEIDClassName)) := by
  refine (stays_observe hm fun _ => hname).bind ?_
  rintro (err | obs) hobs
  · exact hm.brings _
  refine (stays_authorize hm _ (hobs obs rfl)).bind ?_
  rintro ⟨m₁, err | _ | current⟩ ⟨hm₁, hcurrent⟩
  · exact hm₁
  · -- the desired object was rendered for the same binding
    have hsubmit : ∀ {m₂} claim, Brings scope m₁ (m₂, claim) → Stays r scope (Brings scope m)
        (submitManagedClusterSPIFFEID r.platform m₂ plan
          (desiredClusterSPIFFEID r.platform m.key plan r.config.clusterSPIFFEIDClassName) claim) :=
      fun claim hm₂ => (stays_submit hm₂.2 hm.namespace_ hname claim).mono (fun _ h => h)
        fun _ hx => hm₁.trans (hm₂.trans hx)
    cases obs with
    | pendingOutputAbsent claim => exact hsubmit claim (hm₁.2.brings claim)
    | _ =>
      have hkey : m₁.key = m.key := hm₁.1
      have hreserve : Stays r scope (Brings scope m₁)
          (reserveClusterSPIFFEIDClaim r.platform m₁ (desiredName r.platform m₁.key plan)) :=
        stays_reserve hm₁.2 (hkey ▸ hname)
      rw [hkey] at hreserve
      refine hreserve.bind ?_
      rintro ⟨m₂, err | claim⟩ hm₂
      · exact hm₁.trans hm₂
      · exact hsubmit claim hm₂
  · refine Within.bind (Q := fun _ => True) ?_ fun _ _ => hm₁
    rw [updateManagedClusterSPIFFEID]
    split_ifs
    · trivial
    · refine (Within.perform (c := Call.updateClusterSPIFFEID m₁.uid _)
        ⟨hcurrent current rfl, m.key, plan, current, hm.namespace_, rfl⟩).bind ?_
      rintro (err | updated) - <;> trivial

theorem stays_cleanupChanged (hm : m.In scope) (name : GoString) :
    Stays r scope (Brings scope m) (cleanupChangedClusterSPIFFEIDName r.platform m name) := by
  rw [cleanupChangedClusterSPIFFEIDName]
  split_ifs
  · exact hm.brings _
  refine (stays_cleanupManaged r.platform hm).bind ?_
  rintro ⟨m₁, err | ⟨⟩⟩ hm₁
  · exact hm₁
  refine (stays_listManaged r.platform hm₁.2).bind ?_
  rintro ⟨m₂, err | _ | ⟨o, objects⟩⟩ ⟨hm₂, -⟩
  · exact hm₁.trans hm₂
  · dsimp only
    split_ifs
    · refine (stays_clear hm₂.2).bind ?_
      rintro ⟨m₃, err | ⟨⟩⟩ hm₃ <;> exact hm₁.trans (hm₂.trans hm₃)
    · exact hm₁.trans hm₂
  · exact hm₁.trans hm₂

theorem stays_settleStateError (hm : m.In scope) (stateErr : StateError) :
    Stays r scope (fun _ => True) (r.settleStateError m stateErr) := by
  have hcleanup : Stays r scope (Brings scope m) (cleanupAfterStateError r.platform m) := by
    refine (stays_cleanupManaged r.platform hm).bind ?_
    rintro ⟨m₁, err | ⟨⟩⟩ hm₁
    · exact hm₁
    refine (stays_listManaged r.platform hm₁.2).bind ?_
    rintro ⟨m₂, err | _ | ⟨o, objects⟩⟩ ⟨hm₂, -⟩
    · exact hm₁.trans hm₂
    · exact (stays_clear hm₂.2).mono (fun _ h => h) fun _ hm₃ => hm₁.trans (hm₂.trans hm₃)
    · exact hm₁.trans hm₂
  have happly : Stays r scope (fun x => x.1.key = m.key)
      (applyStateError r.platform m stateErr) := by
    rw [applyStateError]
    split_ifs
    · refine hcleanup.bind ?_
      rintro ⟨m₁, err | ⟨⟩⟩ hm₁ <;> exact hm₁.1
    · rfl
  refine happly.bind ?_
  rintro ⟨m₁, err | ⟨⟩⟩ hm₁
  · exact stays_reportApplyFailure (m := m₁) (hm₁ ▸ hm.namespace_) err
  refine (stays_publishOutcome (m := m₁) (hm₁ ▸ hm.namespace_)).bind ?_
  rintro (err | ⟨⟩) -
  · trivial
  · refine (Within.perform (c := Call.recordEvent _ _ _) trivial).bind fun _ _ => ?_
    split_ifs <;> trivial

theorem stays_applyOutput (hm : m.In scope)
    (hname : scope.names (desiredName r.platform m.key plan)) :
    Stays r scope (fun _ => True) (r.applyOutput m plan) := by
  have houtput : Stays r scope (Brings scope m)
      (reconcileClusterSPIFFEIDs r.platform r.config.clusterSPIFFEIDClassName [plan] m) := by
    refine (stays_reconcileClusterSPIFFEID hm hname).bind ?_
    rintro ⟨m₁, err | status⟩ hm₁ <;> exact hm₁
  refine houtput.bind ?_
  rintro ⟨m₁, err | statuses⟩ hm₁
  · dsimp only
    split_ifs
    · exact stays_settleStateError hm₁.2 _
    · exact stays_reportApplyFailure hm₁.2.namespace_ err
  · refine (stays_publishOutcome (by exact hm₁.2.namespace_)).bind ?_
    rintro (err | ⟨⟩) -
    · trivial
    · exact ⟨trivial, fun _ _ => trivial⟩

/-! ## Conflicts -/

theorem stays_renderPeer {q : Binding} (hq : q.In scope) :
    Stays r scope (Brings scope q) (r.renderPeer m plan q) := by
  rw [Reconciler.renderPeer]
  split_ifs
  · exact hq.brings _
  · refine (Within.of_always
      (always_renderIdentityForBinding fun _ _ => hq.confined_getPool)).bind ?_
    rintro (err | p) -
    · dsimp only
      split
      · exact hq.brings _
      · refine (stays_listManaged r.platform hq).bind ?_
        rintro ⟨q', err | _ | _⟩ ⟨hq', -⟩ <;> exact hq'
    · exact hq.brings _

theorem stays_identityForConflictEvaluation {q : Binding} (hq : q.In scope) :
    Stays r scope (Brings scope q) (r.identityForConflictEvaluation m plan q) := by
  rw [Reconciler.identityForConflictEvaluation]
  split_ifs
  · refine (stays_listManaged r.platform hq).bind ?_
    rintro ⟨q', err | _ | _⟩ ⟨hq', -⟩
    · exact hq'
    · exact hq'
    · exact (stays_renderPeer hq'.2).mono (fun _ h => h) fun _ hx => hq'.trans hx
  · exact stays_renderPeer hq

/-- Everybody a scan has collected is in scope. -/
def PeerScan.In (scope : Scope) (scan : PeerScan) : Prop :=
  (∀ q ∈ scan.bindingsByRef, q.In scope) ∧ ∀ q ∈ scan.blockedMembers, q.In scope

/-- Members that are in scope. -/
def MembersIn (scope : Scope) (members : List ConflictMember) : Prop :=
  ∀ q, .copy q ∈ members → q.In scope

theorem MembersIn.tail {y : ConflictMember} {members : List ConflictMember}
    (h : MembersIn scope (y :: members)) : MembersIn scope members :=
  fun q hq => h q (List.mem_cons_of_mem y hq)

theorem stays_scanPeer {q : Binding} (hq : q.In scope) {scan : PeerScan} (hscan : scan.In scope) :
    Stays r scope (fun x => ∀ scan', x = .ok scan' → scan'.In scope)
      (r.scanPeer m plan scan q) := by
  refine (stays_identityForConflictEvaluation hq).bind ?_
  rintro ⟨q', err | _ | p | _⟩ hq'
  · rintro scan' ⟨⟩
  · rintro scan' ⟨⟩
    exact hscan
  · rintro scan' ⟨⟩
    exact ⟨List.forall_mem_cons.mpr ⟨hq'.2, hscan.1⟩, hscan.2⟩
  · rintro scan' ⟨⟩
    exact ⟨hscan.1, List.forall_mem_append.mpr ⟨hscan.2, List.forall_mem_singleton.mpr hq'.2⟩⟩

theorem stays_evaluate (hm : m.In scope) :
    Stays r scope (fun x => ∀ state, x = .ok state → MembersIn scope state.members)
      (r.evaluateBindingConflicts m plan) := by
  refine (Within.perform (c := Call.listBindings m.key m.key.namespace_) hm.namespace_).bind ?_
  rintro (err | items) hitems
  · rintro state ⟨⟩
  have hlisted : ∀ q ∈ items, q.In scope :=
    fun q hq => (hitems items rfl q hq).2 hm.namespace_
  have hempty : PeerScan.In scope ⟨[], [], []⟩ := ⟨List.forall_mem_nil _, List.forall_mem_nil _⟩
  refine (Within.foldM hempty fun q hq scan hscan => stays_scanPeer (hlisted q hq) hscan).bind ?_
  rintro (err | scan) hscan
  · rintro state ⟨⟩
  · rintro state ⟨⟩ q hq
    obtain ⟨hrefs, hblocked⟩ := hscan scan rfl
    rcases mem_conflictStateOf hq with heq | ⟨q', heq, hq'⟩
    · cases heq
    · cases heq
      exact hq'.elim (hrefs q) (hblocked q)

theorem stays_cleanupMembers (hm : m.In scope) {members : List ConflictMember}
    (hmembers : MembersIn scope members) :
    Stays r scope (fun x => Brings scope m x ∧
        ∀ members', x.2 = .ok members' → MembersIn scope members')
      (cleanupMembers r.platform members m) := by
  -- the reconciled binding goes through the loop and changes on the way, so it is generalized
  induction members generalizing m with
  | nil => exact ⟨hm.brings _, fun _ h => Except.ok.inj h ▸ hmembers⟩
  | cons y rest ih =>
    cases y with
    | current =>
      refine (stays_cleanupManaged r.platform hm).bind ?_
      rintro ⟨m₁, err | ⟨⟩⟩ hm₁
      · exact ⟨hm₁, by rintro _ ⟨⟩⟩
      refine (ih hm₁.2 hmembers.tail).bind ?_
      rintro ⟨m₂, err | members'⟩ ⟨hm₂, hrest⟩
      · exact ⟨hm₁.trans hm₂, by rintro _ ⟨⟩⟩
      · refine ⟨hm₁.trans hm₂, fun _ h => Except.ok.inj h ▸ fun q hq => ?_⟩
        rcases List.mem_cons.mp hq with hq | hq
        · cases hq
        · exact hrest members' rfl q hq
    | copy peer =>
      have hpeer : peer.In scope := hmembers peer List.mem_cons_self
      refine (stays_cleanupManaged r.platform hpeer).bind ?_
      rintro ⟨peer₁, err | ⟨⟩⟩ hpeer₁
      · exact ⟨hm.brings _, by rintro _ ⟨⟩⟩
      refine (ih hm hmembers.tail).bind ?_
      rintro ⟨m₂, err | members'⟩ ⟨hm₂, hrest⟩
      · exact ⟨hm₂, by rintro _ ⟨⟩⟩
      · refine ⟨hm₂, fun _ h => Except.ok.inj h ▸ fun q hq => ?_⟩
        rcases List.mem_cons.mp hq with hq | hq
        · cases hq
          exact hpeer₁.2
        · exact hrest members' rfl q hq

theorem stays_confirmMembersAbsent (hm : m.In scope) {members : List ConflictMember}
    (hmembers : MembersIn scope members) :
    Stays r scope (Brings scope m) (confirmMembersAbsent r.platform members m) := by
  induction members generalizing m with
  | nil => exact hm.brings _
  | cons y rest ih =>
    cases y with
    | current =>
      refine (stays_listManaged r.platform hm).bind ?_
      rintro ⟨m₁, err | _ | ⟨o, objects⟩⟩ ⟨hm₁, -⟩
      · exact hm₁
      · exact (ih hm₁.2 hmembers.tail).mono (fun _ h => h) fun _ hm₂ => hm₁.trans hm₂
      · exact hm₁
    | copy peer =>
      refine (stays_listManaged r.platform (hmembers peer List.mem_cons_self)).bind ?_
      rintro ⟨peer₁, err | _ | ⟨o, objects⟩⟩ -
      · exact hm.brings _
      · exact ih hm hmembers.tail
      · exact hm.brings _

theorem stays_withdraw (hm : m.In scope) {members : List ConflictMember}
    (hmembers : MembersIn scope members) :
    Stays r scope (Brings scope m) (withdrawConflictOutputs r.platform members m) := by
  refine (stays_cleanupMembers hm hmembers).bind ?_
  rintro ⟨m₁, err | members'⟩ ⟨hm₁, hmembers'⟩
  · exact hm₁
  · exact (stays_confirmMembersAbsent hm₁.2 (hmembers' members' rfl)).mono (fun _ h => h)
      fun _ hm₂ => hm₁.trans hm₂

theorem stays_reconcileConflictState (hm : m.In scope) :
    Stays r scope (fun x => x.2 = none → Brings scope m x) (r.reconcileConflictState m plan) := by
  refine (stays_evaluate hm).bind ?_
  rintro (err | state) hstate
  · exact (stays_reportApplyFailure hm.namespace_ err).bind fun _ _ => by rintro ⟨⟩
  dsimp only
  split_ifs
  · exact fun _ => hm.brings _
  refine (stays_withdraw hm (hstate state rfl)).bind ?_
  rintro ⟨m₁, err | absent⟩ hm₁
  · exact (stays_reportApplyFailure hm₁.2.namespace_ err).bind fun _ _ => by rintro ⟨⟩
  dsimp only
  split_ifs
  · refine (stays_patchStatus (by exact hm₁.2.namespace_)).bind ?_
    rintro ⟨m₂, err | ⟨⟩⟩ - <;> rintro ⟨⟩
  · refine (stays_publishOutcome (by exact hm₁.2.namespace_)).bind ?_
    rintro (err | ⟨⟩) - <;> rintro ⟨⟩

/-! ## The phases -/

theorem stays_reconcileIdentity (hm : m.In scope)
    (hname : scope.names (desiredName r.platform m.key plan)) :
    Stays r scope (fun _ => True) (r.reconcileIdentity m plan) := by
  refine (stays_reconcileConflictState hm).bind ?_
  rintro ⟨m₁, _ | result⟩ hnone
  · have hm₁ : Brings scope m (m₁, ()) := hnone rfl
    refine (stays_cleanupChanged hm₁.2 _).bind ?_
    rintro ⟨m₂, err | _ | _⟩ hm₂
    · exact stays_reportApplyFailure hm₂.2.namespace_ err
    · have hkey : m₂.key = m.key := hm₂.1.trans hm₁.1
      exact stays_applyOutput hm₂.2 (hkey ▸ hname)
    · refine (stays_patchStatus (by exact hm₂.2.namespace_)).bind ?_
      rintro ⟨m₃, err | ⟨⟩⟩ - <;> trivial
  · trivial

theorem stays_reconcileDelete (hm : m.In scope) :
    Stays r scope (fun _ => True) (r.reconcileDelete m) := by
  have hremove : ∀ {m : Binding}, m.In scope →
      Stays r scope (fun _ => True) (Reconciler.removeFinalizer m) := by
    intro m hm
    refine Within.bind (Q := Brings scope m) ?_ ?_
    · split_ifs
      · exact stays_clear hm
      · exact hm.brings _
    · rintro ⟨m₁, err | ⟨⟩⟩ hm₁
      · trivial
      · refine (Within.perform (c := Call.updateBinding _) hm₁.2.namespace_).bind ?_
        rintro (err | updated) - <;> trivial
  rw [Reconciler.reconcileDelete]
  by_cases hfinalizer : inferenceIdentityBindingFinalizer ∉ m.finalizers
  · rw [if_pos hfinalizer]
    trivial
  rw [if_neg hfinalizer]
  refine (stays_cleanupManaged r.platform hm).bind ?_
  rintro ⟨m₁, err | ⟨⟩⟩ hm₁
  · exact stays_reportApplyFailure hm₁.2.namespace_ err
  refine (stays_listManaged r.platform hm₁.2).bind ?_
  rintro ⟨m₂, err | _ | ⟨o, objects⟩⟩ ⟨hm₂, -⟩
  · exact stays_reportApplyFailure hm₂.2.namespace_ err
  · exact hremove hm₂.2
  · trivial

theorem stays_reconcilePresent (hscope : scope.Renders r) (hm : m.In scope) :
    Stays r scope (fun _ => True) (r.reconcilePresent m) := by
  refine (Within.of_always (always_renderDesired fun _ _ => hm.confined_getPool)).bind ?_
  rintro (err | plan) hplan
  · dsimp only
    split
    · trivial
    · exact stays_settleStateError hm _
  · obtain ⟨pool, hrendered⟩ := hplan plan rfl
    exact stays_reconcileIdentity hm (hscope m pool plan hm.namespace_ hrendered)

/-- **What a reconcile may call.** -/
theorem stays_reconcile (hscope : scope.Renders r) {key : NamespacedName}
    (hkey : key.namespace_ = scope.namespace_) :
    Stays r scope (fun _ => True) (r.reconcile key) := by
  have hget : Confined r scope (.getBinding key) := hkey
  refine (Within.perform hget).bind ?_
  rintro (err | b) hb
  · dsimp only
    split_ifs <;> trivial
  obtain ⟨-, hin⟩ := hb b rfl
  dsimp only
  split_ifs
  · exact stays_reconcileDelete (hin hkey)
  · refine Within.bind (Q := fun x => ∀ b', x = .ok b' → b'.In scope) ?_ ?_
    · rw [Reconciler.ensureFinalizer]
      split_ifs
      · exact fun b' h => Except.ok.inj h ▸ hin hkey
      · refine (Within.perform (c := Call.updateBinding _) (hin hkey).namespace_).mono
          (fun _ h => h) ?_
        exact fun x hx b' h => (hx b' h).2 (hin hkey).namespace_
    · rintro (err | b') hb'
      · trivial
      · exact stays_reconcilePresent hscope ((hb' b' rfl).of_record rfl (record_prepareStatus b'))

/-- With all names in scope, of any reconcile. -/
theorem stays_whole (r : Reconciler) (key : NamespacedName) :
    Stays r (.whole key.namespace_) (fun _ => True) (r.reconcile key) :=
  stays_reconcile (Scope.whole_renders key.namespace_ r) rfl

end

end Kleym
