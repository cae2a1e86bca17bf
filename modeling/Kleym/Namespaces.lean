import Kleym.Naming
import Kleym.Traffic
import Kleym.Watch

/-!
# Namespaces

A binding, its pool and its peers live in one namespace; the `ClusterSPIFFEID`s are the only
thing the tenants of a cluster share. What a tenant has to do with are those under the names that
its bindings record, or can be rendered to. Two states agree for a tenant when a reader who is let
into the namespace, and to these objects, sees no difference between them. The result of this
module is that a reconcile is such a reader: it can go in one of the two states as it can in the
other, it leaves states that agree again, and in both it writes to nothing that is out of scope.

The names of two tenants need not be different, so this is as far as it goes: `n/a-b` and `n-a/b`
are rendered to names that differ in eight digits of a hash only.

The requests that `mapBindingToPeers` makes for the event of a binding rest on this: whoever could
notice the event lives in the namespace of the binding, and everybody there is asked.
-/

namespace Kleym

open GoString Prog

/-- A call is served from the current state. A write may fail, with or without effect. -/
def Currently (c : Call) (w : World) (a : Answer c) (w' : World) : Prop :=
  ∃ choice : Choice, choice.reading = .current ∧ respond choice c w = (a, w')

/-! ## Comparing objects -/

/-- The objects under these names are the same. -/
def SameUnder (names : GoString → Prop) (s s' : Store ClusterSPIFFEID.name) : Prop :=
  ∀ name, names name → s'.get name = s.get name

/-- A way to compare the objects of two states: those under these names are the same, and writes
under these names are not seen. -/
structure Framing (names : GoString → Prop)
    (E : Store ClusterSPIFFEID.name → Store ClusterSPIFFEID.name → Prop) : Prop where
  get : ∀ {s s' name}, E s s' → names name → s'.get name = s.get name
  put : ∀ {s s'} {o : ClusterSPIFFEID}, E s s' → names o.name → E (s.put o) (s'.put o)
  erase : ∀ {s s' name}, E s s' → names name → E (s.erase name) (s'.erase name)

theorem framing_eq (names : GoString → Prop) : Framing names fun s s' => s' = s where
  get h _ := by rw [h]
  put h _ := by rw [h]
  erase h _ := by rw [h]

theorem framing_sameUnder (names : GoString → Prop) : Framing names (SameUnder names) where
  get h hname := h _ hname
  put h _ name hname := by rw [Store.get_put, Store.get_put, h name hname]
  erase h _ name hname := by rw [Store.get_erase, Store.get_erase, h name hname]

namespace World

/-- The bindings of a namespace. -/
def bindingsIn (w : World) (namespace_ : GoString) : Store Binding.key :=
  w.bindings.restrict fun key => key.namespace_ = namespace_

/-- The bindings of the other namespaces. -/
def bindingsOutside (w : World) (namespace_ : GoString) : Store Binding.key :=
  w.bindings.restrict fun key => key.namespace_ ≠ namespace_

/-- The pools of a namespace. -/
def poolsIn (w : World) (namespace_ : GoString) : Store InferencePool.key :=
  w.pools.restrict fun key => key.2.namespace_ = namespace_

/-- Nobody who looks into one namespace only, and compares the objects by `E`, can tell the two
states apart. -/
structure Agrees (E : Store ClusterSPIFFEID.name → Store ClusterSPIFFEID.name → Prop)
    (namespace_ : GoString) (w w' : World) : Prop where
  bindings : w'.bindingsIn namespace_ = w.bindingsIn namespace_
  pools : w'.poolsIn namespace_ = w.poolsIn namespace_
  objects : E w.objects w'.objects
  served : w'.served = w.served
  revision : w'.revision = w.revision

/-- Nobody who looks into one namespace only, and at all objects, can. -/
abbrev AgreesIn (namespace_ : GoString) (w w' : World) : Prop :=
  w.Agrees (fun s s' => s' = s) namespace_ w'

/-- Nobody who looks into one namespace only, and at the objects in scope, can. -/
abbrev AgreesFor (scope : Scope) (w w' : World) : Prop :=
  w.Agrees (SameUnder scope.names) scope.namespace_ w'

/-- What is in use in a namespace: the names that are in a record now, and those that a binding can
be rendered to. -/
def scopeOf (w : World) (r : Reconciler) (namespace_ : GoString) : Scope where
  namespace_ := namespace_
  names name :=
    (∃ b ∈ w.bindings.entries, b.key.namespace_ = namespace_ ∧ b.Records name) ∨
      ∃ b pool plan, b.key.namespace_ = namespace_ ∧ r.renderIdentity b pool = .ok plan ∧
        name = desiredName r.platform b.key plan

theorem scopeOf_renders (w : World) (r : Reconciler) (namespace_ : GoString) :
    (w.scopeOf r namespace_).Renders r :=
  fun b pool plan hb hplan => Or.inr ⟨b, pool, plan, hb, hplan, rfl⟩

variable {w w' : World} {namespace_ : GoString} {names : GoString → Prop}
  {E : Store ClusterSPIFFEID.name → Store ClusterSPIFFEID.name → Prop}

/-! ## What is seen -/

theorem get_bindingsIn {key : NamespacedName} (h : key.namespace_ = namespace_) :
    (w.bindingsIn namespace_).get key = w.bindings.get key :=
  Store.get_restrict (decide_eq_true h)

namespace Agrees

theorem get (h : w.Agrees E namespace_ w') {key : NamespacedName}
    (hkey : key.namespace_ = namespace_) : w'.bindings.get key = w.bindings.get key := by
  rw [← get_bindingsIn hkey, h.bindings, get_bindingsIn hkey]

theorem readBinding (h : w.Agrees E namespace_ w') {key : NamespacedName}
    (hkey : key.namespace_ = namespace_) :
    w'.readBinding .current key = w.readBinding .current key := by
  rw [World.readBinding, World.readBinding, h.get hkey]

theorem readBindings (h : w.Agrees E namespace_ w') (order : List Binding → List Binding) :
    w'.readBindings .current order namespace_ = w.readBindings .current order namespace_ :=
  congrArg (fun s : Store Binding.key => order s.entries) h.bindings

theorem readPool (h : w.Agrees E namespace_ w') (gvk : GroupVersionKind) {key : NamespacedName}
    (hkey : key.namespace_ = namespace_) : w'.readPool gvk key = w.readPool gvk key := by
  have hpools : ∀ v : World, (v.poolsIn namespace_).get (gvk, key) = v.pools.get (gvk, key) :=
    fun v => Store.get_restrict (decide_eq_true hkey)
  rw [World.readPool, World.readPool, ← hpools, h.pools, hpools, h.served]

theorem readObject (h : w.Agrees E namespace_ w') (hE : Framing names E) {name : GoString}
    (hname : names name) : w'.readObject .current name = w.readObject .current name := by
  rw [World.readObject, World.readObject, hE.get h.objects hname]

/-! ## What is done -/

theorem saveBinding (h : w.Agrees E namespace_ w') {b : Binding}
    (hb : b.key.namespace_ = namespace_) :
    (w.saveBinding b).Agrees E namespace_ (w'.saveBinding b) := by
  refine { bindings := ?_, pools := h.pools, objects := h.objects, served := h.served,
           revision := congrArg (· + 1) h.revision }
  have hput : ∀ v : World, (v.saveBinding b).bindingsIn namespace_ =
      (v.bindingsIn namespace_).put { b with resourceVersion := v.revision + 1 } :=
    fun v => Store.restrict_put (decide_eq_true hb)
  rw [hput, hput, h.bindings, h.revision]

theorem dropBinding (h : w.Agrees E namespace_ w') (key : NamespacedName) :
    (w.dropBinding key).Agrees E namespace_ (w'.dropBinding key) := by
  refine { bindings := ?_, pools := h.pools, objects := h.objects, served := h.served,
           revision := congrArg (· + 1) h.revision }
  have herase : ∀ v : World, (v.dropBinding key).bindingsIn namespace_ =
      (v.bindingsIn namespace_).erase key := fun v => Store.restrict_erase
  rw [herase, herase, h.bindings]

theorem settleBinding (h : w.Agrees E namespace_ w') {b : Binding}
    (hb : b.key.namespace_ = namespace_) :
    (w.settleBinding b).Agrees E namespace_ (w'.settleBinding b) := by
  rw [World.settleBinding, World.settleBinding]
  split_ifs
  · exact h.dropBinding b.key
  · exact h.saveBinding hb

theorem saveObject (h : w.Agrees E namespace_ w') (hE : Framing names E) {o : ClusterSPIFFEID}
    (ho : names o.name) : (w.saveObject o).Agrees E namespace_ (w'.saveObject o) where
  bindings := h.bindings
  pools := h.pools
  objects := by
    rw [World.saveObject, World.saveObject, h.revision]
    exact hE.put h.objects ho
  served := h.served
  revision := congrArg (· + 1) h.revision

theorem dropObject (h : w.Agrees E namespace_ w') (hE : Framing names E) {name : GoString}
    (hname : names name) : (w.dropObject name).Agrees E namespace_ (w'.dropObject name) where
  bindings := h.bindings
  pools := h.pools
  objects := hE.erase h.objects hname
  served := h.served
  revision := congrArg (· + 1) h.revision

end Agrees

end World

/-- Two answers are the same, and the states left behind agree. -/
def AnsweredAlike (E : Store ClusterSPIFFEID.name → Store ClusterSPIFFEID.name → Prop)
    (namespace_ : GoString) {β : Type} (x x' : β × World) : Prop :=
  x'.1 = x.1 ∧ x.2.Agrees E namespace_ x'.2

section

variable {w w' : World} {namespace_ : GoString} {names : GoString → Prop} {scope : Scope}
  {E : Store ClusterSPIFFEID.name → Store ClusterSPIFFEID.name → Prop}

theorem AnsweredAlike.strike {β : Type} {served served' : Except GoError β × World}
    (h : AnsweredAlike E namespace_ served served') (hw : w.Agrees E namespace_ w')
    (fault : Fault) :
    AnsweredAlike E namespace_ (fault.strike w served) (fault.strike w' served') := by
  cases fault with
  | none => exact h
  | refused err => exact ⟨rfl, hw⟩
  | lost err => exact ⟨rfl, h.2⟩

theorem AnsweredAlike.read {β : Type} (answer : Except GoError β) (hw : w.Agrees E namespace_ w')
    (fault : Fault) :
    AnsweredAlike E namespace_ (fault.strike w (answer, w)) (fault.strike w' (answer, w')) :=
  have hsame : AnsweredAlike E namespace_ (answer, w) (answer, w') := ⟨rfl, hw⟩
  hsame.strike hw fault

theorem replaceBinding_alike (h : w.Agrees E namespace_ w') {b : Binding}
    (hb : b.key.namespace_ = namespace_) :
    AnsweredAlike E namespace_ (w.replaceBinding b) (w'.replaceBinding b) := by
  rw [World.replaceBinding, World.replaceBinding, h.get hb, h.revision]
  rcases hget : w.bindings.get b.key with _ | stored
  · exact ⟨rfl, h⟩
  · have hkey : stored.key = b.key := (Store.get_eq_some.mp hget).2
    dsimp only
    split_ifs
    · exact ⟨rfl, h⟩
    · exact ⟨rfl, h.settleBinding (hkey ▸ hb)⟩

theorem patchStatusOf_alike (h : w.Agrees E namespace_ w') {base : Binding}
    (hbase : base.key.namespace_ = namespace_) (status : Status) :
    AnsweredAlike E namespace_ (w.patchStatusOf base status) (w'.patchStatusOf base status) := by
  rw [World.patchStatusOf, World.patchStatusOf, h.get hbase, h.revision]
  rcases hget : w.bindings.get base.key with _ | stored
  · exact ⟨rfl, h⟩
  · have hkey : stored.key = base.key := (Store.get_eq_some.mp hget).2
    dsimp only
    split_ifs
    · exact ⟨rfl, h⟩
    · exact ⟨rfl, h.saveBinding (hkey ▸ hbase)⟩
    · exact ⟨rfl, h⟩

theorem createObject_alike (h : w.Agrees E namespace_ w') (hE : Framing names E)
    (fresh owner : GoString) {object : ClusterSPIFFEID} (hname : names object.name) :
    AnsweredAlike E namespace_ (w.createObject fresh owner object)
      (w'.createObject fresh owner object) := by
  rw [World.createObject, World.createObject, hE.get h.objects hname, h.revision]
  split_ifs
  · rcases w.objects.get object.name with _ | stored
    · have hsaved := h.saveObject hE (o := object.createdAs fresh) hname
      exact ⟨rfl, hsaved.bindings, hsaved.pools, hsaved.objects, hsaved.served, hsaved.revision⟩
    · exact ⟨rfl, h⟩
  · exact ⟨rfl, h⟩

theorem replaceObject_alike (h : w.Agrees E namespace_ w') (hE : Framing names E)
    {object : ClusterSPIFFEID} (hname : names object.name) :
    AnsweredAlike E namespace_ (w.replaceObject object) (w'.replaceObject object) := by
  rw [World.replaceObject, World.replaceObject, hE.get h.objects hname, h.revision]
  rcases w.objects.get object.name with _ | stored
  · exact ⟨rfl, h⟩
  · dsimp only
    split_ifs
    · exact ⟨rfl, h⟩
    · exact ⟨rfl, h.saveObject hE hname⟩
    · exact ⟨rfl, h⟩

theorem deleteObject_alike (h : w.Agrees E namespace_ w') (hE : Framing names E) (lingers : Bool)
    {name : GoString} (hname : names name) (uid : GoString) :
    AnsweredAlike E namespace_ (w.deleteObject lingers name uid)
      (w'.deleteObject lingers name uid) := by
  rw [World.deleteObject, World.deleteObject, hE.get h.objects hname]
  rcases hget : w.objects.get name with _ | stored
  · exact ⟨rfl, h⟩
  · have hsame : stored.name = name := (Store.get_eq_some.mp hget).2
    dsimp only
    split_ifs
    · exact ⟨rfl, h⟩
    · exact ⟨rfl, h.saveObject hE (o := stored.markedDeleted) (hsame ▸ hname)⟩
    · exact ⟨rfl, h.dropObject hE hname⟩

/-- A call that stays in scope is answered alike. -/
theorem respond_alike {r : Reconciler} (hE : Framing scope.names E) {choice : Choice}
    (hcurrent : choice.reading = .current) {c : Call} (hc : Confined r scope c)
    (h : w.Agrees E scope.namespace_ w') :
    AnsweredAlike E scope.namespace_ (respond choice c w) (respond choice c w') := by
  cases c with
  | getBinding key =>
    rw [respond, respond, hcurrent, h.readBinding hc]
    exact AnsweredAlike.read _ h _
  | listBindings reader listed =>
    obtain rfl : listed = scope.namespace_ := hc
    rw [respond, respond, hcurrent, h.readBindings]
    exact AnsweredAlike.read _ h _
  | updateBinding b => exact (replaceBinding_alike h hc).strike h _
  | patchBindingStatus kind base status =>
    have hbase : base.key.namespace_ = scope.namespace_ := hc.1.namespace_
    exact (patchStatusOf_alike h hbase status).strike h _
  | getPool gvk key =>
    rw [respond, respond, h.readPool gvk hc]
    exact AnsweredAlike.read _ h _
  | getClusterSPIFFEID name =>
    rw [respond, respond, hcurrent, h.readObject hE hc]
    exact AnsweredAlike.read _ h _
  | createClusterSPIFFEID owner object =>
    exact (createObject_alike h hE choice.fresh owner hc.1).strike h _
  | updateClusterSPIFFEID owner object => exact (replaceObject_alike h hE hc.1).strike h _
  | deleteClusterSPIFFEID owner name uid =>
    exact (deleteObject_alike h hE choice.lingers hc uid).strike h _
  | newUUID owner => exact ⟨rfl, h.bindings, h.pools, h.objects, h.served, h.revision⟩
  | recordTerminalOutcome status => exact ⟨rfl, h⟩
  | recordEvent warning reason message => exact ⟨rfl, h⟩

/-! ## The records stay in scope -/

/-- The bindings of the namespace have records in scope. -/
def World.RecordsIn (scope : Scope) (w : World) : Prop :=
  ∀ b ∈ w.bindings.entries, b.key.namespace_ = scope.namespace_ → b.In scope

theorem World.recordsIn_scopeOf (w : World) (r : Reconciler) (namespace_ : GoString) :
    w.RecordsIn (w.scopeOf r namespace_) :=
  fun b hb hnamespace => ⟨hnamespace, fun _ hname _ => Or.inl ⟨b, hb, hnamespace, hname⟩⟩

theorem World.Agrees.recordsIn (h : w.Agrees E scope.namespace_ w') (hw : w.RecordsIn scope) :
    w'.RecordsIn scope := by
  intro b hb hnamespace
  have hget : w'.bindings.get b.key = some b := Store.get_eq_some.mpr ⟨hb, rfl⟩
  rw [h.get hnamespace] at hget
  exact hw b (Store.get_eq_some.mp hget).1 hnamespace

/-- A name in a merged record is one of the patch, or was there. -/
theorem name_of_mergeOptional {α : Type} [DecidableEq α] {zero : α} {merge : α → α → α → α}
    {f : α → GoString} (hzero : f zero = [])
    (hmerge : ∀ base target current, f (merge base target current) = f target ∨
      f (merge base target current) = f current) {base target current : Option α} {x : α}
    (hx : x ∈ mergeOptional zero merge base target current) (hne : f x ≠ []) :
    (∃ y ∈ target, f y = f x) ∨ ∃ y ∈ current, f y = f x := by
  simp only [mergeOptional] at hx
  split_ifs at hx with hsame
  · exact Or.inr ⟨x, hx, rfl⟩
  · rcases base with _ | base
    · exact Or.inl ⟨x, hx, rfl⟩
    rcases target with _ | target
    · cases hx
    · have hmerged : merge base target (current.getD zero) = x := Option.some.inj hx
      rcases hmerge base target (current.getD zero) with htarget | hcurrent
      · exact Or.inl ⟨target, rfl, by rw [← hmerged, htarget]⟩
      · rw [hmerged] at hcurrent
        rcases current with _ | current
        · exact absurd (hcurrent.trans hzero) hne
        · exact Or.inr ⟨current, rfl, hcurrent.symm⟩

theorem Binding.Records.of_patchedBy {stored base : Binding} {status : Status} {name : GoString}
    (h : (stored.patchedBy base status).Records name) (hne : name ≠ []) :
    Binding.Records { base with status := status } name ∨ stored.Records name := by
  have hfield : ∀ a b c : GoString, mergeField a b c = b ∨ mergeField a b c = c := by
    intro a b c
    rw [mergeField]
    split_ifs
    · exact Or.inr rfl
    · exact Or.inl rfl
  rcases h with ⟨pending, hpending, rfl⟩ | ⟨owned, howned, rfl⟩
  · rcases name_of_mergeOptional (f := PendingClusterSPIFFEIDStatus.name) rfl
      (fun _ _ _ => hfield _ _ _) hpending hne with ⟨y, hy, hname⟩ | ⟨y, hy, hname⟩
    · exact Or.inl (Or.inl ⟨y, hy, hname⟩)
    · exact Or.inr (Or.inl ⟨y, hy, hname⟩)
  · rcases name_of_mergeOptional (f := OwnedClusterSPIFFEIDStatus.name) rfl
      (fun _ _ _ => hfield _ _ _) howned hne with ⟨y, hy, hname⟩ | ⟨y, hy, hname⟩
    · exact Or.inl (Or.inr ⟨y, hy, hname⟩)
    · exact Or.inr (Or.inr ⟨y, hy, hname⟩)

theorem World.RecordsIn.saveBinding (hw : w.RecordsIn scope) {b : Binding}
    (hb : b.key.namespace_ = scope.namespace_ → b.In scope) :
    (w.saveBinding b).RecordsIn scope := by
  intro b' hb' hnamespace
  rcases Store.mem_put.mp hb' with rfl | ⟨hb', -⟩
  · exact (hb hnamespace).of_record rfl rfl
  · exact hw b' hb' hnamespace

theorem Effect.recordsIn {r : Reconciler} {c : Call} {fresh : GoString} (h : Effect c w fresh w')
    (hc : Confined r scope c) (hw : w.RecordsIn scope) : w'.RecordsIn scope := by
  cases h with
  | @updateBinding b stored _ _ hstored =>
    have hin : (stored.replacedBy b).key.namespace_ = scope.namespace_ →
        (stored.replacedBy b).In scope := fun hnamespace =>
      (hw stored (Store.get_eq_some.mp hstored).1 hnamespace).of_record rfl rfl
    rw [World.settleBinding]
    split_ifs
    · exact fun b' hb' => hw b' (Store.mem_erase.mp hb').1
    · exact hw.saveBinding hin
  | @patchBindingStatus kind base stored status _ _ hstored =>
    refine hw.saveBinding fun hnamespace => ⟨hnamespace, fun name hname hne => ?_⟩
    rcases hname.of_patchedBy hne with hname | hname
    · exact hc.1.names name hname hne
    · exact (hw stored (Store.get_eq_some.mp hstored).1 hnamespace).names name hname hne
  | _ => exact hw

/-! ## What is left alone -/

/-- Nothing that belongs to another namespace has changed, no pool at all, and no object out of
scope. -/
structure World.KeepsOutside (scope : Scope) (w w' : World) : Prop where
  bindings : w'.bindingsOutside scope.namespace_ = w.bindingsOutside scope.namespace_
  pools : w'.poolView = w.poolView
  objects : ∀ name, ¬scope.names name → w'.objects.get name = w.objects.get name

theorem World.KeepsOutside.refl (scope : Scope) (w : World) : w.KeepsOutside scope w :=
  ⟨rfl, rfl, fun _ _ => rfl⟩

theorem World.KeepsOutside.trans {w'' : World} (h : w.KeepsOutside scope w')
    (h' : w'.KeepsOutside scope w'') : w.KeepsOutside scope w'' :=
  ⟨h'.bindings.trans h.bindings, h'.pools.trans h.pools,
    fun name hname => (h'.objects name hname).trans (h.objects name hname)⟩

theorem keepsOutside_saveBinding {b : Binding} (hb : b.key.namespace_ = scope.namespace_) :
    w.KeepsOutside scope (w.saveBinding b) :=
  ⟨Store.restrict_put_of_not (decide_eq_false (not_not_intro hb)), rfl, fun _ _ => rfl⟩

theorem keepsOutside_settleBinding {b : Binding} (hb : b.key.namespace_ = scope.namespace_) :
    w.KeepsOutside scope (w.settleBinding b) := by
  rw [World.settleBinding]
  split_ifs
  · exact ⟨Store.restrict_erase_of_not (decide_eq_false (not_not_intro hb)), rfl, fun _ _ => rfl⟩
  · exact keepsOutside_saveBinding hb

theorem keepsOutside_saveObject {o : ClusterSPIFFEID} (ho : scope.names o.name) :
    w.KeepsOutside scope (w.saveObject o) := by
  refine ⟨rfl, rfl, fun name hname => ?_⟩
  rw [World.saveObject, Store.get_put, if_neg]
  rintro rfl
  exact hname ho

/-- Nor does a call that stays in scope. -/
theorem Effect.keepsOutside {r : Reconciler} {c : Call} {fresh : GoString}
    (h : Effect c w fresh w') (hc : Confined r scope c) : w.KeepsOutside scope w' := by
  cases h with
  | updateBinding hstored =>
    exact keepsOutside_settleBinding ((Store.get_eq_some.mp hstored).2 ▸ hc)
  | patchBindingStatus hstored =>
    exact keepsOutside_saveBinding ((Store.get_eq_some.mp hstored).2 ▸ hc.1.namespace_)
  | @create owner _ object =>
    have hkeeps : w.KeepsOutside scope (w.saveObject (object.createdAs fresh)) :=
      keepsOutside_saveObject hc.1
    exact ⟨hkeeps.bindings, hkeeps.pools, hkeeps.objects⟩
  | updateObject => exact keepsOutside_saveObject hc.1
  | @terminate owner name uid _ stored _ hstored =>
    have hsame : stored.name = name := (Store.get_eq_some.mp hstored).2
    exact keepsOutside_saveObject (hsame ▸ hc)
  | @remove owner name uid _ stored _ hstored =>
    refine ⟨rfl, rfl, fun other hother => ?_⟩
    rw [World.dropObject, Store.get_erase, if_neg]
    rintro rfl
    exact hother hc
  | issue => exact ⟨rfl, rfl, fun _ _ => rfl⟩
  | none => exact World.KeepsOutside.refl scope w

/-! ## Noninterference -/

theorem Currently.effect {c : Call} {a : Answer c} (h : Currently c w a w') :
    ∃ fresh, Effect c w fresh w' := by
  obtain ⟨choice, -, hrespond⟩ := h
  have heffect := respond_effect choice c w
  rw [hrespond] at heffect
  exact ⟨choice.fresh, heffect⟩

/-- An answer from the current state is in scope, and leaves records that are. -/
theorem Currently.truthful {r : Reconciler} {c : Call} {a : Answer c} (h : Currently c w a w')
    (hc : Confined r scope c) (hw : w.RecordsIn scope) :
    Truthful scope c a ∧ w'.RecordsIn scope := by
  obtain ⟨fresh, heffect⟩ := h.effect
  obtain ⟨choice, hcurrent, hrespond⟩ := h
  have htruthful := truthful_respond choice c w fun b hb hmem => hw b (hmem hcurrent) hb
  rw [hrespond] at htruthful
  exact ⟨htruthful, heffect.recordsIn hc hw⟩

theorem currently_total (c : Call) (w : World) : ∃ a w', Currently c w a w' :=
  ⟨_, _, {}, rfl, rfl⟩

/-- A run that stays in scope can be repeated where nothing is different there. -/
theorem Stays.repeated {r : Reconciler} {α : Type} {Q : α → Prop} {p : Op α}
    (hp : Stays r scope Q p) (hE : Framing scope.names E) (hw : w.RecordsIn scope)
    (h : w.Agrees E scope.namespace_ w') {a : α} {v : World} (hrun : Leads Currently p w a v) :
    ∃ v', Leads Currently p w' a v' ∧ v.Agrees E scope.namespace_ v' := by
  suffices hsimulated : ∃ v', Leads Currently p w' a v' ∧
      v.RecordsIn scope ∧ v.Agrees E scope.namespace_ v' by
    obtain ⟨v', hrun', -, hagree⟩ := hsimulated
    exact ⟨v', hrun', hagree⟩
  -- that the records are in scope goes along, or a name that is looked up could be any
  refine hrun.simulates
    (F := fun s t : World => s.RecordsIn scope ∧ s.Agrees E scope.namespace_ t) ?_ hp ⟨hw, h⟩
  rintro c s t a s' hc ⟨hs, hagree⟩ hserved
  obtain ⟨htruthful, hs'⟩ := hserved.truthful hc hs
  obtain ⟨choice, hcurrent, hrespond⟩ := hserved
  obtain ⟨hanswer, hnext⟩ := respond_alike hE hcurrent hc hagree
  rw [hrespond] at hanswer hnext
  exact ⟨htruthful, (respond choice c t).2, ⟨choice, hcurrent, Prod.ext hanswer rfl⟩, hs', hnext⟩

theorem Stays.keepsOutside {r : Reconciler} {α : Type} {Q : α → Prop} {p : Op α}
    (hp : Stays r scope Q p) (hw : w.RecordsIn scope) {a : α} {v : World}
    (hrun : Leads Currently p w a v) : w.KeepsOutside scope v := by
  have hbounded := (hrun.within (J := fun s : World => s.RecordsIn scope)
    (fun hc hs hserved => hserved.truthful hc hs) hp hw).2
  refine hbounded.preserves (World.KeepsOutside.refl scope) World.KeepsOutside.trans ?_
  rintro c s a s' ⟨hc, hserved⟩
  obtain ⟨fresh, heffect⟩ := hserved.effect
  exact heffect.keepsOutside hc

/-- **Tenants do not interfere.** Take two states that agree in the namespace of a request, and on
the objects under the names that are recorded there or can be rendered there. What a reconcile of
the request can do and return in the one, with any faults of its calls, it can do and return in the
other, and the states it leaves agree in the same way. Besides, in both it changes no binding of
another namespace, no pool, and no object under another name. -/
theorem reconcile_noninterference (r : Reconciler) {key : NamespacedName} {w w' : World}
    (hagree : w.AgreesFor (w.scopeOf r key.namespace_) w') {a : Except GoError ReconcileResult}
    {v : World} (hrun : Leads Currently (r.reconcile key) w a v) :
    w.KeepsOutside (w.scopeOf r key.namespace_) v ∧
      ∃ v', Leads Currently (r.reconcile key) w' a v' ∧
        v.AgreesFor (w.scopeOf r key.namespace_) v' ∧
        w'.KeepsOutside (w.scopeOf r key.namespace_) v' := by
  have hstays : Stays r (w.scopeOf r key.namespace_) (fun _ => True) (r.reconcile key) :=
    stays_reconcile (w.scopeOf_renders r key.namespace_) rfl
  have hw := w.recordsIn_scopeOf r key.namespace_
  obtain ⟨v', hrun', hagree'⟩ := hstays.repeated (framing_sameUnder _) hw hagree hrun
  exact ⟨hstays.keepsOutside hw hrun, v', hrun', hagree',
    hstays.keepsOutside (hagree.recordsIn hw) hrun'⟩

/-- A hash that tells the identities of the namespace `m` from all others. -/
def tenantSHA1 (input : GoString) : List UInt8 :=
  if input.take 15 = str "spiffe://t/ns/m" then List.replicate 20 1 else List.replicate 20 2

/-- The operator for the trust domain `t`. -/
def tenantReconciler : Reconciler :=
  ⟨referencePlatform tenantSHA1 fun _ => [], ⟨str "t", []⟩, []⟩

/-- A binding of the same name in a second namespace. -/
def tenantBinding : Binding := { smallBinding "x" "v" with key := ⟨str "m", str "x"⟩ }

/-- Its pool. -/
def tenantPool : InferencePool := { smallPool with namespace_ := str "m" }

/-- What it is rendered to. -/
def tenantPlan : Plan where
  spiffeID := str "spiffe://t/ns/m/sa/s/inference/pool/p/variant/v"
  selectors := [str "k8s:ns:m", str "k8s:pod-label:a:b",
    str "k8s:pod-label:identity.kleym.sonda.red/variant:v", str "k8s:sa:s"]
  podSelector := .object [(str "matchLabels", .object [(str "a", .string (str "b"))])]
  identityAnchor := ⟨str "pool", str "p"⟩
  variant := str "v"

/-- Its output. -/
def tenantOutput : ClusterSPIFFEID :=
  desiredClusterSPIFFEID tenantReconciler.platform tenantBinding.key tenantPlan []

/-- The small cluster with the second tenant. -/
def tenantCluster : World :=
  { smallCluster "q" with
    bindings := (smallCluster "q").bindings.put tenantBinding
    pools := (smallCluster "q").pools.put tenantPool
    objects := Store.empty.put tenantOutput }

/-- No binding of the namespace `n` is rendered to that name. -/
theorem tenant_name_notIn :
    ¬((smallCluster "q").scopeOf tenantReconciler (str "n")).names tenantOutput.name := by
  rintro (⟨b, hb, -, hrecords⟩ | ⟨b, pool, plan, hb, hplan, hname⟩)
  · have hnone : (smallCluster "q").bindings.entries.all fun b =>
        b.status.pendingClusterSPIFFEID.isNone && b.status.ownedClusterSPIFFEID.isNone := by
      decide +kernel
    have hunrecorded := List.all_eq_true.mp hnone b hb
    rw [Bool.and_eq_true, Option.isNone_iff_eq_none, Option.isNone_iff_eq_none] at hunrecorded
    rcases hrecords with ⟨pending, hpending, -⟩ | ⟨owned, howned, -⟩
    · rw [hunrecorded.1] at hpending
      cases hpending
    · rw [hunrecorded.2] at howned
      cases howned
  · obtain ⟨target, -, hplanned⟩ := planIdentity_of_renderIdentity hplan
    obtain ⟨-, -, rfl⟩ := planIdentity_eq_ok_iff.mp hplanned
    -- the two SPIFFE IDs have different hashes, and a name ends in eight digits of the hash
    have hhash : hashSuffix tenantReconciler.platform
        (tenantReconciler.planInput b target).plan.spiffeID = str "02020202" := by
      have hid : (tenantReconciler.planInput b target).plan.spiffeID.take 15 =
          str "spiffe://t/ns/n" := by
        rw [PlanInput.plan, Reconciler.planInput, hb, renderInferenceTargetSPIFFEID]
        rfl
      have hsha : tenantReconciler.platform.sha1
          (tenantReconciler.planInput b target).plan.spiffeID = List.replicate 20 2 := by
        change tenantSHA1 _ = _
        rw [tenantSHA1, hid, if_neg (by decide)]
      rw [hashSuffix, hsha]
      decide
    have hother : hashSuffix tenantReconciler.platform tenantPlan.spiffeID = str "01010101" := by
      decide
    change desiredName _ tenantBinding.key tenantPlan = _ at hname
    rw [desiredName, desiredName, buildClusterSPIFFEIDName_eq, buildClusterSPIFFEIDName_eq, hhash,
      hother] at hname
    exact absurd (List.append_inj' hname rfl).2 (by decide)

/-- A second tenant moves in, with an output of its own: what a reconcile of the first does stays
possible, and the output stays as it is. -/
theorem reconcile_noninterference_small :
    tenantReconciler.renderIdentity tenantBinding tenantPool = .ok tenantPlan ∧ ∃ a v v',
      Leads Currently (tenantReconciler.reconcile (smallBinding "x" "v").key) (smallCluster "q")
        a v ∧
      Leads Currently (tenantReconciler.reconcile (smallBinding "x" "v").key) tenantCluster a v' ∧
      v.AgreesFor ((smallCluster "q").scopeOf tenantReconciler (str "n")) v' ∧
      v'.objects.get tenantOutput.name = some tenantOutput := by
  have hagree : (smallCluster "q").AgreesFor ((smallCluster "q").scopeOf tenantReconciler
      (smallBinding "x" "v").key.namespace_) tenantCluster := by
    refine ⟨Store.restrict_put_of_not (by decide), Store.restrict_put_of_not (by decide),
      fun name hname => ?_, rfl, rfl⟩
    rw [tenantCluster, Store.get_put, if_neg]
    · rfl
    · rintro rfl
      exact tenant_name_notIn hname
  obtain ⟨a, v, hrun⟩ := Leads.total currently_total
    (tenantReconciler.reconcile (smallBinding "x" "v").key) (smallCluster "q")
  obtain ⟨-, v', hrun', hagree', hkeeps⟩ := reconcile_noninterference tenantReconciler hagree hrun
  refine ⟨by rfl, a, v, v', hrun, hrun', hagree', ?_⟩
  rw [hkeeps.objects _ tenant_name_notIn, tenantCluster, Store.get_put, if_pos rfl]

/-! ## Whom the event of a binding reaches -/

/-- Two states that differ in the binding stored under `key` only: it may be absent in either,
and have any content where it is not. -/
structure World.DiffersOnlyIn (key : NamespacedName) (w w' : World) : Prop where
  bindings : w'.bindings.erase key = w.bindings.erase key
  pools : w'.pools = w.pools
  objects : w'.objects = w.objects
  served : w'.served = w.served
  revision : w'.revision = w.revision

/-- Such states agree in every other namespace. -/
theorem World.DiffersOnlyIn.agreesIn {key : NamespacedName} (h : w.DiffersOnlyIn key w')
    (hkey : key.namespace_ ≠ namespace_) : w.AgreesIn namespace_ w' := by
  refine ⟨?_, ?_, h.objects, h.served, h.revision⟩
  · have herase : ∀ v : World, v.bindingsIn namespace_ =
        (v.bindings.erase key).restrict fun k => k.namespace_ = namespace_ :=
      fun v => (Store.restrict_erase_of_not (s := v.bindings) (k := key)
        (p := fun k => decide (k.namespace_ = namespace_)) (decide_eq_false hkey)).symm
    rw [herase, herase, h.bindings]
  · rw [World.poolsIn, World.poolsIn, h.pools]

theorem mem_mapBindingToPeers {list : BindingLister} (hlist : list.Exact w)
    {request : NamespacedName} :
    request ∈ mapBindingToPeers list namespace_ ↔
      request.namespace_ = namespace_ ∧ ∃ b ∈ w.bindings.entries, b.key = request := by
  constructor
  · intro h
    obtain ⟨items, hitems, hperm⟩ := hlist ⟨some namespace_, none⟩
    rw [mapBindingToPeers, hitems] at h
    obtain ⟨b, hb, rfl⟩ := mem_requestsForBindings.mp h
    obtain ⟨hstored, hselected⟩ := List.mem_filter.mp (hperm.mem_iff.mp hb)
    exact ⟨by simpa [ListOptions.selects] using hselected, b, hstored, rfl⟩
  · rintro ⟨hnamespace, b, hb, rfl⟩
    exact (mapBindingToPeers_spec hlist namespace_).1 b hb hnamespace

/-- **The fan-out of a binding event is complete and stays in the namespace.** The requests made
for an event of a binding are the stored bindings of its namespace. Whenever the reconcile of a
stored binding can do something with the event's binding as it is that it could not do with any
other content of it, that binding is among them. -/
theorem mapBindingToPeers_complete (r : Reconciler) {key : NamespacedName} {w' : World}
    {list : BindingLister} (hlist : list.Exact w') :
    (∀ request, request ∈ mapBindingToPeers list key.namespace_ ↔
      request.namespace_ = key.namespace_ ∧ ∃ b ∈ w'.bindings.entries, b.key = request) ∧
    ∀ w : World, w'.DiffersOnlyIn key w → ∀ b ∈ w'.bindings.entries,
      ∀ a v', Leads Currently (r.reconcile b.key) w' a v' →
      (¬∃ v, Leads Currently (r.reconcile b.key) w a v ∧ v'.AgreesIn b.key.namespace_ v) →
      b.key ∈ mapBindingToPeers list key.namespace_ := by
  refine ⟨fun request => mem_mapBindingToPeers hlist, ?_⟩
  intro w hdiffer b hb a v' hrun hnone
  refine (mem_mapBindingToPeers hlist).mpr ⟨?_, b, hb, rfl⟩
  by_contra hother
  have hstays := stays_whole r b.key
  have hwhole : w'.RecordsIn (.whole b.key.namespace_) := fun _ _ => Binding.in_whole
  exact hnone (hstays.repeated (framing_eq _) hwhole (hdiffer.agreesIn (Ne.symm hother)) hrun)

/-- A listing of the two tenants. -/
def listTenants : BindingLister :=
  fun options => .ok (tenantCluster.bindings.entries.filter options.selects)

/-- The same cluster before the peer `n/y` is there. -/
def tenantClusterBefore : World :=
  { tenantCluster with bindings := tenantCluster.bindings.erase (smallPeer "q").key }

/-- A call adds no binding. -/
theorem get_eq_none_of_effect {c : Call} {fresh : GoString} (h : Effect c w fresh w')
    {key : NamespacedName} (habsent : w.bindings.get key = none) :
    w'.bindings.get key = none := by
  have hne : ∀ {k : NamespacedName} {stored : Binding}, w.bindings.get k = some stored →
      stored.key ≠ key := by
    rintro k stored hstored rfl
    have hget : w.bindings.get stored.key = some stored :=
      Store.get_eq_some.mpr ⟨(Store.get_eq_some.mp hstored).1, rfl⟩
    rw [habsent] at hget
    cases hget
  have hsaved : ∀ {b : Binding}, b.key ≠ key → (w.saveBinding b).bindings.get key = none := by
    intro b hb
    rw [World.saveBinding, Store.get_put, if_neg hb, habsent]
  cases h with
  | @updateBinding b stored _ _ hstored =>
    rw [World.settleBinding]
    split_ifs
    · rw [World.dropBinding, Store.get_erase, habsent, ite_self]
    · have hother := hne hstored
      exact hsaved hother
  | patchBindingStatus hstored =>
    have hother := hne hstored
    exact hsaved hother
  | _ => exact habsent

/-- When `n/y` appears, `n/x` could notice it and is asked to look again. The second tenant could
not, and is not asked. -/
theorem mapBindingToPeers_complete_small :
    (∃ a v', Leads Currently (tenantReconciler.reconcile (smallBinding "x" "v").key) tenantCluster
        a v' ∧
      ¬∃ v, Leads Currently (tenantReconciler.reconcile (smallBinding "x" "v").key)
        tenantClusterBefore a v ∧ v'.AgreesIn (str "n") v) ∧
    (smallBinding "x" "v").key ∈ mapBindingToPeers listTenants (str "n") ∧
    tenantBinding.key ∉ mapBindingToPeers listTenants (str "n") := by
  have hlist : listTenants.Exact tenantCluster := fun options => ⟨_, rfl, .refl _⟩
  obtain ⟨hmem, hnotice⟩ :=
    @mapBindingToPeers_complete tenantReconciler (smallPeer "q").key tenantCluster listTenants hlist
  have hdiffer : tenantCluster.DiffersOnlyIn (smallPeer "q").key tenantClusterBefore :=
    ⟨Store.ext (by decide +kernel), rfl, rfl, rfl, rfl⟩
  -- the first call fails, and nothing has happened
  have hrun : Leads Currently (tenantReconciler.reconcile (smallBinding "x" "v").key) tenantCluster
      (.error ⟨.other, str "timeout"⟩) tenantCluster :=
    ⟨.error ⟨.other, str "timeout"⟩, tenantCluster,
      ⟨{ fault := .refused ⟨.other, str "timeout"⟩ }, rfl, rfl⟩, rfl, rfl⟩
  have hnone : ¬∃ v, Leads Currently (tenantReconciler.reconcile (smallBinding "x" "v").key)
      tenantClusterBefore (.error ⟨.other, str "timeout"⟩) v ∧
        tenantCluster.AgreesIn (str "n") v := by
    rintro ⟨v, hbefore, hagree⟩
    have habsent : v.bindings.get (smallPeer "q").key = none := by
      refine hbefore.preserves (F := fun s s' : World => s.bindings.get (smallPeer "q").key = none →
        s'.bindings.get (smallPeer "q").key = none) (fun _ => id) (fun h h' => h' ∘ h) ?_
        (by decide +kernel)
      intro c s a s' hserved
      obtain ⟨fresh, heffect⟩ := hserved.effect
      exact get_eq_none_of_effect heffect
    have hpresent : tenantCluster.bindings.get (smallPeer "q").key = some (smallPeer "q") := by
      decide +kernel
    rw [← hagree.get rfl, habsent] at hpresent
    cases hpresent
  have hx : smallBinding "x" "v" ∈ tenantCluster.bindings.entries := by decide +kernel
  refine ⟨⟨_, _, hrun, hnone⟩, hnotice _ hdiffer _ hx _ _ hrun hnone, fun h => ?_⟩
  have hnamespace := ((hmem _).mp h).1
  revert hnamespace
  decide

end

end Kleym
