import Kleym.Isolation

/-!
# From a watch event to reconcile requests

The maps of `internal/controller` that turn the event of a pool, a binding or a
`ClusterSPIFFEID` into the bindings to reconcile. The reads of a map go through field
indexes; an index is exact when it lists the bindings whose indexer function yields the
value asked for.

The outcome of a binding depends on the pool it refers to and, through the conflict
evaluation, on the pools of all its neighbours. Which pools that are is decided by the
resolver, from trimmed names and optional trimmed groups; whom a pool event reaches is
decided by the index function and a group filter of the map. The result of this module is
that the two agree: whoever sees a change of a pool is asked to look again.
-/

namespace Kleym

open GoString Prog

/-! ## The maps -/

/-- `compactIndexValues`: trimmed, without the empty ones and later repetitions. -/
def compactIndexValues (values : List GoString) : List GoString :=
  (values.map trimSpace).foldl
    (fun result value => if value = [] ∨ value ∈ result then result else result ++ [value]) []

/-- `bindingPoolRefNameIndexValue`. -/
def bindingPoolRefNameIndexValue (binding : Binding) : List GoString :=
  if trimSpace binding.spec.poolRef.name = [] then [] else [trimSpace binding.spec.poolRef.name]

/-- `bindingClusterSPIFFEIDNameIndexValues`. -/
def bindingClusterSPIFFEIDNameIndexValues (binding : Binding) : List GoString :=
  compactIndexValues
    ((binding.status.pendingClusterSPIFFEID.map PendingClusterSPIFFEIDStatus.name).toList ++
      (binding.status.ownedClusterSPIFFEID.map OwnedClusterSPIFFEIDStatus.name).toList)

/-- The indexes of `setupFieldIndexes`. -/
inductive FieldIndex : Type where
  | poolRefName
  | managedClusterSPIFFEIDName

/-- The indexer function of an index. -/
def FieldIndex.values : FieldIndex → Binding → List GoString
  | .poolRefName => bindingPoolRefNameIndexValue
  | .managedClusterSPIFFEIDName => bindingClusterSPIFFEIDNameIndexValues

/-- The options of a list call: `client.InNamespace` and `client.MatchingFields`. -/
structure ListOptions where
  namespace_ : Option GoString := none
  matching : Option (FieldIndex × GoString) := none

/-- The bindings a list call asks for. -/
def ListOptions.selects (options : ListOptions) (binding : Binding) : Bool :=
  (options.namespace_.all fun namespace_ => binding.key.namespace_ = namespace_) &&
    options.matching.all fun field => field.2 ∈ field.1.values binding

/-- `r.List` of bindings, as the maps use it. -/
abbrev BindingLister : Type := ListOptions → Except GoError (List Binding)

/-- `NamespacedName.String`, which requests are sorted by. -/
def requestText (request : NamespacedName) : GoString :=
  request.namespace_ ++ str "/" ++ request.name

/-- `requestsForBindings`. -/
def requestsForBindings (bindings : List Binding) : List NamespacedName :=
  (bindings.map Binding.key).insertionSort fun a b => requestText a ≤ requestText b

/-- `listBindingsReferencingPool`. -/
def listBindingsReferencingPool (list : BindingLister) (namespace_ poolName : GoString) :
    Except GoError (List Binding) :=
  list ⟨some namespace_, some (.poolRefName, poolName)⟩

/-- `listBindingsByManagedClusterSPIFFEIDName`. -/
def listBindingsByManagedClusterSPIFFEIDName (list : BindingLister) (name : GoString) :
    Except GoError (List Binding) :=
  list ⟨none, some (.managedClusterSPIFFEIDName, name)⟩

/-- `mapBindingToPeers`, for a binding in `namespace_`. -/
def mapBindingToPeers (list : BindingLister) (namespace_ : GoString) : List NamespacedName :=
  match list ⟨some namespace_, none⟩ with
  | .error _ => []
  | .ok peers => requestsForBindings peers

/-- The group filter of `mapPoolToBindings`. -/
def refersToGroup (poolGroup : GoString) (binding : Binding) : Bool :=
  ¬(trimSpace binding.spec.poolRef.group ≠ [] ∧ poolGroup ≠ [] ∧
    trimSpace binding.spec.poolRef.group ≠ poolGroup)

/-- `mapPoolToBindings`. -/
def mapPoolToBindings (list : BindingLister) (object : InferencePool) : List NamespacedName :=
  match listBindingsReferencingPool list object.namespace_ object.name with
  | .error _ => []
  | .ok bindings =>
    if (bindings.filter (refersToGroup object.gvk.group)).length = 0 then []
    else mapBindingToPeers list object.namespace_

/-- `mapClusterSPIFFEIDToBindings`, for an object called `name`. -/
def mapClusterSPIFFEIDToBindings (list : BindingLister) (name : GoString) : List NamespacedName :=
  match listBindingsByManagedClusterSPIFFEIDName list name with
  | .error _ => []
  | .ok bindings => requestsForBindings bindings

/-- Every list call succeeds and returns exactly what it asks for, in some order. -/
def BindingLister.Exact (list : BindingLister) (w : World) : Prop :=
  ∀ options, ∃ items, list options = .ok items ∧
    items.Perm (w.bindings.entries.filter options.selects)

/-! ## Requests -/

theorem mem_requestsForBindings {bindings : List Binding} {request : NamespacedName} :
    request ∈ requestsForBindings bindings ↔ ∃ b ∈ bindings, b.key = request := by
  rw [requestsForBindings, List.mem_insertionSort, List.mem_map]

section Requests

variable {list : BindingLister} {w : World}

/-- The neighbours of a namespace, each once and in order. -/
theorem mapBindingToPeers_spec (hlist : list.Exact w) (namespace_ : GoString) :
    (∀ b ∈ w.bindings.entries, b.key.namespace_ = namespace_ →
      b.key ∈ mapBindingToPeers list namespace_) ∧
    (mapBindingToPeers list namespace_).Pairwise
      fun a b => requestText a < requestText b := by
  obtain ⟨items, hitems, hperm⟩ := hlist ⟨some namespace_, none⟩
  rw [mapBindingToPeers, hitems]
  refine ⟨fun b hb hnamespace => mem_requestsForBindings.mpr ⟨b, ?_, rfl⟩, ?_⟩
  · refine hperm.mem_iff.mpr (List.mem_filter.mpr ⟨hb, ?_⟩)
    simp [ListOptions.selects, hnamespace]
  · have hkeys : (items.map Binding.key).Nodup :=
      (hperm.map Binding.key).nodup_iff.mpr
        (w.bindings.nodup.sublist (List.filter_sublist.map Binding.key))
    have hnamespace : ∀ key ∈ items.map Binding.key, key.namespace_ = namespace_ := by
      intro key hkey
      obtain ⟨b, hb, rfl⟩ := List.mem_map.mp hkey
      simpa [ListOptions.selects] using (List.mem_filter.mp (hperm.mem_iff.mp hb)).2
    refine pairwise_lt_insertionSort requestText ((List.nodup_map_iff_inj_on hkeys).mpr ?_)
    -- in one namespace the name is what is left of the text
    intro key hkey key' hkey' htext
    obtain ⟨namespace₁, name₁⟩ := key
    obtain ⟨namespace₂, name₂⟩ := key'
    obtain rfl : namespace₁ = namespace_ := hnamespace _ hkey
    obtain rfl : namespace₂ = namespace₁ := hnamespace _ hkey'
    simpa [requestText] using htext

/-- An event of a pool that somebody in the namespace may read reaches everybody there. -/
theorem mem_mapPoolToBindings (hlist : list.Exact w) {object : InferencePool} {b peer : Binding}
    (hb : b ∈ w.bindings.entries) (hnamespace : b.key.namespace_ = object.namespace_)
    (hpeer : peer ∈ w.bindings.entries)
    (hread : peer.MayRead object.gvk ⟨object.namespace_, object.name⟩) :
    b.key ∈ mapPoolToBindings list object := by
  obtain ⟨hkey, hname, hgroup⟩ := hread
  rw [NamespacedName.mk.injEq] at hkey
  obtain ⟨items, hitems, hperm⟩ := hlist ⟨some object.namespace_, some (.poolRefName, object.name)⟩
  have hlisted : peer ∈ items := by
    refine hperm.mem_iff.mpr (List.mem_filter.mpr ⟨hpeer, ?_⟩)
    simp [ListOptions.selects, FieldIndex.values, bindingPoolRefNameIndexValue, hname, hkey.1, hkey.2]
  have hkept : peer ∈ items.filter (refersToGroup object.gvk.group) := by
    refine List.mem_filter.mpr ⟨hlisted, decide_eq_true ?_⟩
    rintro ⟨hgiven, -, hother⟩
    exact hother (hgroup hgiven).symm
  rw [mapPoolToBindings, listBindingsReferencingPool, hitems]
  dsimp only
  rw [if_neg (List.length_pos_of_mem hkept).ne']
  exact (mapBindingToPeers_spec hlist object.namespace_).1 b hb hnamespace

theorem pairwise_mapPoolToBindings (hlist : list.Exact w) (object : InferencePool) :
    (mapPoolToBindings list object).Pairwise fun a b => requestText a < requestText b := by
  rw [mapPoolToBindings]
  split
  · exact .nil
  · split_ifs
    · exact .nil
    · exact (mapBindingToPeers_spec hlist object.namespace_).2

end Requests

/-! ## States that differ in one pool -/

/-- Two states that differ in nothing but the pool stored under `key`: it may be absent
in either, and have any content where it is not. -/
def World.DiffersOnlyAt (key : GroupVersionKind × NamespacedName) (w w' : World) : Prop :=
  w' = { w with pools := w'.pools } ∧ ∀ k, k ≠ key → w'.pools.get k = w.pools.get k

/-- A call that is not a read of the pool under `key`. -/
def BlindTo (key : GroupVersionKind × NamespacedName) : Call → Prop
  | .getPool gvk name => (gvk, name) ≠ key
  | _ => True

theorem Fault.strike_map {β : Type} (fault : Fault) (f : World → World) (w : World)
    (served : Except GoError β × World) :
    fault.strike (f w) (served.1, f served.2) =
      ((fault.strike w served).1, f (fault.strike w served).2) := by
  cases fault <;> rfl

section Pools

variable (w : World) (pools : Store InferencePool.key)

theorem settleBinding_withPools (b : Binding) :
    { w with pools := pools }.settleBinding b = { w.settleBinding b with pools := pools } := by
  rw [World.settleBinding, World.settleBinding]
  split_ifs <;> rfl

theorem replaceBinding_withPools (b : Binding) :
    { w with pools := pools }.replaceBinding b =
      ((w.replaceBinding b).1, { (w.replaceBinding b).2 with pools := pools }) := by
  rw [World.replaceBinding, World.replaceBinding]
  rcases w.bindings.get b.key with _ | stored
  · rfl
  · dsimp only
    split_ifs
    · rfl
    · rw [settleBinding_withPools]

theorem patchStatusOf_withPools (base : Binding) (status : Status) :
    { w with pools := pools }.patchStatusOf base status =
      ((w.patchStatusOf base status).1, { (w.patchStatusOf base status).2 with pools := pools }) := by
  rw [World.patchStatusOf, World.patchStatusOf]
  rcases w.bindings.get base.key with _ | stored
  · rfl
  · dsimp only
    split_ifs <;> rfl

theorem createObject_withPools (fresh owner : GoString) (object : ClusterSPIFFEID) :
    { w with pools := pools }.createObject fresh owner object =
      ((w.createObject fresh owner object).1,
        { (w.createObject fresh owner object).2 with pools := pools }) := by
  rw [World.createObject, World.createObject]
  split_ifs
  · rcases w.objects.get object.name with _ | stored <;> rfl
  · rfl

theorem replaceObject_withPools (object : ClusterSPIFFEID) :
    { w with pools := pools }.replaceObject object =
      ((w.replaceObject object).1, { (w.replaceObject object).2 with pools := pools }) := by
  rw [World.replaceObject, World.replaceObject]
  rcases w.objects.get object.name with _ | stored
  · rfl
  · dsimp only
    split_ifs <;> rfl

theorem deleteObject_withPools (lingers : Bool) (name uid : GoString) :
    { w with pools := pools }.deleteObject lingers name uid =
      ((w.deleteObject lingers name uid).1,
        { (w.deleteObject lingers name uid).2 with pools := pools }) := by
  rw [World.deleteObject, World.deleteObject]
  rcases w.objects.get name with _ | stored
  · rfl
  · dsimp only
    split_ifs <;> rfl

end Pools

/-- A call that does not read the pool gets one answer in both states, and leaves states
that differ as they did. -/
theorem respond_differsOnlyAt {key : GroupVersionKind × NamespacedName} (choice : Choice) (c : Call)
    (w w' : World) (hc : BlindTo key c) (h : w.DiffersOnlyAt key w') :
    (respond choice c w').1 = (respond choice c w).1 ∧
      (respond choice c w).2.DiffersOnlyAt key (respond choice c w').2 := by
  obtain ⟨hsame, hpools⟩ := h
  generalize w'.pools = pools at hsame hpools
  subst hsame
  -- no call but the read of a pool sees the pools, and none changes them
  have hview : (respond choice c w).2.pools = w.pools :=
    congrArg Prod.fst (poolView_respond choice c w)
  suffices hrespond : respond choice c { w with pools := pools } =
      ((respond choice c w).1, { (respond choice c w).2 with pools := pools }) by
    rw [hrespond]
    refine ⟨rfl, rfl, fun k hk => ?_⟩
    rw [hview]
    exact hpools k hk
  let f : World → World := fun v => { v with pools := pools }
  cases c with
  | getBinding k => exact choice.fault.strike_map f w (w.readBinding choice.reading k, w)
  | listBindings reader namespace_ =>
    exact choice.fault.strike_map f w
      (.ok (w.readBindings choice.reading choice.order.1 namespace_), w)
  | updateBinding b =>
    rw [respond, replaceBinding_withPools]
    exact choice.fault.strike_map f w (w.replaceBinding b)
  | patchBindingStatus kind base status =>
    rw [respond, patchStatusOf_withPools]
    exact choice.fault.strike_map f w (w.patchStatusOf base status)
  | getPool gvk k =>
    have hread : { w with pools := pools }.readPool gvk k = w.readPool gvk k := by
      rw [World.readPool, World.readPool, hpools _ hc]
    rw [respond, hread]
    exact choice.fault.strike_map f w (w.readPool gvk k, w)
  | getClusterSPIFFEID name =>
    exact choice.fault.strike_map f w (w.readObject choice.reading name, w)
  | createClusterSPIFFEID owner object =>
    rw [respond, createObject_withPools]
    exact choice.fault.strike_map f w (w.createObject choice.fresh owner object)
  | updateClusterSPIFFEID owner object =>
    rw [respond, replaceObject_withPools]
    exact choice.fault.strike_map f w (w.replaceObject object)
  | deleteClusterSPIFFEID owner name uid =>
    rw [respond, deleteObject_withPools]
    exact choice.fault.strike_map f w (w.deleteObject choice.lingers name uid)
  | newUUID owner => rfl
  | recordTerminalOutcome status => rfl
  | recordEvent warning reason message => rfl

/-! ## Completeness -/

/-- A cluster that serves each call under the choice made for it. -/
abbrev serving (choose : Call → Choice) : (c : Call) → World → Answer c × World :=
  fun c => respond (choose c) c

/-- A piece of code has the same outcome in two states: it returns the same, and it leaves
states that differ in no more than the pool again. -/
def SameOutcome {α : Type} (choose : Call → Choice) (key : GroupVersionKind × NamespacedName)
    (p : Op α) (w w' : World) : Prop :=
  (exec (serving choose) p w').1 = (exec (serving choose) p w).1 ∧
    (exec (serving choose) p w).2.DiffersOnlyAt key (exec (serving choose) p w').2

section Complete

variable {choose : Call → Choice} {key : GroupVersionKind × NamespacedName} {w w' : World}
  {r : Reconciler} {b : Binding}

theorem sameOutcome_of_always {α : Type} {Q : α → Prop} {p : Op α} (hp : Always (BlindTo key) Q p)
    (h : w.DiffersOnlyAt key w') : SameOutcome choose key p w w' :=
  exec_related (serving choose) (fun c => respond_differsOnlyAt (choose c) c) hp h

theorem allows_blindTo (h : ¬b.MayRead key.1 key.2) : Allows (BlindTo key) b :=
  ⟨fun _ _ hread heq => h (heq ▸ hread), fun _ => trivial, fun _ _ _ _ => trivial⟩

/-- Rendering sees the pools the binding may read. -/
theorem sameOutcome_computeDesiredState (hb : ¬b.MayRead key.1 key.2)
    (h : w.DiffersOnlyAt key w') : SameOutcome choose key (r.computeDesiredState b) w w' :=
  sameOutcome_of_always (always_computeDesiredState (allows_blindTo hb).pool) h

/-- How `evaluateBindingConflicts` goes on with the listing. -/
def evaluateListed (r : Reconciler) (b : Binding) (identity : Plan) :
    Except GoError (List Binding) → Op (Except GoError BindingConflictState)
  | .error err => ret (.error err)
  | .ok items => do
    match ← Prog.foldM (r.scanPeer b identity) items ⟨[], [], []⟩ with
    | .error err => ret (.error err)
    | .ok scan => ret (.ok (Reconciler.conflictStateOf b scan))

theorem always_evaluateListed {items : List Binding}
    (hitems : ∀ peer ∈ items, ¬peer.MayRead key.1 key.2) (identity : Plan) :
    Always (BlindTo key) (fun _ => True) (evaluateListed r b identity (.ok items)) := by
  refine (Always.foldM fun peer hpeer scan => ?_).bind ?_
  · refine (always_identityForConflictEvaluation (allows_blindTo (hitems peer hpeer))
      (.refl peer) b identity).bind ?_
    rintro ⟨peer', err | _ | _ | _⟩ - <;> trivial
  · rintro (err | scan) - <;> trivial

/-- The evaluation sees the pools that the bindings of the namespace may read. -/
theorem sameOutcome_evaluateBindingConflicts (hcurrent : ∀ c, (choose c).reading = .current)
    (hpeers : ∀ peer ∈ w.bindings.entries, peer.key.namespace_ = b.key.namespace_ →
      ¬peer.MayRead key.1 key.2)
    (identity : Plan) (h : w.DiffersOnlyAt key w') :
    SameOutcome choose key (r.evaluateBindingConflicts b identity) w w' := by
  let listing := Call.listBindings b.key b.key.namespace_
  have hcons : ∀ v, exec (serving choose) (r.evaluateBindingConflicts b identity) v =
      exec (serving choose) (evaluateListed r b identity (respond (choose listing) listing v).1)
        (respond (choose listing) listing v).2 := fun _ => rfl
  obtain ⟨hanswer, hnext⟩ := respond_differsOnlyAt (choose listing) listing w w' trivial h
  -- the listing is the same in both; what follows reads only pools of those it lists
  rw [SameOutcome, hcons, hcons, hanswer]
  refine sameOutcome_of_always (Q := fun _ => True) ?_ hnext
  rcases hread : respond (choose listing) listing w with ⟨err | items, w₁⟩
  · trivial
  · have hserved := Fault.strike_ok hread
    rw [hcurrent] at hserved
    cases hserved
    refine always_evaluateListed (fun peer hpeer => ?_) identity
    have hlisted := (World.readBindings_current (choose listing).order.2 _).mem_iff.mp hpeer
    obtain ⟨hmem, hnamespace⟩ := List.mem_filter.mp hlisted
    exact hpeers peer hmem (of_decide_eq_true hnamespace)

/-- **The fan-out of a pool event is complete.** Take two states that differ in one pool at
most, and a binding for which `computeDesiredState` or `evaluateBindingConflicts` comes out
differently in the two. The requests made for an event of that pool contain the binding; and
they are sorted, without repetition. -/
theorem mapPoolToBindings_complete (r : Reconciler) {object : InferencePool} {w w' : World}
    (hdiffer : w.DiffersOnlyAt object.key w') {list : BindingLister} (hlist : list.Exact w)
    {choose : Call → Choice} (hcurrent : ∀ c, (choose c).reading = .current) :
    (∀ stored ∈ w.bindings.entries, ∀ b : Binding, b.key = stored.key → b.spec = stored.spec →
      (¬SameOutcome choose object.key (r.computeDesiredState b) w w' ∨
        ∃ identity, ¬SameOutcome choose object.key (r.evaluateBindingConflicts b identity) w w') →
      stored.key ∈ mapPoolToBindings list object) ∧
    (mapPoolToBindings list object).Pairwise (fun a b => requestText a < requestText b) ∧
    (mapPoolToBindings list object).Nodup := by
  have hsorted := pairwise_mapPoolToBindings hlist object
  refine ⟨?_, hsorted, hsorted.imp fun hlt heq => hlt.ne (congrArg requestText heq)⟩
  rintro stored hstored b hkey hspec (hrendered | ⟨identity, hevaluated⟩)
  · have hread : b.MayRead object.gvk ⟨object.namespace_, object.name⟩ := by
      by_contra hnot
      exact hrendered (sameOutcome_computeDesiredState hnot hdiffer)
    have hstoredRead : stored.MayRead object.gvk ⟨object.namespace_, object.name⟩ := by
      rw [Binding.MayRead, hkey, hspec] at hread
      exact hread
    have hnamespace := congrArg NamespacedName.namespace_ hstoredRead.1
    exact mem_mapPoolToBindings hlist hstored hnamespace.symm hstored hstoredRead
  · obtain ⟨peer, hpeer, hnamespace, hread⟩ : ∃ peer ∈ w.bindings.entries,
        peer.key.namespace_ = b.key.namespace_ ∧
        peer.MayRead object.gvk ⟨object.namespace_, object.name⟩ := by
      by_contra hnone
      refine hevaluated (sameOutcome_evaluateBindingConflicts hcurrent ?_ identity hdiffer)
      exact fun peer hpeer hnamespace hread => hnone ⟨peer, hpeer, hnamespace, hread⟩
    have hpool := congrArg NamespacedName.namespace_ hread.1
    exact mem_mapPoolToBindings hlist hstored (by rw [← hkey, ← hnamespace]; exact hpool.symm)
      hpeer hread

/-- When the pool of a binding goes, the binding is asked to look again. -/
theorem mapPoolToBindings_complete_small :
    (smallBinding "x" "v").key ∈ mapPoolToBindings
      (fun options => .ok ((smallCluster "q").bindings.entries.filter options.selects)) smallPool := by
  have hdiffer : (smallCluster "q").DiffersOnlyAt smallPool.key
      { smallCluster "q" with pools := .empty } := by
    refine ⟨rfl, fun k hk => ?_⟩
    change Store.empty.get k = (Store.empty.put smallPool).get k
    rw [Store.get_put, if_neg hk.symm]
  refine (mapPoolToBindings_complete smallReconciler hdiffer
    (fun options => ⟨_, rfl, .refl _⟩) (fun c => (rfl : ((fun _ => {}) c : Choice).reading = _))).1
    (smallBinding "x" "v") (by decide +kernel) (smallBinding "x" "v") rfl rfl
    (Or.inl fun hsame => ?_)
  have hrendered := congrArg Except.isOk hsame.1
  revert hrendered
  decide +kernel

end Complete

end Kleym
