import Kleym.Naming
import Kleym.Unstructured

/-!
# Drift of managed outputs

`ClusterSPIFFEIDInSync` compares a live object with the desired one, and
`MergeDesiredClusterSPIFFEID` puts the desired fields onto the live object. They are two
implementations over untyped objects, in which the spec and the labels may be missing or of
any type. The results here say that they agree: a merged object is in sync, and a live object
is in sync when a merge would leave its spec and its labels as they are.

`Spirecm` has the two functions over the fields they look at. The results are proved there
first, and `Represents` carries them over to whole objects, where it can be said that nothing
else changes.
-/

namespace Kleym

open GoString

/-! ## Over the fields -/

theorem setEntry_eq_assign (key value : GoString) (entries : List (GoString × GoString)) :
    setEntry key value entries = assign key value entries := by
  induction entries with
  | nil => rfl
  | cons entry entries ih => rw [setEntry, assign, ih]

/-- Setting entries that are there changes nothing. -/
theorem foldl_setEntry_of_lookup {entries base : List (GoString × GoString)}
    (h : ∀ entry ∈ entries, base.lookup entry.1 = some entry.2) :
    entries.foldl (fun labels entry => setEntry entry.1 entry.2 labels) base = base := by
  induction entries with
  | nil => rfl
  | cons entry entries ih =>
    rw [List.forall_mem_cons] at h
    rw [List.foldl_cons, setEntry_eq_assign, assign_of_lookup h.1]
    exact ih h.2

section Structured

variable {P : Platform} {key : NamespacedName} {plan : Plan} {className : GoString}
  {current desired : ClusterSPIFFEID}

/-- When an object is in sync with one that has a map for a spec and strings for labels. -/
theorem clusterSPIFFEIDInSync_iff {fields : List (GoString × Json)}
    {entries : List (GoString × GoString)} (hspec : desired.spec = some (.object fields))
    (hlabels : Json.asStringMap desired.labels = some entries) :
    clusterSPIFFEIDInSync current desired = true ↔
      (∃ spec, current.spec = some (.object spec) ∧
        (Json.object spec).deepEqual (.object fields) = true) ∧
      ∀ entry ∈ entries, entryOf (Json.asStringMap current.labels) entry.1 = entry.2 := by
  rw [clusterSPIFFEIDInSync, hspec, hlabels]
  rcases hcurrent : current.spec with _ | value
  · simp [nestedSpec, deepEqualSpecs]
  · cases value <;> simp [nestedSpec, deepEqualSpecs]

theorem wellFormed_desiredSpec (hplan : plan.podSelector.wellFormed = true) :
    (desiredSpec key plan className).wellFormed = true := by
  have hitems : ∀ selectors : List GoString,
      Json.wellFormedItems (selectors.map Json.string) = true := by
    intro selectors
    induction selectors with
    | nil => rfl
    | cons selector selectors ih => rw [List.map_cons, Json.wellFormedItems, ih]; rfl
  rw [desiredSpec, Json.wellFormed_object]
  split_ifs with hclass
  · refine ⟨by simp only [List.cons_append, List.nil_append, List.map_cons, List.map_nil]; decide, ?_⟩
    simp [Json.wellFormed, hplan, hitems]
  · refine ⟨by simp only [List.append_nil, List.map_cons, List.map_nil]; decide, ?_⟩
    simp [Json.wellFormed, hplan, hitems]

/-- The spec of the desired object is a map, and equal to itself. -/
theorem desired_spec (P : Platform) (key : NamespacedName) (className : GoString)
    (hplan : plan.podSelector.wellFormed = true) :
    ∃ fields, (desiredClusterSPIFFEID P key plan className).spec = some (.object fields) ∧
      (Json.object fields).deepEqual (.object fields) = true :=
  ⟨_, rfl, Json.deepEqual_self _ (wellFormed_desiredSpec hplan)⟩

theorem desired_labels (P : Platform) (key : NamespacedName) (plan : Plan) (className : GoString) :
    Json.asStringMap (desiredClusterSPIFFEID P key plan className).labels =
      some (managedClusterSPIFFEIDLabels key) :=
  asStringMap_ofStringMap _

/-- The labels of a merged object. -/
def mergedLabels (key : NamespacedName) (labels : Option Json) : List (GoString × GoString) :=
  (managedClusterSPIFFEIDLabels key).foldl (fun labels entry => setEntry entry.1 entry.2 labels)
    ((Json.asStringMap labels).getD [])

theorem lookup_mergedLabels {entry : GoString × GoString}
    (hentry : entry ∈ managedClusterSPIFFEIDLabels key) (labels : Option Json) :
    (mergedLabels key labels).lookup entry.1 = some entry.2 :=
  lookup_foldl_setEntry (nodup_managedClusterSPIFFEIDLabels key) hentry _

theorem merge_desired (current : ClusterSPIFFEID) {fields : List (GoString × Json)}
    (hspec : (desiredClusterSPIFFEID P key plan className).spec = some (.object fields)) :
    mergeDesiredClusterSPIFFEID current (desiredClusterSPIFFEID P key plan className) =
      { current with
        spec := some (.object fields)
        labels := some (ofStringMap (mergedLabels key current.labels)) } := by
  rw [mergeDesiredClusterSPIFFEID, hspec, desired_labels]
  rfl

/-- An object that has the desired spec and labels is in sync. -/
theorem inSync_desired (hplan : plan.podSelector.wellFormed = true)
    (hspec : current.spec = (desiredClusterSPIFFEID P key plan className).spec)
    {entries : List (GoString × GoString)} (hlabels : current.labels = some (ofStringMap entries))
    (hentries : ∀ entry ∈ managedClusterSPIFFEIDLabels key, entries.lookup entry.1 = some entry.2) :
    clusterSPIFFEIDInSync current (desiredClusterSPIFFEID P key plan className) = true := by
  obtain ⟨fields, hfields, hself⟩ := desired_spec P key className hplan
  refine (clusterSPIFFEIDInSync_iff hfields (desired_labels P key plan className)).mpr
    ⟨⟨fields, hspec.trans hfields, hself⟩, fun entry hentry => ?_⟩
  rw [hlabels, asStringMap_ofStringMap, entryOf, Option.getD_some, hentries entry hentry]
  rfl

theorem inSync_merge (hplan : plan.podSelector.wellFormed = true) (current : ClusterSPIFFEID) :
    clusterSPIFFEIDInSync
      (mergeDesiredClusterSPIFFEID current (desiredClusterSPIFFEID P key plan className))
      (desiredClusterSPIFFEID P key plan className) = true := by
  obtain ⟨fields, hfields, -⟩ := desired_spec P key className hplan
  have hmerge := merge_desired current hfields
  have hlabels := congrArg ClusterSPIFFEID.labels hmerge
  refine inSync_desired hplan ?_ hlabels fun entry hentry => lookup_mergedLabels hentry current.labels
  rw [hmerge, hfields]

theorem mergedLabels_idempotent (labels : Option Json) :
    mergedLabels key (some (ofStringMap (mergedLabels key labels))) = mergedLabels key labels := by
  conv_lhs => rw [mergedLabels, asStringMap_ofStringMap, Option.getD_some]
  exact foldl_setEntry_of_lookup fun entry hentry => lookup_mergedLabels hentry labels

/-- Where no desired label is empty, the labels are in sync exactly when a merge keeps them. -/
theorem labels_inSync_iff (hname : key.name ≠ []) (hnamespace : key.namespace_ ≠ [])
    (labels : Option Json) :
    (∀ entry ∈ managedClusterSPIFFEIDLabels key,
      entryOf (Json.asStringMap labels) entry.1 = entry.2) ↔
    ∀ k, (mergedLabels key labels).lookup k = ((Json.asStringMap labels).getD []).lookup k := by
  -- A label that reads as a text that is not empty is there.
  have hnonempty : ∀ entry ∈ managedClusterSPIFFEIDLabels key, entry.2 ≠ [] := by
    rw [managedClusterSPIFFEIDLabels, List.forall_mem_cons, List.forall_mem_cons,
      List.forall_mem_singleton]
    exact ⟨by decide, hname, hnamespace⟩
  constructor
  · intro h k
    rw [mergedLabels, foldl_setEntry_of_lookup]
    intro entry hentry
    have hentryOf := h entry hentry
    rw [entryOf] at hentryOf
    rcases hlookup : ((Json.asStringMap labels).getD []).lookup entry.1 with _ | value
    · rw [hlookup] at hentryOf
      exact absurd hentryOf.symm (hnonempty entry hentry)
    · rw [hlookup] at hentryOf
      exact congrArg some hentryOf
  · intro h entry hentry
    rw [entryOf, ← h entry.1, lookup_mergedLabels hentry labels]
    rfl

end Structured

/-! ## Over whole objects -/

namespace Unstructured

/-- `GetLabels`. -/
def getLabels (object : Fields) : Option (List (GoString × GoString)) :=
  nestedStringMap object [str "metadata", str "labels"]

/-- `SetLabels`. -/
def setLabels (labels : List (GoString × GoString)) (object : Fields) : Fields :=
  setField [str "metadata", str "labels"] (ofStringMap labels) object

/-- `ClusterSPIFFEIDOwnershipClaim`. -/
def clusterSPIFFEIDOwnershipClaim (object : Fields) : GoString :=
  entryOf (nestedStringMap object [str "metadata", str "annotations"]) ownershipClaimIDAnnotationKey

/-- `DesiredClusterSPIFFEID`. The name is not empty, so `SetName` sets it. -/
def desiredClusterSPIFFEID (P : Platform) (binding : NamespacedName) (plan : Plan)
    (className : GoString) : Fields :=
  let object := setField [str "apiVersion"] (.string (str "spire.spiffe.io/v1alpha1")) []
  let object := setField [str "kind"] (.string (str "ClusterSPIFFEID")) object
  let object := setField [str "metadata", str "name"] (.string (desiredName P binding plan)) object
  let object := setLabels (managedClusterSPIFFEIDLabels binding) object
  assign (str "spec") (desiredSpec binding plan className) object

/-- `ClusterSPIFFEIDInSync`. -/
def clusterSPIFFEIDInSync (current desired : Fields) : Bool :=
  match nestedMap current [str "spec"], nestedMap desired [str "spec"] with
  | some currentSpec, some desiredSpec =>
    deepEqualSpecs currentSpec desiredSpec &&
      ((getLabels desired).getD []).all fun entry =>
        entryOf (getLabels current) entry.1 = entry.2
  | _, _ => false

/-- `MergeDesiredClusterSPIFFEID`. -/
def mergeDesiredClusterSPIFFEID (current desired : Fields) : Fields :=
  let current := assign (str "spec")
    (.object (((nestedMap desired [str "spec"]).getD none).getD [])) current
  setLabels
    (((getLabels desired).getD []).foldl (fun labels entry => setEntry entry.1 entry.2 labels)
      ((getLabels current).getD [])) current

end Unstructured

/-- The fields of a `ClusterSPIFFEID` as they stand in an untyped object. -/
structure Represents (object : Fields) (o : ClusterSPIFFEID) : Prop where
  metadata : ∃ metadata, object.lookup (str "metadata") = some (.object metadata) ∧
    metadata.lookup (str "labels") = o.labels ∧
    metadata.lookup (str "annotations") = o.annotations ∧
    ((metadata.lookup (str "name")).bind Json.asString).getD [] = o.name ∧
    ((metadata.lookup (str "uid")).bind Json.asString).getD [] = o.uid
  spec : object.lookup (str "spec") = o.spec

section Represents

variable {object desired : Fields} {o d : ClusterSPIFFEID}

theorem Represents.nestedField_metadata (h : Represents object o) :
    nestedField (.object object) [str "metadata", str "labels"] = some o.labels ∧
    nestedField (.object object) [str "metadata", str "annotations"] = some o.annotations := by
  obtain ⟨metadata, hmetadata, hlabels, hannotations, -⟩ := h.metadata
  rw [nestedField_of_lookup hmetadata, nestedField_of_lookup hmetadata, nestedField_single,
    nestedField_single, hlabels, hannotations]
  exact ⟨rfl, rfl⟩

theorem Represents.getLabels (h : Represents object o) :
    Unstructured.getLabels object = Json.asStringMap o.labels := by
  rw [Unstructured.getLabels, nestedStringMap, h.nestedField_metadata.1]

theorem Represents.claim (h : Represents object o) :
    Unstructured.clusterSPIFFEIDOwnershipClaim object = clusterSPIFFEIDOwnershipClaim o := by
  rw [Unstructured.clusterSPIFFEIDOwnershipClaim, nestedStringMap, h.nestedField_metadata.2]
  rfl

theorem Represents.nestedMap_spec (h : Represents object o) :
    nestedMap object [str "spec"] = nestedSpec o.spec := by
  rw [nestedMap, nestedField_single, h.spec]
  rcases o.spec with _ | value
  · rfl
  · cases value <;> rfl

/-- The check sees of an object what its fields say. -/
theorem Represents.inSync (h : Represents object o) (hd : Represents desired d) :
    Unstructured.clusterSPIFFEIDInSync object desired = clusterSPIFFEIDInSync o d := by
  rw [Unstructured.clusterSPIFFEIDInSync, clusterSPIFFEIDInSync, h.nestedMap_spec,
    hd.nestedMap_spec, h.getLabels, hd.getLabels]
  rfl

theorem setLabels_of_metadata {metadata : Fields} (labels : List (GoString × GoString))
    (h : object.lookup (str "metadata") = some (.object metadata)) :
    Unstructured.setLabels labels object = assign (str "metadata")
      (.object (assign (str "labels") (ofStringMap labels) metadata)) object := by
  rw [Unstructured.setLabels, setField, setNestedField_pair h]
  rfl

theorem Represents.withSpec (h : Represents object o) (value : Json) :
    Represents (assign (str "spec") value object) { o with spec := some value } := by
  obtain ⟨metadata, hmetadata, hfields⟩ := h.metadata
  refine ⟨⟨metadata, ?_, hfields⟩, lookup_assign_self _ value object⟩
  rw [lookup_assign_of_ne (by decide), hmetadata]

/-- What a merge makes of an object. -/
theorem Represents.merge_eq (h : Represents object o) (hd : Represents desired d) {metadata : Fields}
    (hmetadata : object.lookup (str "metadata") = some (.object metadata)) {spec labels : Json}
    (hspec : (mergeDesiredClusterSPIFFEID o d).spec = some spec)
    (hlabels : (mergeDesiredClusterSPIFFEID o d).labels = some labels) :
    Unstructured.mergeDesiredClusterSPIFFEID object desired = assign (str "metadata")
      (.object (assign (str "labels") labels metadata)) (assign (str "spec") spec object) := by
  rw [mergeDesiredClusterSPIFFEID] at hspec hlabels
  cases hspec
  cases hlabels
  have hset : (assign (str "spec") (.object (((nestedMap desired [str "spec"]).getD none).getD []))
      object).lookup (str "metadata") = some (.object metadata) := by
    rw [lookup_assign_of_ne (by decide), hmetadata]
  rw [Unstructured.mergeDesiredClusterSPIFFEID, setLabels_of_metadata _ hset, hd.getLabels,
    (h.withSpec _).getLabels, hd.nestedMap_spec]

/-- The merge does to an object what it does to its fields. -/
theorem Represents.merge (h : Represents object o) (hd : Represents desired d) :
    Represents (Unstructured.mergeDesiredClusterSPIFFEID object desired)
      (mergeDesiredClusterSPIFFEID o d) := by
  obtain ⟨metadata, hmetadata, -, hannotations, hname, huid⟩ := h.metadata
  rw [h.merge_eq hd hmetadata rfl rfl]
  refine ⟨⟨_, lookup_assign_self _ _ _, lookup_assign_self _ _ _, ?_, ?_, ?_⟩, ?_⟩
  · rw [lookup_assign_of_ne (by decide)]
    exact hannotations
  · rw [lookup_assign_of_ne (by decide)]
    exact hname
  · rw [lookup_assign_of_ne (by decide)]
    exact huid
  · rw [lookup_assign_of_ne (by decide), lookup_assign_self]
    rfl

theorem represents_desired (P : Platform) (key : NamespacedName) (plan : Plan)
    (className : GoString) : Represents (Unstructured.desiredClusterSPIFFEID P key plan className)
      (desiredClusterSPIFFEID P key plan className) :=
  ⟨⟨_, rfl, rfl, rfl, rfl, rfl⟩, rfl⟩

/-- Every object with a metadata map represents something. -/
theorem exists_represents {metadata : Fields}
    (h : object.lookup (str "metadata") = some (.object metadata)) : ∃ o, Represents object o :=
  ⟨⟨_, _, 0, 0, false, _, _, _, .null⟩, ⟨metadata, h, rfl, rfl, rfl, rfl⟩, rfl⟩

end Represents

/-! ## Convergence -/

/-- The labels, where there are any, are strings. -/
def HasStringLabels (object : Fields) : Prop :=
  ∀ labels, nestedField (.object object) [str "metadata", str "labels"] = some (some labels) →
    ∃ entries, labels = ofStringMap entries

/-- The specs of two objects are equal maps. -/
def SameSpec (object object' : Fields) : Prop :=
  ∃ spec spec', nestedMap object [str "spec"] = some (some spec) ∧
    nestedMap object' [str "spec"] = some (some spec') ∧
    (Json.object spec).deepEqual (.object spec') = true

/-- The labels of two objects are equal maps. -/
def SameLabels (object object' : Fields) : Prop :=
  ∀ k, ((Unstructured.getLabels object').getD []).lookup k =
    ((Unstructured.getLabels object).getD []).lookup k

theorem lookup_ofStringMap (entries : List (GoString × GoString)) (k : GoString) :
    (entries.map fun (k, v) => (k, Json.string v)).lookup k = (entries.lookup k).map .string := by
  induction entries with
  | nil => rfl
  | cons entry entries ih =>
    obtain ⟨k', v⟩ := entry
    rw [List.map_cons, List.lookup_cons, List.lookup_cons, ih]
    cases k == k' <;> rfl

section Converges

variable {P : Platform} {key : NamespacedName} {plan : Plan} {className : GoString}
  {object metadata : Fields} {o : ClusterSPIFFEID}

/-- A label under a key of its own survives a merge. -/
theorem nestedField_label_merge (hplan : plan.podSelector.wellFormed = true)
    (h : Represents object o) (hstrings : HasStringLabels object) {k : GoString}
    (hk : k ∉ (managedClusterSPIFFEIDLabels key).map Prod.fst) :
    nestedField (.object (Unstructured.mergeDesiredClusterSPIFFEID object
        (Unstructured.desiredClusterSPIFFEID P key plan className)))
        [str "metadata", str "labels", k] =
      nestedField (.object object) [str "metadata", str "labels", k] := by
  obtain ⟨fields, hfields, -⟩ := desired_spec P key className hplan
  obtain ⟨metadata, hmetadata, hlabels, -⟩ := h.metadata
  have hmerge := merge_desired o hfields
  have hmerged : (mergedLabels key o.labels).lookup k =
      ((Json.asStringMap o.labels).getD []).lookup k := lookup_foldl_setEntry_of_notMem hk _
  rw [h.merge_eq (represents_desired P key plan className) hmetadata
    (congrArg ClusterSPIFFEID.spec hmerge) (congrArg ClusterSPIFFEID.labels hmerge),
    nestedField_of_lookup (lookup_assign_self _ _ _),
    nestedField_of_lookup (lookup_assign_self _ _ _), nestedField_of_lookup hmetadata, ofStringMap,
    nestedField_single, lookup_ofStringMap, hmerged]
  rcases hpresent : o.labels with _ | labels
  · rw [hpresent] at hlabels
    rw [nestedField_of_missing hlabels]
    rfl
  · rw [hpresent] at hlabels
    obtain ⟨entries, rfl⟩ := hstrings labels (by
      rw [h.nestedField_metadata.1, hpresent])
    rw [nestedField_of_lookup hlabels, asStringMap_ofStringMap, Option.getD_some, ofStringMap,
      nestedField_single, lookup_ofStringMap]

/-- The merge is two writes, of the spec and of the labels. -/
theorem nestedField_merge (hplan : plan.podSelector.wellFormed = true) (h : Represents object o)
    {path : List GoString} (hspec : Diverges [str "spec"] path)
    (hlabels : Diverges [str "metadata", str "labels"] path) :
    nestedField (.object (Unstructured.mergeDesiredClusterSPIFFEID object
        (Unstructured.desiredClusterSPIFFEID P key plan className))) path =
      nestedField (.object object) path := by
  obtain ⟨fields, hfields, -⟩ := desired_spec P key className hplan
  obtain ⟨metadata, hmetadata, -⟩ := h.metadata
  have hmerge := merge_desired o hfields
  have hmetadata' : (assign (str "spec") (.object fields) object).lookup (str "metadata") =
      some (.object metadata) := by
    rw [lookup_assign_of_ne (by decide), hmetadata]
  rw [h.merge_eq (represents_desired P key plan className) hmetadata
    (congrArg ClusterSPIFFEID.spec hmerge) (congrArg ClusterSPIFFEID.labels hmerge),
    nestedField_setNestedField_of_diverges (setNestedField_pair hmetadata') hlabels]
  have hwrite : setNestedField (.object fields) [str "spec"] object =
      some (assign (str "spec") (.object fields) object) := rfl
  exact nestedField_setNestedField_of_diverges hwrite hspec

/-- A second merge assigns what the first one has put there. -/
theorem merge_merge (hplan : plan.podSelector.wellFormed = true) (h : Represents object o) :
    let desired := Unstructured.desiredClusterSPIFFEID P key plan className
    let merged := Unstructured.mergeDesiredClusterSPIFFEID object desired
    Unstructured.mergeDesiredClusterSPIFFEID merged desired = merged := by
  intro desired merged
  have hd := represents_desired P key plan className
  obtain ⟨fields, hfields, -⟩ := desired_spec P key className hplan
  obtain ⟨metadata, hmetadata, -⟩ := h.metadata
  have hmerge := merge_desired o hfields
  have hmerged : merged = _ := h.merge_eq hd hmetadata (congrArg ClusterSPIFFEID.spec hmerge)
    (congrArg ClusterSPIFFEID.labels hmerge)
  have hmetadata' : merged.lookup (str "metadata") = some (.object (assign (str "labels")
      (ofStringMap (mergedLabels key o.labels)) metadata)) := by
    rw [hmerged, lookup_assign_self]
  have hspec' : merged.lookup (str "spec") = some (.object fields) := by
    rw [hmerged, lookup_assign_of_ne (by decide), lookup_assign_self]
  have hagain := merge_desired (mergeDesiredClusterSPIFFEID o
    (Kleym.desiredClusterSPIFFEID P key plan className)) hfields
  have hlabels : mergedLabels key (mergeDesiredClusterSPIFFEID o
      (Kleym.desiredClusterSPIFFEID P key plan className)).labels = mergedLabels key o.labels := by
    rw [hmerge]
    exact mergedLabels_idempotent o.labels
  rw [hlabels] at hagain
  rw [(h.merge hd).merge_eq hd hmetadata' (congrArg ClusterSPIFFEID.spec hagain)
    (congrArg ClusterSPIFFEID.labels hagain), assign_of_lookup hspec',
    assign_of_lookup (lookup_assign_self _ _ _), assign_of_lookup hmetadata']

/-- Where no desired label is empty, an object is in sync exactly when the merge leaves its
spec and its labels. -/
theorem inSync_iff_same (hplan : plan.podSelector.wellFormed = true) (h : Represents object o)
    (hname : key.name ≠ []) (hnamespace : key.namespace_ ≠ []) :
    let desired := Unstructured.desiredClusterSPIFFEID P key plan className
    let merged := Unstructured.mergeDesiredClusterSPIFFEID object desired
    Unstructured.clusterSPIFFEIDInSync object desired = true ↔
      SameSpec object merged ∧ SameLabels object merged := by
  intro desired merged
  have hd := represents_desired P key plan className
  have hm := h.merge hd
  obtain ⟨fields, hfields, -⟩ := desired_spec P key className hplan
  have hmerge := merge_desired o hfields
  rw [h.inSync hd, clusterSPIFFEIDInSync_iff hfields (desired_labels P key plan className),
    labels_inSync_iff hname hnamespace, SameSpec, SameLabels, h.getLabels, hm.getLabels,
    h.nestedMap_spec, hm.nestedMap_spec, hmerge, asStringMap_ofStringMap]
  refine and_congr_left' ?_
  constructor
  · rintro ⟨spec, hspec, hequal⟩
    exact ⟨spec, fields, by rw [hspec]; rfl, rfl, hequal⟩
  · rintro ⟨spec, _, hspec, hsame, hequal⟩
    cases hsame
    refine ⟨spec, ?_, hequal⟩
    rcases hvalue : o.spec with _ | value
    · rw [hvalue] at hspec
      cases hspec
    · rw [hvalue] at hspec
      cases value with
      | object fields' =>
        cases hspec
        rfl
      | _ => cases hspec

end Converges

/-- **Drift correction converges and touches nothing else.** Take any live object with a
metadata map, whatever else it holds, and the desired object of any binding and plan. Merged,
the live object is in sync, and a second merge changes nothing. The merge is seen under no path
but the spec and the labels, keeps the ownership claim, and leaves string labels under other
keys. Where the binding has a name and a namespace, the live object was in sync before exactly
when the merge leaves its spec and its labels. -/
theorem mergeDesiredClusterSPIFFEID_converges (P : Platform) (key : NamespacedName) {plan : Plan}
    (hplan : plan.podSelector.wellFormed = true) (className : GoString) {object metadata : Fields}
    (hmetadata : object.lookup (str "metadata") = some (.object metadata)) :
    let desired := Unstructured.desiredClusterSPIFFEID P key plan className
    let merged := Unstructured.mergeDesiredClusterSPIFFEID object desired
    Unstructured.clusterSPIFFEIDInSync merged desired = true ∧
    Unstructured.mergeDesiredClusterSPIFFEID merged desired = merged ∧
    (key.name ≠ [] → key.namespace_ ≠ [] →
      (Unstructured.clusterSPIFFEIDInSync object desired = true ↔
        SameSpec object merged ∧ SameLabels object merged)) ∧
    (∀ path, Diverges [str "spec"] path → Diverges [str "metadata", str "labels"] path →
      nestedField (.object merged) path = nestedField (.object object) path) ∧
    Unstructured.clusterSPIFFEIDOwnershipClaim merged =
      Unstructured.clusterSPIFFEIDOwnershipClaim object ∧
    (HasStringLabels object → ∀ k, k ∉ (managedClusterSPIFFEIDLabels key).map Prod.fst →
      nestedField (.object merged) [str "metadata", str "labels", k] =
        nestedField (.object object) [str "metadata", str "labels", k]) := by
  intro desired merged
  obtain ⟨o, ho⟩ := exists_represents hmetadata
  have hm := ho.merge (represents_desired P key plan className)
  refine ⟨?_, merge_merge hplan ho, inSync_iff_same hplan ho,
    fun path => nestedField_merge hplan ho, hm.claim.trans ho.claim.symm,
    fun hstrings k => nestedField_label_merge hplan ho hstrings⟩
  rw [hm.inSync (represents_desired P key plan className)]
  exact inSync_merge hplan o

/-- The plan of the drift examples: nothing is selected. -/
def plainPlan : Plan := ⟨str "spiffe://t", [], .object [], ⟨str "pool", str "p"⟩, str "v"⟩

theorem plainPlan_wellFormed : plainPlan.podSelector.wellFormed = true := by decide

/-- An object with a finalizer and nothing else. -/
theorem mergeDesiredClusterSPIFFEID_converges_bare :
    nestedField (.object (Unstructured.mergeDesiredClusterSPIFFEID
        [(str "metadata", .object [(str "finalizers", .array [.string (str "f")])])]
        (Unstructured.desiredClusterSPIFFEID (referencePlatform (fun _ => []) fun _ => [])
          ⟨str "n", str "b"⟩ plainPlan [])))
        [str "metadata", str "finalizers"] = some (some (.array [.string (str "f")])) :=
  (mergeDesiredClusterSPIFFEID_converges _ ⟨str "n", str "b"⟩ plainPlan_wellFormed [] rfl).2.2.2.1 _
    ⟨by decide, by decide⟩ ⟨by decide, by decide⟩

/-- A live object without a label for the name of its binding. -/
def unnamedObject : Fields :=
  [(str "metadata", .object [(str "labels", ofStringMap
      [(str "kleym.sonda.red/managed-by", str "kleym"),
        (str "kleym.sonda.red/binding-namespace", str "n")])]),
    (str "spec", desiredSpec ⟨str "n", []⟩ plainPlan [])]

/-- For a binding without a name, an object without the label is in sync, and a merge adds
the label. -/
theorem inSync_of_unnamed :
    let desired := Unstructured.desiredClusterSPIFFEID (referencePlatform (fun _ => []) fun _ => [])
      ⟨str "n", []⟩ plainPlan []
    (∃ spec, nestedMap unnamedObject [str "spec"] = some (some spec)) ∧
    HasStringLabels unnamedObject ∧
    Unstructured.clusterSPIFFEIDInSync unnamedObject desired = true ∧
    ¬SameLabels unnamedObject (Unstructured.mergeDesiredClusterSPIFFEID unnamedObject desired) := by
  refine ⟨⟨_, rfl⟩, ?_, by decide +kernel, fun h => ?_⟩
  · intro labels hlabels
    cases hlabels
    exact ⟨_, rfl⟩
  · exact absurd (h (str "kleym.sonda.red/binding-name")) (by decide +kernel)

end Kleym
