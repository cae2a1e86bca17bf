import Kleym.Binding

/-!
# The managed output (`internal/spirecm`)

A `ClusterSPIFFEID` of the SPIRE Controller Manager is what a binding's identity
is granted through. The object is read and written as untyped JSON; the fields
of its metadata that the operator looks at are fields here, and the rest of the
object travels along unseen.
-/

namespace Kleym

open GoString

/-- A `ClusterSPIFFEID` as the API server stores it. -/
structure ClusterSPIFFEID where
  name : GoString
  uid : GoString
  resourceVersion : ℕ
  generation : ℕ
  /-- a deletion timestamp is set -/
  terminating : Bool
  labels : Option Json
  annotations : Option Json
  spec : Option Json
  /-- every other field of the object -/
  rest : Json

/-! ## String maps -/

/-- Assign to a key of a Go map. -/
def setEntry (key value : GoString) : List (GoString × GoString) → List (GoString × GoString)
  | [] => [(key, value)]
  | (k, v) :: rest =>
    if k = key then (key, value) :: rest else (k, v) :: setEntry key value rest

/-- Read a key of a Go map: the empty string when it is not there. -/
def entryOf (entries : Option (List (GoString × GoString))) (key : GoString) : GoString :=
  ((entries.getD []).lookup key).getD []

/-- `SetLabels` and `SetAnnotations`: a string map as JSON. -/
def ofStringMap (entries : List (GoString × GoString)) : Json :=
  .object (entries.map fun (k, v) => (k, .string v))

/-! ## The ownership claim -/

/-- `OwnershipClaimIDAnnotationKey`. -/
def ownershipClaimIDAnnotationKey : GoString := str "kleym.sonda.red/ownership-claim-id"

/-- `SetClusterSPIFFEIDOwnershipClaim`. -/
def setClusterSPIFFEIDOwnershipClaim (object : ClusterSPIFFEID) (claimID : GoString) :
    ClusterSPIFFEID :=
  { object with
    annotations := some (ofStringMap
      (setEntry ownershipClaimIDAnnotationKey claimID
        ((Json.asStringMap object.annotations).getD []))) }

/-- `ClusterSPIFFEIDOwnershipClaim`. -/
def clusterSPIFFEIDOwnershipClaim (object : ClusterSPIFFEID) : GoString :=
  entryOf (Json.asStringMap object.annotations) ownershipClaimIDAnnotationKey

theorem lookup_setEntry (key value : GoString) (entries : List (GoString × GoString)) :
    (setEntry key value entries).lookup key = some value := by
  induction entries with
  | nil => simp [setEntry]
  | cons entry entries ih =>
    obtain ⟨k, v⟩ := entry
    rw [setEntry]
    split_ifs with hk
    · simp
    · have hne : (key == k) = false := beq_eq_false_iff_ne.mpr (Ne.symm hk)
      rw [List.lookup_cons, hne]
      exact ih

theorem lookup_setEntry_of_ne {key k : GoString} (hne : k ≠ key) (value : GoString)
    (entries : List (GoString × GoString)) :
    (setEntry key value entries).lookup k = entries.lookup k := by
  have hbeq : (k == key) = false := beq_eq_false_iff_ne.mpr hne
  induction entries with
  | nil => rw [setEntry, List.lookup_cons, hbeq]
  | cons entry entries ih =>
    obtain ⟨k', v⟩ := entry
    rw [setEntry]
    split_ifs with hk
    · rw [hk, List.lookup_cons, List.lookup_cons, hbeq]
    · rw [List.lookup_cons, List.lookup_cons, ih]

theorem lookup_foldl_setEntry_of_notMem {entries : List (GoString × GoString)} {key : GoString}
    (h : key ∉ entries.map Prod.fst) (base : List (GoString × GoString)) :
    (entries.foldl (fun labels entry => setEntry entry.1 entry.2 labels) base).lookup key =
      base.lookup key := by
  induction entries generalizing base with
  | nil => rfl
  | cons entry entries ih =>
    rw [List.map_cons, List.mem_cons, not_or] at h
    rw [List.foldl_cons, ih h.2, lookup_setEntry_of_ne h.1]

/-- Of entries with distinct keys, each one is there after all of them are set. -/
theorem lookup_foldl_setEntry {entries : List (GoString × GoString)}
    (hnodup : (entries.map Prod.fst).Nodup) {entry : GoString × GoString} (h : entry ∈ entries)
    (base : List (GoString × GoString)) :
    (entries.foldl (fun labels entry => setEntry entry.1 entry.2 labels) base).lookup entry.1 =
      some entry.2 := by
  induction entries generalizing base with
  | nil => cases h
  | cons first entries ih =>
    rw [List.map_cons, List.nodup_cons] at hnodup
    rw [List.foldl_cons]
    rcases List.mem_cons.mp h with rfl | h
    · rw [lookup_foldl_setEntry_of_notMem hnodup.1, lookup_setEntry]
    · exact ih hnodup.2 h _

theorem mem_keys_setEntry {key value k : GoString} {entries : List (GoString × GoString)}
    (h : k ∈ (setEntry key value entries).map Prod.fst) : k = key ∨ k ∈ entries.map Prod.fst := by
  induction entries with
  | nil => exact Or.inl (List.mem_singleton.mp h)
  | cons entry entries ih =>
    obtain ⟨k', v⟩ := entry
    rw [setEntry] at h
    split_ifs at h with hk
    · exact (List.mem_cons.mp h).imp id (List.mem_cons_of_mem _)
    · rcases List.mem_cons.mp h with rfl | h
      · exact Or.inr List.mem_cons_self
      · exact (ih h).imp id (List.mem_cons_of_mem _)

theorem mem_setEntry {key value : GoString} {entries : List (GoString × GoString)}
    {entry : GoString × GoString} (h : entry ∈ setEntry key value entries) :
    entry = (key, value) ∨ entry ∈ entries := by
  induction entries with
  | nil => exact Or.inl (List.mem_singleton.mp h)
  | cons first entries ih =>
    obtain ⟨k, v⟩ := first
    rw [setEntry] at h
    split_ifs at h with hk
    · exact (List.mem_cons.mp h).imp id (List.mem_cons_of_mem _)
    · rcases List.mem_cons.mp h with rfl | h
      · exact Or.inr List.mem_cons_self
      · exact (ih h).imp id (List.mem_cons_of_mem _)

/-- An entry is one that was set, or was there. -/
theorem mem_foldl_setEntry {entries base : List (GoString × GoString)}
    {entry : GoString × GoString}
    (h : entry ∈ entries.foldl (fun labels entry => setEntry entry.1 entry.2 labels) base) :
    entry ∈ entries ∨ entry ∈ base := by
  induction entries generalizing base with
  | nil => exact Or.inr h
  | cons first entries ih =>
    rw [List.foldl_cons] at h
    rcases ih h with h | h
    · exact Or.inl (List.mem_cons_of_mem first h)
    · rcases mem_setEntry h with rfl | h
      · exact Or.inl List.mem_cons_self
      · exact Or.inr h

theorem nodup_keys_setEntry {key value : GoString} {entries : List (GoString × GoString)}
    (h : (entries.map Prod.fst).Nodup) : ((setEntry key value entries).map Prod.fst).Nodup := by
  induction entries with
  | nil => exact List.nodup_singleton key
  | cons entry entries ih =>
    obtain ⟨k, v⟩ := entry
    obtain ⟨hk, hrest⟩ := List.nodup_cons.mp h
    rw [setEntry]
    split_ifs with heq
    · exact List.nodup_cons.mpr ⟨heq ▸ hk, hrest⟩
    · refine List.nodup_cons.mpr ⟨fun hmem => ?_, ih hrest⟩
      exact (mem_keys_setEntry hmem).elim heq hk

theorem asStringMap_ofStringMap (entries : List (GoString × GoString)) :
    Json.asStringMap (some (ofStringMap entries)) = some entries := by
  rw [ofStringMap, Json.asStringMap]
  induction entries with
  | nil => rfl
  | cons entry entries ih => simp [ih]

/-- The claim that was set is the one that is read. -/
theorem clusterSPIFFEIDOwnershipClaim_set (object : ClusterSPIFFEID) (claimID : GoString) :
    clusterSPIFFEIDOwnershipClaim (setClusterSPIFFEIDOwnershipClaim object claimID) = claimID := by
  rw [clusterSPIFFEIDOwnershipClaim, setClusterSPIFFEIDOwnershipClaim, asStringMap_ofStringMap,
    entryOf, Option.getD_some, lookup_setEntry, Option.getD_some]

/-! ## The desired object -/

section

variable (P : Platform)

/-- The loop of `sanitizeDNSLabel`. The source walks over runes; a rune outside
ASCII is one or more bytes outside `[a-z0-9]`, and these collapse into the one
hyphen the rune gives. -/
def sanitizeBytes : Bool → GoString → GoString
  | _, [] => []
  | lastHyphen, b :: rest =>
    if (97 ≤ b ∧ b ≤ 122) ∨ (48 ≤ b ∧ b ≤ 57) then b :: sanitizeBytes false rest
    else if lastHyphen then sanitizeBytes true rest
    else 45 :: sanitizeBytes true rest

/-- `sanitizeDNSLabel`. -/
def sanitizeDNSLabel (input : GoString) : GoString :=
  trimByte (sanitizeBytes false (P.toLower (trimSpace input))) 45

/-- `BuildClusterSPIFFEIDName`. -/
def buildClusterSPIFFEIDName (namespace_ bindingName identityAnchorKind spiffeID : GoString) :
    GoString :=
  let sanitized := sanitizeDNSLabel P identityAnchorKind
  let modeText := if sanitized = [] then str "identity" else sanitized
  let hashSuffix := hexEncode ((P.sha1 spiffeID).take 4)
  let base := sanitizeDNSLabel P (str "kleym" ++ str "-" ++ namespace_ ++ str "-" ++ bindingName)
  let maxBaseLen := max 1 (63 - modeText.length - hashSuffix.length - 2)
  let base :=
    if base.length > maxBaseLen then
      let cut := trimByte (base.take maxBaseLen) 45
      if cut = [] then str "kleym" else cut
    else base
  base ++ str "-" ++ modeText ++ str "-" ++ hashSuffix

/-- `ManagedClusterSPIFFEIDLabels`. -/
def managedClusterSPIFFEIDLabels (binding : NamespacedName) : List (GoString × GoString) :=
  [(str "kleym.sonda.red/managed-by", str "kleym"),
    (str "kleym.sonda.red/binding-name", binding.name),
    (str "kleym.sonda.red/binding-namespace", binding.namespace_)]

/-- `BuildClusterSPIFFEIDHint`. -/
def buildClusterSPIFFEIDHint (binding : NamespacedName) : GoString :=
  binding.namespace_ ++ str "/" ++ binding.name

/-- The `spec` of the desired object. -/
def desiredSpec (binding : NamespacedName) (plan : Plan) (className : GoString) : Json :=
  .object ([(str "spiffeIDTemplate", .string plan.spiffeID),
    (str "podSelector", plan.podSelector),
    (str "workloadSelectorTemplates", .array (plan.selectors.map .string)),
    (str "fallback", .bool false),
    (str "hint", .string (buildClusterSPIFFEIDHint binding))] ++
    if className ≠ [] then [(str "className", .string className)] else [])

/-- The name `DesiredClusterSPIFFEID` gives the object. -/
def desiredName (binding : NamespacedName) (plan : Plan) : GoString :=
  buildClusterSPIFFEIDName P binding.namespace_ binding.name plan.identityAnchor.kind
    plan.spiffeID

/-- `DesiredClusterSPIFFEID`. -/
def desiredClusterSPIFFEID (binding : NamespacedName) (plan : Plan) (className : GoString) :
    ClusterSPIFFEID where
  name := desiredName P binding plan
  uid := []
  resourceVersion := 0
  generation := 0
  terminating := false
  labels := some (ofStringMap (managedClusterSPIFFEIDLabels binding))
  annotations := none
  spec := some (desiredSpec binding plan className)
  rest := .object []

end

/-! ## Drift -/

/-- `unstructured.NestedMap(object, "spec")`: `none` for an error, `some none` for
a missing field. -/
def nestedSpec : Option Json → Option (Option (List (GoString × Json)))
  | none => some none
  | some (.object fields) => some (some fields)
  | some _ => none

/-- `reflect.DeepEqual` of two maps that may be nil. -/
def deepEqualSpecs : Option (List (GoString × Json)) → Option (List (GoString × Json)) → Bool
  | none, none => true
  | some a, some b => Json.deepEqual (.object a) (.object b)
  | _, _ => false

/-- `ClusterSPIFFEIDInSync`. -/
def clusterSPIFFEIDInSync (current desired : ClusterSPIFFEID) : Bool :=
  match nestedSpec current.spec, nestedSpec desired.spec with
  | some currentSpec, some desiredSpec =>
    deepEqualSpecs currentSpec desiredSpec &&
      ((Json.asStringMap desired.labels).getD []).all fun entry =>
        entryOf (Json.asStringMap current.labels) entry.1 = entry.2
  | _, _ => false

/-- `MergeDesiredClusterSPIFFEID`: take over the spec and the desired labels,
leave everything else. -/
def mergeDesiredClusterSPIFFEID (current desired : ClusterSPIFFEID) : ClusterSPIFFEID :=
  { current with
    spec := some (.object (((nestedSpec desired.spec).getD none).getD []))
    labels := some (ofStringMap
      (((Json.asStringMap desired.labels).getD []).foldl
        (fun labels entry => setEntry entry.1 entry.2 labels)
        ((Json.asStringMap current.labels).getD []))) }

/-- `observedGenerationStatus`. -/
def observedGenerationStatus (object : ClusterSPIFFEID) : Option ℕ :=
  if object.generation = 0 then none else some object.generation

/-- `renderedClusterSPIFFEIDStatus`. -/
def renderedClusterSPIFFEIDStatus (P : Platform) (identity : Plan) (object : ClusterSPIFFEID) :
    RenderedClusterSPIFFEIDStatus :=
  ⟨object.name, identity.spiffeID, selectorFingerprint P identity.selectors,
    observedGenerationStatus object⟩

/-! ## Operator configuration -/

/-- `OperatorConfig`. -/
structure OperatorConfig where
  trustDomain : GoString
  clusterSPIFFEIDClassName : GoString
  deriving DecidableEq

/-- `OperatorConfig.Validate`. -/
def OperatorConfig.validate (config : OperatorConfig) : Except GoString Unit :=
  if trimSpace config.trustDomain = [] then
    .error (str "trustDomain must be configured before Kleym can render SPIFFE IDs")
  else if config.trustDomain ≠ trimSpace config.trustDomain then
    .error (str "trustDomain must not include leading or trailing whitespace")
  else if config.trustDomain.hasPrefix (str "spiffe://") then
    .error (str "trustDomain must not include spiffe://")
  else if config.trustDomain.contains (str "/") then
    .error (str "trustDomain must not contain /")
  else if config.clusterSPIFFEIDClassName ≠ trimSpace config.clusterSPIFFEIDClassName then
    .error (str "clusterspiffeidClassName must not include leading or trailing whitespace")
  else .ok ()

end Kleym
