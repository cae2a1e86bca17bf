import Kleym.Json
import Mathlib.Data.List.Dedup
import Mathlib.Data.Nat.Digits.Defs

/-!
# The identity planner (`internal/identity`)

`planIdentity` turns a binding's declared intent and a resolved serving target
into a SPIFFE ID and a canonical list of workload selectors, and
`evaluateVariantConflicts` decides which of several planned identities are not
exclusive. Both are pure: the controller and the CLI call them with what they
have read.

What the planner calls outside its own source is collected in `Platform`: the
validators of apimachinery, Go's quoting and lower-casing, and the two hash
functions. Everything below holds for any platform; where a result depends on
what a validator accepts, the documented behaviour is a hypothesis of that
result.
-/

namespace Kleym

open GoString

/-- The functions the source calls and does not define. A validator returns the
list of complaints about its argument, empty when the argument is valid. -/
structure Platform where
  /-- `validation.IsQualifiedName` -/
  isQualifiedName : GoString → List GoString
  /-- `validation.IsValidLabelValue` -/
  isValidLabelValue : GoString → List GoString
  /-- `validation.IsDNS1123Subdomain` -/
  isDNS1123Subdomain : GoString → List GoString
  /-- the `%q` verb of `fmt` -/
  quote : GoString → GoString
  /-- `strings.ToLower` -/
  toLower : GoString → GoString
  /-- `sha1.Sum` -/
  sha1 : GoString → List UInt8
  /-- `sha256.Sum256` -/
  sha256 : GoString → List UInt8
  /-- the text of an `unstructured` accessor error at a field path -/
  accessorError : List GoString → Json → GoString

/-- `types.NamespacedName`. -/
structure NamespacedName where
  namespace_ : GoString
  name : GoString
  deriving DecidableEq

/-! ## Conditions and errors -/

/-- The condition types of a binding's status. -/
inductive ConditionType : Type where
  | ready
  | invalidRef
  | unsafeSelector
  | conflict
  | renderFailure
  deriving DecidableEq

/-- The condition reasons of a binding's status. -/
inductive Reason : Type where
  | reconciled
  | resolved
  | initializing
  | invalidPoolRef
  | targetPoolNotFound
  | inferencePoolCRDMissing
  | invalidPoolSelector
  | unsafeSelector
  | invalidIdentityBoundary
  | missingTrustDomain
  | invalidServiceAccountName
  | invalidSPIFFEID
  | clusterSPIFFEIDCRDMissing
  | managedOutputApplyFailed
  | variantConflict
  | duplicateSPIFFEID
  deriving DecidableEq

/-- The reason as it is written into a condition. -/
def Reason.text : Reason → GoString
  | .reconciled => str "Reconciled"
  | .resolved => str "Resolved"
  | .initializing => str "Initializing"
  | .invalidPoolRef => str "InvalidPoolRef"
  | .targetPoolNotFound => str "TargetPoolNotFound"
  | .inferencePoolCRDMissing => str "InferencePoolCRDMissing"
  | .invalidPoolSelector => str "InvalidPoolSelector"
  | .unsafeSelector => str "UnsafeSelector"
  | .invalidIdentityBoundary => str "InvalidIdentityBoundary"
  | .missingTrustDomain => str "MissingTrustDomain"
  | .invalidServiceAccountName => str "InvalidServiceAccountName"
  | .invalidSPIFFEID => str "InvalidSPIFFEID"
  | .clusterSPIFFEIDCRDMissing => str "ClusterSPIFFEIDCRDMissing"
  | .managedOutputApplyFailed => str "ManagedOutputApplyFailed"
  | .variantConflict => str "VariantConflict"
  | .duplicateSPIFFEID => str "DuplicateSPIFFEID"

/-- An error that names the condition it should be reported under. The source
has three such types with the same fields (`identity.StateError`,
`gaie.StateError`, `reconcileStateError`) and converts between them. -/
structure StateError where
  conditionType : ConditionType
  reason : Reason
  message : GoString
  deriving DecidableEq

/-! ## Inputs and outputs of the planner -/

/-- `IdentityAnchor`: the serving boundary named in a SPIFFE ID. -/
structure IdentityAnchor where
  kind : GoString
  name : GoString
  deriving DecidableEq

/-- `ResolvedInferenceTarget`. -/
structure ResolvedInferenceTarget where
  identityAnchor : IdentityAnchor
  podSelector : Json
  derivedSelectors : List GoString

/-- `PlanInput`. -/
structure PlanInput where
  namespace_ : GoString
  serviceAccountName : GoString
  trustDomain : GoString
  variant : GoString
  target : ResolvedInferenceTarget

/-- `Plan`: the desired identity of one binding. -/
structure Plan where
  spiffeID : GoString
  selectors : List GoString
  podSelector : Json
  identityAnchor : IdentityAnchor
  variant : GoString

/-! ## Selectors -/

/-- `VariantLabelKey`: the pod label key the operator owns. -/
def variantLabelKey : GoString := str "identity.kleym.sonda.red/variant"

/-- Prefix of a namespace selector. -/
def nsPrefix : GoString := str "k8s:ns:"

/-- Prefix of a service-account selector. -/
def saPrefix : GoString := str "k8s:sa:"

/-- Prefix of a pod-label selector. -/
def podLabelPrefix : GoString := str "k8s:pod-label:"

/-- A pod-label selector. -/
def podLabelSelector (key value : GoString) : GoString :=
  podLabelPrefix ++ key ++ str ":" ++ value

/-- What every selector on the operator's own label starts with. -/
def variantSelectorPrefix : GoString := podLabelPrefix ++ variantLabelKey ++ str ":"

/-- `UniqueAndSorted`. The source collects the trimmed values in a map and sorts
the keys; the order in which the map yields them does not matter then. -/
def uniqueAndSorted (values : List GoString) : List GoString :=
  ((values.map trimSpace).filter (· ≠ [])).dedup.insertionSort (· ≤ ·)

/-- `strconv.Itoa` of a length. -/
def itoa (n : ℕ) : GoString :=
  if n = 0 then [48] else (Nat.digits 10 n).reverse.map fun d => UInt8.ofNat (48 + d)

/-- The bytes `SelectorFingerprint` feeds to the hash: length, NUL, selector, NUL
for each canonical selector. -/
def fingerprintStream (selectors : List GoString) : GoString :=
  (uniqueAndSorted selectors).flatMap fun selector =>
    itoa selector.length ++ [0] ++ selector ++ [0]

section Planner

variable (P : Platform)

/-- `SelectorFingerprint`. -/
def selectorFingerprint (selectors : List GoString) : GoString :=
  str "sha256:" ++ hexEncode (P.sha256 (fingerprintStream selectors))

/-- `ValidateVariant`. -/
def validateVariant (variant : GoString) : Except StateError Unit :=
  if variant ≠ trimSpace variant then
    .error ⟨.unsafeSelector, .invalidIdentityBoundary,
      str "identityBoundary.variant must not include leading or trailing whitespace"⟩
  else if variant = [] then
    .error ⟨.unsafeSelector, .invalidIdentityBoundary,
      str "identityBoundary.variant must not be empty"⟩
  else if (P.isValidLabelValue variant).length > 0 then
    .error ⟨.unsafeSelector, .invalidIdentityBoundary,
      str "identityBoundary.variant " ++ P.quote variant ++ str " is invalid: " ++
        join (str "; ") (P.isValidLabelValue variant)⟩
  else .ok ()

/-- `renderSafetySelectors`: the two mandatory selectors. -/
def renderSafetySelectors (namespace_ serviceAccountName : GoString) :
    Except GoString (List GoString) :=
  if trimSpace serviceAccountName = [] then
    .error (str "serviceAccountName must not be empty")
  else if (P.isDNS1123Subdomain serviceAccountName).length > 0 then
    .error (str "serviceAccountName " ++ P.quote serviceAccountName ++ str " is invalid: " ++
      join (str "; ") (P.isDNS1123Subdomain serviceAccountName))
  else .ok [nsPrefix ++ namespace_, saPrefix ++ serviceAccountName]

/-- `validateIdentityAnchor`. -/
def validateIdentityAnchor (anchor : IdentityAnchor) : Except GoString Unit :=
  if trimSpace anchor.kind = [] then
    .error (str "identity anchor kind must not be empty")
  else if trimSpace anchor.name = [] then
    .error (str "identity anchor name must not be empty")
  else if anchor.kind.contains (str "/") ∨ anchor.name.contains (str "/") then
    .error (str "identity anchor segments must not contain /")
  else if anchor.kind ≠ trimSpace anchor.kind ∨ anchor.name ≠ trimSpace anchor.name then
    .error (str "identity anchor segments must not include leading or trailing whitespace")
  else .ok ()

/-- `renderInferenceTargetSPIFFEID`. -/
def renderInferenceTargetSPIFFEID (trustDomain namespace_ serviceAccountName : GoString)
    (anchor : IdentityAnchor) (variant : GoString) : GoString :=
  str "spiffe://" ++ trustDomain ++ str "/ns/" ++ namespace_ ++ str "/sa/" ++
    serviceAccountName ++ str "/inference/" ++ anchor.kind ++ str "/" ++ anchor.name ++
    str "/variant/" ++ variant

/-- What the selector loop has seen so far. -/
structure SafetyScan where
  hasNamespaceSelector : Bool
  hasServiceAccountSelector : Bool
  variantSelectorCount : ℕ

/-- The loop of `validateRenderedSafetySelectors`. -/
def scanSafetySelectors (namespace_ serviceAccountName variant : GoString) :
    List GoString → SafetyScan → Except GoString SafetyScan
  | [], seen => .ok seen
  | selector :: rest, seen =>
    if selector.hasPrefix nsPrefix then
      if selector.trimPrefix nsPrefix ≠ namespace_ then
        .error (str "selector " ++ P.quote selector ++ str " escapes binding namespace " ++
          P.quote namespace_)
      else
        scanSafetySelectors namespace_ serviceAccountName variant rest
          { seen with hasNamespaceSelector := true }
    else if selector.hasPrefix saPrefix then
      if trimSpace (selector.trimPrefix saPrefix) = [] then
        .error (str "service account selector must not be empty")
      else if selector.trimPrefix saPrefix ≠ serviceAccountName then
        .error (str "selector " ++ P.quote selector ++
          str " escapes binding service account " ++ P.quote serviceAccountName)
      else
        scanSafetySelectors namespace_ serviceAccountName variant rest
          { seen with hasServiceAccountSelector := true }
    else if selector.hasPrefix variantSelectorPrefix then
      if selector ≠ variantSelectorPrefix ++ variant then
        .error (str "selector " ++ P.quote selector ++ str " conflicts with binding variant " ++
          P.quote variant)
      else
        scanSafetySelectors namespace_ serviceAccountName variant rest
          { seen with variantSelectorCount := seen.variantSelectorCount + 1 }
    else
      scanSafetySelectors namespace_ serviceAccountName variant rest seen

/-- `validateRenderedSafetySelectors`. -/
def validateRenderedSafetySelectors (namespace_ serviceAccountName variant : GoString)
    (selectors : List GoString) : Except GoString Unit :=
  match scanSafetySelectors P namespace_ serviceAccountName variant selectors
      ⟨false, false, 0⟩ with
  | .error message => .error message
  | .ok seen =>
    if !seen.hasNamespaceSelector then
      .error (str "selectors must include k8s:ns:" ++ namespace_)
    else if !seen.hasServiceAccountSelector then
      .error (str "selectors must include a k8s:sa:<service-account> selector")
    else if seen.variantSelectorCount ≠ 1 then
      .error (str "selectors must include " ++ variantSelectorPrefix ++ variant ++
        str " exactly once")
    else .ok ()

/-- The canonical selector list of an input, before it is validated. -/
def assembleSelectors (input : PlanInput) (rendered : List GoString) : List GoString :=
  uniqueAndSorted
    (rendered ++ input.target.derivedSelectors ++ [podLabelSelector variantLabelKey input.variant])

/-- `PlanIdentity`. -/
def planIdentity (input : PlanInput) : Except StateError Plan :=
  if trimSpace input.trustDomain = [] then
    .error ⟨.renderFailure, .missingTrustDomain,
      str "trustDomain must be configured before Kleym can render SPIFFE IDs"⟩
  else
    match validateVariant P input.variant with
    | .error err => .error err
    | .ok () =>
      match renderSafetySelectors P input.namespace_ input.serviceAccountName with
      | .error message => .error ⟨.renderFailure, .invalidServiceAccountName, message⟩
      | .ok rendered =>
        match validateIdentityAnchor input.target.identityAnchor with
        | .error message => .error ⟨.renderFailure, .invalidSPIFFEID, message⟩
        | .ok () =>
          let selectors := assembleSelectors input rendered
          match validateRenderedSafetySelectors P input.namespace_ input.serviceAccountName
              input.variant selectors with
          | .error message => .error ⟨.unsafeSelector, .unsafeSelector, message⟩
          | .ok () =>
            let spiffeID := renderInferenceTargetSPIFFEID input.trustDomain input.namespace_
              input.serviceAccountName input.target.identityAnchor input.variant
            if !spiffeID.hasPrefix (str "spiffe://") then
              .error ⟨.renderFailure, .invalidSPIFFEID,
                str "computed SPIFFE ID " ++ P.quote spiffeID ++
                  str " must start with spiffe://"⟩
            else
              .ok ⟨spiffeID, selectors, input.target.podSelector,
                input.target.identityAnchor, input.variant⟩

end Planner

/-! ## Exclusivity of variants -/

/-- `ConflictCause`. -/
inductive ConflictCause : Type where
  | variantReuse
  | duplicateSPIFFEID
  deriving DecidableEq

/-- The cause as it is written into status. -/
def ConflictCause.text : ConflictCause → GoString
  | .variantReuse => str "VariantReuse"
  | .duplicateSPIFFEID => str "DuplicateSPIFFEID"

/-- `VariantRecord`: one validated binding, as the evaluator sees it. -/
structure VariantRecord where
  bindingRef : NamespacedName
  serviceAccountName : GoString
  variant : GoString
  spiffeID : GoString
  deriving DecidableEq

/-- `VariantConflict`: one binding's conflict with one peer. -/
structure VariantConflict where
  bindingRef : NamespacedName
  peerBindingRef : NamespacedName
  cause : ConflictCause
  peerSpiffeID : GoString
  peerVariant : GoString
  deriving DecidableEq

/-- `variantConflict`. -/
def variantConflict (bindingRef : NamespacedName) (peer : VariantRecord)
    (cause : ConflictCause) : VariantConflict :=
  ⟨bindingRef, peer.bindingRef, cause, peer.spiffeID, peer.variant⟩

/-- `evaluateVariantPair`: `none` when the pair is exclusive. -/
def evaluateVariantPair (left right : VariantRecord) : Option ConflictCause :=
  if left.spiffeID = right.spiffeID then some .duplicateSPIFFEID
  else if left.bindingRef.namespace_ ≠ right.bindingRef.namespace_ ∨
      left.serviceAccountName ≠ right.serviceAccountName then none
  else if left.variant ≠ right.variant then none
  else some .variantReuse

/-- `compareVariantConflicts`: the first difference decides. -/
def compareVariantConflicts (left right : VariantConflict) : Ordering :=
  (compare left.bindingRef.namespace_ right.bindingRef.namespace_).then <|
  (compare left.bindingRef.name right.bindingRef.name).then <|
  (compare left.peerBindingRef.namespace_ right.peerBindingRef.namespace_).then <|
  (compare left.peerBindingRef.name right.peerBindingRef.name).then <|
  (compare left.cause.text right.cause.text).then <|
  (compare left.peerSpiffeID right.peerSpiffeID).then <|
  compare left.peerVariant right.peerVariant

/-- What one pair contributes: nothing, or one record in each direction. -/
def pairConflicts (left right : VariantRecord) : List VariantConflict :=
  match evaluateVariantPair left right with
  | none => []
  | some cause =>
    [variantConflict left.bindingRef right cause, variantConflict right.bindingRef left cause]

/-- The double loop of `EvaluateVariantConflicts`, before sorting. -/
def collectConflicts : List VariantRecord → List VariantConflict
  | [] => []
  | left :: rest => rest.flatMap (pairConflicts left) ++ collectConflicts rest

/-- `EvaluateVariantConflicts`. -/
def evaluateVariantConflicts (variants : List VariantRecord) : List VariantConflict :=
  (collectConflicts variants).insertionSort fun a b => compareVariantConflicts a b ≠ .gt

end Kleym
