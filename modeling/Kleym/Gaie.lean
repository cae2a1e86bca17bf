import Kleym.Identity

/-!
# GAIE inputs (`internal/gaie`)

The serving pool a binding points at is an `InferencePool` of the Gateway API
Inference Extension, read as untyped JSON. This module has the normalisation of
the pool reference, the choice of API versions to look under, and
`deriveSelectorsFromPool`, which accepts a pool selector in one of two shapes and
turns it into pod-label selectors.
-/

namespace Kleym

open GoString

/-- `schema.GroupVersionKind`. -/
structure GroupVersionKind where
  group : GoString
  version : GoString
  kind : GoString
  deriving DecidableEq

/-- An `InferencePool` object as it is read: its metadata and the rest of it. -/
structure InferencePool where
  gvk : GroupVersionKind
  namespace_ : GoString
  name : GoString
  /-- the decoded `spec` field, if there is one -/
  spec : Option Json

/-! ## API versions -/

/-- `inferencePoolGVKs`: the pool kinds kleym supports. -/
def inferencePoolGVKs : List GroupVersionKind :=
  [⟨str "inference.networking.k8s.io", str "v1", str "InferencePool"⟩]

/-- `ResolvePoolGVKs`. -/
def resolvePoolGVKs (available : List GroupVersionKind) : List GroupVersionKind :=
  if available.length > 0 then available else inferencePoolGVKs

/-- `supportedPoolGVKsForGroup`. -/
def supportedPoolGVKsForGroup (group : GoString) : List GroupVersionKind :=
  inferencePoolGVKs.filter fun gvk => gvk.group = group

/-- `IsSupportedInferencePoolGroup`. -/
def isSupportedInferencePoolGroup (group : GoString) : Bool :=
  (supportedPoolGVKsForGroup group).length > 0

/-- `CandidatePoolGVKs`. -/
def candidatePoolGVKs (candidates : List GroupVersionKind) (group : GoString) :
    List GroupVersionKind :=
  if group = [] then candidates
  else
    let filtered := candidates.filter fun gvk => gvk.group = group
    if filtered.length > 0 then filtered else supportedPoolGVKsForGroup group

/-! ## The pool reference -/

/-- `InferencePoolTargetRef`: the reference as the user wrote it. -/
structure InferencePoolTargetRef where
  name : GoString
  group : GoString
  deriving DecidableEq

/-- `PoolRef`: the normalised reference. -/
structure PoolRef where
  name : GoString
  group : GoString
  namespace_ : GoString
  deriving DecidableEq

section

variable (P : Platform)

/-- `BindingPoolRef`, for a binding in `namespace_` with the reference `ref`. Its
errors are plain ones: no condition type or reason goes with them. -/
def bindingPoolRef (namespace_ : GoString) (ref : InferencePoolTargetRef) :
    Except GoString PoolRef :=
  if trimSpace ref.name = [] then
    .error (str "spec.poolRef.name is required")
  else if trimSpace ref.group ≠ [] ∧ isSupportedInferencePoolGroup (trimSpace ref.group) = false then
    .error (str "spec.poolRef.group " ++ P.quote (trimSpace ref.group) ++
      str " is not a supported GAIE InferencePool group")
  else .ok ⟨trimSpace ref.name, trimSpace ref.group, namespace_⟩

/-! ## Pool selectors -/

/-- `unstructured.NestedMap(pool.Object, "spec", "selector")`: an error when a value
on the path is not a map, `none` when a field on the path is missing. -/
def nestedSelector (spec : Option Json) : Except GoString (Option (List (GoString × Json))) :=
  match spec with
  | none => .ok none
  | some .null => .ok none
  | some (.object fields) =>
    match fields.lookup (str "selector") with
    | none => .ok none
    | some (.object selector) => .ok (some selector)
    | some value => .error (P.accessorError [str "spec", str "selector"] value)
  | some value => .error (P.accessorError [str "spec", str "selector"] value)

/-- The loop of `DeriveSelectorsFromPool` over the labels. -/
def labelSelectors : List (GoString × Json) → Except GoString (List GoString)
  | [] => .ok []
  | (key, value) :: rest =>
    match value.asString with
    | none => .error (str "pool spec.selector.matchLabels[" ++ P.quote key ++
        str "] must be a string")
    | some valueText =>
      if key = [] then
        .error (str "pool selector labels must contain non-empty keys")
      else if valueText = [] then
        .error (str "pool selector labels must contain non-empty values")
      else if (P.isQualifiedName key).length > 0 then
        .error (str "pool spec.selector.matchLabels key " ++ P.quote key ++ str " is invalid: " ++
          join (str "; ") (P.isQualifiedName key))
      else if (P.isValidLabelValue valueText).length > 0 then
        .error (str "pool spec.selector.matchLabels[" ++ P.quote key ++ str "] value " ++
          P.quote valueText ++ str " is invalid: " ++
          join (str "; ") (P.isValidLabelValue valueText))
      else
        match labelSelectors rest with
        | .error message => .error message
        | .ok selectors => .ok (podLabelSelector key valueText :: selectors)

/-- The labels a selector map stands for: the value of its only key `matchLabels`,
or the map itself when all its values are strings. -/
def selectorLabels (selectorMap : List (GoString × Json)) :
    Except GoString (List (GoString × Json)) :=
  match selectorMap.lookup (str "matchLabels") with
  | some rawMatchLabels =>
    match selectorMap.find? fun field => field.1 ≠ str "matchLabels" with
    | some (key, _) => .error (str "pool spec.selector." ++ key ++ str " is not supported")
    | none =>
      match rawMatchLabels.asObject with
      | none => .error (str "pool spec.selector.matchLabels must be an object")
      | some matchLabels => .ok matchLabels
  | none =>
    if selectorMap.all fun field => field.2.asString.isSome then .ok selectorMap
    else .error (str "pool selector must use matchLabels for deterministic rendering")

/-- `DeriveSelectorsFromPool`: the normalised pod selector and the pod-label
selectors, the latter in the order the loop over the label map visits them. -/
def deriveSelectorsFromPool (pool : InferencePool) : Except GoString (Json × List GoString) :=
  match nestedSelector P pool.spec with
  | .error message => .error (str "failed to decode pool spec.selector: " ++ message)
  | .ok none => .error (str "pool spec.selector must be set")
  | .ok (some selectorMap) =>
    if selectorMap.length = 0 then .error (str "pool spec.selector must be set")
    else if (selectorMap.lookup (str "matchExpressions")).isSome then
      .error (str "pool spec.selector.matchExpressions are not supported")
    else
      match selectorLabels selectorMap with
      | .error message => .error message
      | .ok matchLabels =>
        if matchLabels.length = 0 then
          .error (str "pool spec.selector.matchLabels must not be empty")
        else
          match labelSelectors P matchLabels with
          | .error message => .error message
          | .ok derivedSelectors =>
            .ok (.object [(str "matchLabels", .object matchLabels)], derivedSelectors)

/-- `ResolveInferenceTarget`. -/
def resolveInferenceTarget (pool : InferencePool) : Except GoString ResolvedInferenceTarget :=
  match deriveSelectorsFromPool P pool with
  | .error message => .error message
  | .ok (podSelector, derivedSelectors) =>
    .ok ⟨⟨str "pool", pool.name⟩, podSelector, derivedSelectors⟩

end

end Kleym
