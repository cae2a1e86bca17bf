import Kleym.Taxonomy

/-!
# Outcome metrics (`internal/controller/inferenceidentitybinding_metrics.go`)

A binding counts under one pair of labels, a condition and a reason, which are read off the
conditions of its status: Ready when it is, and else the first failure condition that is True.
The counter goes up by one when a reconcile has persisted a terminal outcome; the gauge is
computed from all bindings whenever it is scraped.

`Status.Classed` is the part of the status contract that speaks about conditions only. It is all
the classification rests on: a status that is classed counts once if it has a Ready condition
and not at all otherwise, and never as unclassified.
-/

namespace Kleym

open GoString

/-! ## Labels -/

/-- `bindingOutcomeLabels`. -/
structure OutcomeLabels where
  condition : ConditionType
  reason : GoString
  deriving DecidableEq

/-- `metricReasonInitializing`. -/
def metricReasonInitializing : GoString := str "Initializing"

/-- `metricReasonUnclassifiedFailure`. -/
def metricReasonUnclassifiedFailure : GoString := str "UnclassifiedFailure"

/-- `failureOutcomeConditionOrder`. -/
def failureOutcomeConditionOrder : List ConditionType :=
  [.invalidRef, .unsafeSelector, .conflict, .renderFailure]

/-- The labels that a Ready condition has by itself. -/
def readyLabels (allowInitializing : Bool) (ready : Condition) : Option OutcomeLabels :=
  match ready.status with
  | .true_ => some ⟨.ready, ready.reason.text⟩
  | .unknown =>
    if allowInitializing ∧ ready.reason.text = metricReasonInitializing then
      some ⟨.ready, metricReasonInitializing⟩
    else none
  | .false_ => none

/-- The labels of a failure condition that is True. -/
def failureLabels (conditions : List Condition) (type : ConditionType) : Option OutcomeLabels :=
  match findStatusCondition conditions type with
  | some condition =>
    if condition.status = .true_ then some ⟨condition.type, condition.reason.text⟩ else none
  | none => none

/-- `deriveBindingOutcomeLabels`. -/
def deriveBindingOutcomeLabels (status : Status) (allowInitializing : Bool) :
    Option OutcomeLabels :=
  let ready := findStatusCondition status.conditions .ready
  match ready.bind (readyLabels allowInitializing) with
  | some labels => some labels
  | none =>
    match failureOutcomeConditionOrder.findSome? (failureLabels status.conditions) with
    | some labels => some labels
    | none =>
      if ready.any fun c => c.status = .false_ then
        some ⟨.ready, metricReasonUnclassifiedFailure⟩
      else none

/-! ## The counter and the gauge -/

/-- `RecordTerminalOutcome`, on the values of the counter. -/
def countTerminalOutcome (counter : OutcomeLabels → ℕ) (status : Status) : OutcomeLabels → ℕ :=
  match deriveBindingOutcomeLabels status false with
  | some labels => Function.update counter labels (counter labels + 1)
  | none => counter

/-- `aggregated[labels]++`. -/
def increment (labels : OutcomeLabels) : List (OutcomeLabels × ℕ) → List (OutcomeLabels × ℕ)
  | [] => [(labels, 1)]
  | (l, value) :: rest =>
    if l = labels then (l, value + 1) :: rest else (l, value) :: increment labels rest

/-- Count one binding. -/
def aggregate (aggregated : List (OutcomeLabels × ℕ)) (binding : Binding) :
    List (OutcomeLabels × ℕ) :=
  match deriveBindingOutcomeLabels binding.status true with
  | some labels => increment labels aggregated
  | none => aggregated

/-- `Collect`: the metrics it emits, in some order. Nothing is emitted before a lister is set
and when listing fails. -/
def collect : Option (Except GoError (List Binding)) → List (OutcomeLabels × ℕ)
  | some (.ok bindings) => bindings.foldl aggregate []
  | _ => []

theorem sum_increment (labels : OutcomeLabels) (aggregated : List (OutcomeLabels × ℕ)) :
    ((increment labels aggregated).map Prod.snd).sum = (aggregated.map Prod.snd).sum + 1 := by
  induction aggregated with
  | nil => rfl
  | cons entry rest ih =>
    obtain ⟨l, value⟩ := entry
    rw [increment]
    split_ifs
    · simp only [List.map_cons, List.sum_cons]
      omega
    · simp only [List.map_cons, List.sum_cons, ih]
      omega

/-- The values add up to the bindings with labels. -/
theorem sum_collect (bindings : List Binding) :
    ((collect (some (.ok bindings))).map Prod.snd).sum =
      bindings.countP fun b => (deriveBindingOutcomeLabels b.status true).isSome := by
  suffices h : ∀ aggregated : List (OutcomeLabels × ℕ),
      ((bindings.foldl aggregate aggregated).map Prod.snd).sum =
        (aggregated.map Prod.snd).sum +
          bindings.countP fun b => (deriveBindingOutcomeLabels b.status true).isSome from
    (h []).trans (Nat.zero_add _)
  induction bindings with
  | nil => exact fun _ => rfl
  | cons b bindings ih =>
    intro aggregated
    rw [List.foldl_cons, ih, aggregate, List.countP_cons]
    cases deriveBindingOutcomeLabels b.status true with
    | none => simp
    | some labels =>
      dsimp only
      rw [sum_increment]
      simp only [Option.isSome_some, if_pos]
      omega

/-! ## Classed statuses -/

/-- Nothing but the conditions matters. -/
theorem Status.Classed.congr {status status' : Status} (h : status.Classed)
    (heq : status'.conditions = status.conditions) : status'.Classed := by
  have hverdict : status'.verdict = status.verdict := by
    funext t
    rw [Status.verdict, Status.verdict, heq]
  constructor
  · rw [Status.UniqueTypes, heq]
    exact h.nodup
  · rw [heq]
    exact h.allowed
  · simp only [Status.Is, hverdict]
    exact h.exclusive
  · simp only [Status.Is, hverdict]
    exact h.ready_false

/-- Ready is decided. -/
def Status.Terminal (status : Status) : Prop := status.Is .ready .true_ ∨ status.Is .ready .false_

/-- How a status counts, by its Ready condition. -/
structure Status.Counted (status : Status) : Prop where
  isSome_iff : (deriveBindingOutcomeLabels status true).isSome ↔
    (findStatusCondition status.conditions .ready).isSome
  ready : status.Is .ready .true_ →
    deriveBindingOutcomeLabels status true = some ⟨.ready, str "Reconciled"⟩
  initializing : status.Is .ready .unknown →
    deriveBindingOutcomeLabels status true = some ⟨.ready, str "Initializing"⟩
  failure : status.Is .ready .false_ → ∃ t ∈ failureConditions,
    (∀ t' ∈ failureConditions, status.Is t' .true_ ↔ t' = t) ∧
    ∃ c, findStatusCondition status.conditions t = some c ∧
      deriveBindingOutcomeLabels status true = some ⟨t, c.reason.text⟩
  classified : ∀ labels, deriveBindingOutcomeLabels status true = some labels →
    labels.reason ≠ metricReasonUnclassifiedFailure

section

variable {status : Status}

theorem Status.is_iff {t : ConditionType} {value : ConditionStatus} : status.Is t value ↔
    ∃ c, findStatusCondition status.conditions t = some c ∧ c.type = t ∧ c.status = value := by
  rw [Status.Is, Status.verdict, Option.map_map]
  constructor
  · intro h
    obtain ⟨c, hc, hvalue⟩ := Option.map_eq_some_iff.mp h
    exact ⟨c, hc, by simpa using List.find?_some hc, hvalue⟩
  · rintro ⟨c, hc, -, rfl⟩
    rw [hc]
    rfl

theorem failureLabels_of_not_is {t : ConditionType} (h : ¬status.Is t .true_) :
    failureLabels status.conditions t = none := by
  rw [failureLabels]
  cases hfind : findStatusCondition status.conditions t with
  | none => rfl
  | some c => exact if_neg fun htrue => h (Status.is_iff.mpr
      ⟨c, hfind, by simpa using List.find?_some hfind, htrue⟩)

theorem failureLabels_of_is {t : ConditionType} {c : Condition}
    (hfind : findStatusCondition status.conditions t = some c) (htype : c.type = t)
    (htrue : c.status = .true_) : failureLabels status.conditions t = some ⟨t, c.reason.text⟩ := by
  rw [failureLabels, hfind, ← htype]
  exact if_pos htrue

/-- Without a failure, none is found. -/
theorem findSome_failureLabels_eq_none (h : ∀ t ∈ failureConditions, ¬status.Is t .true_) :
    failureOutcomeConditionOrder.findSome? (failureLabels status.conditions) = none :=
  List.findSome?_eq_none_iff.mpr fun t ht => failureLabels_of_not_is (h t ht)

/-- The one failure is found wherever it stands in the order. -/
theorem findSome_failureLabels_eq_some {t : ConditionType} {c : Condition}
    (ht : t ∈ failureConditions) (hunique : ∀ t' ∈ failureConditions, status.Is t' .true_ → t' = t)
    (hfind : findStatusCondition status.conditions t = some c) (htype : c.type = t)
    (htrue : c.status = .true_) :
    failureOutcomeConditionOrder.findSome? (failureLabels status.conditions) =
      some ⟨t, c.reason.text⟩ := by
  have hself := failureLabels_of_is hfind htype htrue
  have hothers : ∀ t' ∈ failureConditions, t' ≠ t → failureLabels status.conditions t' = none :=
    fun t' ht' hne => failureLabels_of_not_is fun his => hne (hunique t' ht' his)
  cases t <;> simp_all [failureOutcomeConditionOrder, failureConditions]

variable (h : status.Classed)

include h

/-- What is found under a type has a reason of that type. -/
theorem Status.Classed.reason_allowed {t : ConditionType} {c : Condition}
    (hfind : findStatusCondition status.conditions t = some c) (htype : c.type = t) :
    c.reason ∈ allowedReasons t c.status :=
  htype ▸ h.allowed c (List.mem_of_find?_eq_some hfind)

theorem Status.Classed.labels_ready (hready : status.Is .ready .true_) (allowInitializing : Bool) :
    deriveBindingOutcomeLabels status allowInitializing = some ⟨.ready, str "Reconciled"⟩ := by
  obtain ⟨c, hfind, htype, hstatus⟩ := Status.is_iff.mp hready
  have hreason := h.reason_allowed hfind htype
  rw [hstatus, allowedReasons, List.mem_singleton] at hreason
  rw [deriveBindingOutcomeLabels, hfind]
  simp only [Option.bind_some, readyLabels, hstatus, hreason]
  rfl

theorem Status.Classed.labels_initializing (hready : status.Is .ready .unknown) :
    deriveBindingOutcomeLabels status true = some ⟨.ready, str "Initializing"⟩ := by
  obtain ⟨c, hfind, htype, hstatus⟩ := Status.is_iff.mp hready
  have hreason := h.reason_allowed hfind htype
  rw [hstatus, allowedReasons, List.mem_singleton] at hreason
  rw [deriveBindingOutcomeLabels, hfind]
  simp only [Option.bind_some, readyLabels, hstatus, hreason]
  rfl

theorem Status.Classed.labels_failure (hready : status.Is .ready .false_) :
    ∃ t ∈ failureConditions, (∀ t' ∈ failureConditions, status.Is t' .true_ ↔ t' = t) ∧
      ∃ c, findStatusCondition status.conditions t = some c ∧ ∀ allowInitializing,
        deriveBindingOutcomeLabels status allowInitializing = some ⟨t, c.reason.text⟩ := by
  obtain ⟨t, ht, htrue⟩ := h.ready_false.mp hready
  have hunique : ∀ t' ∈ failureConditions, status.Is t' .true_ → t' = t :=
    fun t' ht' his => h.exclusive t' ht' t ht his htrue
  obtain ⟨c, hfind, htype, hstatus⟩ := Status.is_iff.mp htrue
  refine ⟨t, ht, fun t' ht' => ⟨hunique t' ht', fun heq => heq ▸ htrue⟩, c, hfind, fun allow => ?_⟩
  obtain ⟨ready, hfindReady, -, hstatusReady⟩ := Status.is_iff.mp hready
  rw [deriveBindingOutcomeLabels, hfindReady]
  simp only [Option.bind_some, readyLabels, hstatusReady,
    findSome_failureLabels_eq_some ht hunique hfind htype hstatus]

theorem Status.Classed.labels_none
    (hnone : findStatusCondition status.conditions .ready = none) (allowInitializing : Bool) :
    deriveBindingOutcomeLabels status allowInitializing = none := by
  have hnot : ∀ value, ¬status.Is .ready value := by
    intro value hready
    obtain ⟨c, hfind, -⟩ := Status.is_iff.mp hready
    rw [hnone] at hfind
    cases hfind
  have hfailures : ∀ t ∈ failureConditions, ¬status.Is t .true_ :=
    fun t ht his => hnot .false_ (h.ready_false.mpr ⟨t, ht, his⟩)
  rw [deriveBindingOutcomeLabels, hnone]
  simp only [Option.bind_none, findSome_failureLabels_eq_none hfailures]
  rfl

/-- **The classification**: the four cases are all there are, and none is the fallback. -/
theorem Status.Classed.counted : status.Counted := by
  have hcases : findStatusCondition status.conditions .ready = none ∨
      ∃ value, status.Is .ready value := by
    cases hfind : findStatusCondition status.conditions .ready with
    | none => exact Or.inl rfl
    | some c => exact Or.inr ⟨c.status, Status.is_iff.mpr
        ⟨c, hfind, by simpa using List.find?_some hfind, rfl⟩⟩
  have hfailure : status.Is .ready .false_ → ∃ t ∈ failureConditions,
      (∀ t' ∈ failureConditions, status.Is t' .true_ ↔ t' = t) ∧
      ∃ c, findStatusCondition status.conditions t = some c ∧
        deriveBindingOutcomeLabels status true = some ⟨t, c.reason.text⟩ := by
    intro hready
    obtain ⟨t, ht, hunique, c, hfind, hlabels⟩ := h.labels_failure hready
    exact ⟨t, ht, hunique, c, hfind, hlabels true⟩
  have hunclassified : ∀ reason : Reason, reason.text ≠ metricReasonUnclassifiedFailure := by
    intro reason
    cases reason <;> decide
  refine ⟨?_, (h.labels_ready · true), h.labels_initializing, hfailure, ?_⟩
  · rcases hcases with hnone | ⟨value, hready⟩
    · rw [h.labels_none hnone, hnone]
      rfl
    · obtain ⟨c, hfind, -⟩ := Status.is_iff.mp hready
      rw [hfind]
      cases value with
      | true_ => simp [h.labels_ready hready]
      | unknown => simp [h.labels_initializing hready]
      | false_ =>
        obtain ⟨t, -, -, c', -, hlabels⟩ := hfailure hready
        simp [hlabels]
  · intro labels hlabels
    rcases hcases with hnone | ⟨value, hready⟩
    · rw [h.labels_none hnone] at hlabels
      cases hlabels
    · cases value with
      | true_ =>
        rw [h.labels_ready hready] at hlabels
        cases hlabels
        exact hunclassified .reconciled
      | unknown =>
        rw [h.labels_initializing hready] at hlabels
        cases hlabels
        exact hunclassified .initializing
      | false_ =>
        obtain ⟨t, -, -, c, -, heq⟩ := hfailure hready
        rw [heq] at hlabels
        cases hlabels
        exact hunclassified c.reason

/-- A terminal outcome has the labels it also counts under in the gauge. -/
theorem Status.Classed.labels_terminal (hterminal : status.Terminal) :
    ∃ labels, deriveBindingOutcomeLabels status true = some labels ∧
      deriveBindingOutcomeLabels status false = some labels := by
  rcases hterminal with hready | hready
  · exact ⟨_, h.labels_ready hready true, h.labels_ready hready false⟩
  · obtain ⟨t, -, -, c, -, hlabels⟩ := h.labels_failure hready
    exact ⟨_, hlabels true, hlabels false⟩

end

end Kleym
