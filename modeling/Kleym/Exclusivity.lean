import Kleym.Boundary
import Kleym.Apimachinery

/-!
# Exclusivity of rendered bindings

`evaluateVariantPair` calls two records a conflict when their SPIFFE IDs are equal
or their boundaries are. On arbitrary records that relation is neither transitive
nor local to a namespace. On records that come from `PlanIdentity` it is both: the
SPIFFE ID spells out the boundary, segment by segment, so equal IDs mean equal
boundaries and conflict is nothing but equality of boundaries. The controller
relies on it when it lists one namespace only and withdraws direct peers only.
-/

namespace Kleym

open GoString

/-- A binding together with the plan it renders to. -/
structure RenderedBinding (r : Reconciler) where
  binding : Binding
  pool : InferencePool
  plan : Plan
  rendered : r.renderIdentity binding pool = .ok plan

variable {r r' : Reconciler}

namespace RenderedBinding

/-- The record the evaluator sees. -/
def record (x : RenderedBinding r) : VariantRecord := variantRecord x.binding x.plan

/-- The boundary the binding declares. -/
def boundary (x : RenderedBinding r) : Boundary := x.binding.boundary

theorem record_variant (x : RenderedBinding r) : x.record.variant = x.binding.spec.variant :=
  variant_of_renderIdentity x.rendered

theorem boundary_renderedIn (x : RenderedBinding r) :
    x.boundary.RenderedIn x.plan.selectors := by
  obtain ⟨target, -, h⟩ := planIdentity_of_renderIdentity x.rendered
  exact (planIdentity_boundary h).1

/-- A binding that renders, by evaluation. -/
def ofOk (binding : Binding) (pool : InferencePool)
    (h : (r.renderIdentity binding pool).isOk = true) : RenderedBinding r :=
  match hplan : r.renderIdentity binding pool with
  | .ok plan => ⟨binding, pool, plan, hplan⟩
  | .error err => absurd h (by rw [hplan]; exact Bool.false_ne_true)

end RenderedBinding

/-! ## A small instance

A pool `p` with one label and bindings `b` of the namespace `n` with the service
account `s`, for the runs that show a statement is not vacuous. -/

/-- The operator for the trust domain `t`. No hash is taken while rendering. -/
def smallReconciler : Reconciler :=
  ⟨referencePlatform (fun _ => []) fun _ => [], ⟨str "t", []⟩, []⟩

/-- The pool kind that is served. -/
def smallPoolGVK : GroupVersionKind :=
  ⟨str "inference.networking.k8s.io", str "v1", str "InferencePool"⟩

/-- The pool `n/p` selecting `a=b`. -/
def smallPool : InferencePool :=
  ⟨smallPoolGVK, str "n", str "p",
    some (.object [(str "selector", .object [(str "matchLabels",
      .object [(str "a", .string (str "b"))])])])⟩

/-- What a user writes to ask for a variant of the pool. -/
def smallSpec (variant : String) : BindingSpec := ⟨⟨str "p", []⟩, str "s", str variant⟩

/-- A binding of the namespace `n` for a variant of the pool. -/
def smallBinding (name variant : String) : Binding :=
  ⟨⟨str "n", str name⟩, str name, 1, 1, false, [], smallSpec variant, {}⟩

/-! ## Pairs -/

/-- A pair without conflict has different SPIFFE IDs and differs in the boundary. -/
theorem evaluateVariantPair_eq_none {left right : VariantRecord}
    (h : evaluateVariantPair left right = none) :
    left.spiffeID ≠ right.spiffeID ∧
      (left.bindingRef.namespace_ ≠ right.bindingRef.namespace_ ∨
        left.serviceAccountName ≠ right.serviceAccountName ∨ left.variant ≠ right.variant) := by
  rw [evaluateVariantPair] at h
  split_ifs at h with hid hboundary hvariant
  · exact ⟨hid, hboundary.imp_right Or.inl⟩
  · exact ⟨hid, Or.inr (Or.inr hvariant)⟩

/-- A pair in conflict has equal SPIFFE IDs or an equal boundary. -/
theorem of_evaluateVariantPair_isSome {left right : VariantRecord}
    (h : (evaluateVariantPair left right).isSome) :
    left.spiffeID = right.spiffeID ∨
      (left.bindingRef.namespace_ = right.bindingRef.namespace_ ∧
        left.serviceAccountName = right.serviceAccountName ∧ left.variant = right.variant) := by
  rw [evaluateVariantPair] at h
  split_ifs at h with hid hboundary hvariant
  · exact Or.inl hid
  · cases h
  · cases h
  · rw [not_or, not_ne_iff, not_ne_iff] at hboundary
    exact Or.inr ⟨hboundary.1, hboundary.2, not_ne_iff.mp hvariant⟩

/-- **Plans without conflict share no pod**, whatever pools they come from and
whatever the two operators are configured with. -/
theorem not_satisfiesAll_both_of_exclusive (left : RenderedBinding r)
    (right : RenderedBinding r')
    (hexclusive : evaluateVariantPair left.record right.record = none) (pod : Pod) :
    ¬(pod.SatisfiesAll left.plan.selectors ∧ pod.SatisfiesAll right.plan.selectors) := by
  rintro ⟨hleft, hright⟩
  have heq : left.boundary = right.boundary :=
    Pod.boundary_eq_of_satisfiesAll hleft left.boundary_renderedIn hright
      right.boundary_renderedIn
  obtain ⟨-, hne⟩ := evaluateVariantPair_eq_none hexclusive
  rcases hne with hns | hsa | hvariant
  · exact hns (congrArg Boundary.namespace_ heq)
  · exact hsa (congrArg Boundary.serviceAccountName heq)
  · rw [left.record_variant, right.record_variant] at hvariant
    exact hvariant (congrArg Boundary.variant heq)

/-- The binding `n/b` rendered for the pool. -/
def smallRendered (name variant : String)
    (h : (smallReconciler.renderIdentity (smallBinding name variant) smallPool).isOk = true) :
    RenderedBinding smallReconciler :=
  .ofOk (smallBinding name variant) smallPool h

/-- The binding `x` for the variant `v`. -/
def smallX : RenderedBinding smallReconciler := smallRendered "x" "v" (by decide +kernel)

/-- The binding `y`, for the variant `v` as well. -/
def smallY : RenderedBinding smallReconciler := smallRendered "y" "v" (by decide +kernel)

/-- The binding `z` for the variant `w`. -/
def smallZ : RenderedBinding smallReconciler := smallRendered "z" "w" (by decide +kernel)

theorem not_satisfiesAll_both_of_exclusive_small :
    ¬(Pod.SatisfiesAll ⟨str "n", str "s", fun _ => some (str "v")⟩ smallX.plan.selectors ∧
      Pod.SatisfiesAll ⟨str "n", str "s", fun _ => some (str "v")⟩ smallZ.plan.selectors) :=
  not_satisfiesAll_both_of_exclusive _ _ (by decide +kernel) _

/-! ## The SPIFFE ID spells out the boundary -/

/-- The byte that separates the segments of a SPIFFE ID. -/
def slash : UInt8 := 47

/-- Segments without a slash can be read back from a SPIFFE ID. The variant comes
last and may hold anything. -/
theorem renderInferenceTargetSPIFFEID_inj {td td' ns ns' sa sa' : GoString}
    {anchor anchor' : IdentityAnchor} {variant variant' : GoString}
    (htd : slash ∉ td) (htd' : slash ∉ td') (hns : slash ∉ ns) (hns' : slash ∉ ns')
    (hsa : slash ∉ sa) (hsa' : slash ∉ sa') (hanchor : slash ∉ anchor.kind ∧ slash ∉ anchor.name)
    (hanchor' : slash ∉ anchor'.kind ∧ slash ∉ anchor'.name)
    (h : renderInferenceTargetSPIFFEID td ns sa anchor variant =
      renderInferenceTargetSPIFFEID td' ns' sa' anchor' variant') :
    td = td' ∧ ns = ns' ∧ sa = sa' ∧ anchor = anchor' ∧ variant = variant' := by
  have sep₁ : str "/ns/" = slash :: str "ns/" := by decide
  have sep₂ : str "/sa/" = slash :: str "sa/" := by decide
  have sep₃ : str "/inference/" = slash :: str "inference/" := by decide
  have sep₄ : str "/" = [slash] := by decide
  have sep₅ : str "/variant/" = slash :: str "variant/" := by decide
  simp only [renderInferenceTargetSPIFFEID, List.append_assoc, sep₁, sep₂, sep₃, sep₄, sep₅,
    List.cons_append, List.nil_append] at h
  obtain ⟨rfl, h₁⟩ := append_sep_inj htd htd' (List.append_cancel_left h)
  obtain ⟨rfl, h₂⟩ := append_sep_inj hns hns' (List.append_cancel_left h₁)
  obtain ⟨rfl, h₃⟩ := append_sep_inj hsa hsa' (List.append_cancel_left h₂)
  obtain ⟨hkind, h₄⟩ := append_sep_inj hanchor.1 hanchor'.1 (List.append_cancel_left h₃)
  obtain ⟨hname, h₅⟩ := append_sep_inj hanchor.2 hanchor'.2 h₄
  have hvariant := List.append_cancel_left h₅
  cases anchor; cases anchor'
  exact ⟨rfl, rfl, rfl, by simp_all, hvariant⟩

theorem slash_not_mem_of_contains {s : GoString} (h : ¬s.contains (str "/") = true) :
    slash ∉ s := fun hmem => h (contains_singleton.mpr hmem)

theorem validateIdentityAnchor_ok {anchor : IdentityAnchor}
    (h : validateIdentityAnchor anchor = .ok ()) : slash ∉ anchor.kind ∧ slash ∉ anchor.name := by
  rw [validateIdentityAnchor] at h
  split_ifs at h with _ _ hslash
  rw [not_or] at hslash
  exact ⟨slash_not_mem_of_contains hslash.1, slash_not_mem_of_contains hslash.2⟩

theorem OperatorConfig.validate_ok {config : OperatorConfig} (h : config.validate = .ok ()) :
    slash ∉ config.trustDomain := by
  rw [OperatorConfig.validate] at h
  split_ifs at h with _ _ _ hslash
  exact slash_not_mem_of_contains hslash

/-- `IsDNS1123Subdomain` accepts no slash. -/
def Platform.SubdomainsWithoutSlash (P : Platform) : Prop :=
  ∀ s, (P.isDNS1123Subdomain s).length = 0 → slash ∉ s

/-! ## Evaluating a list of records -/

/-- The conflicts of a list are those of its pairs of positions. -/
theorem mem_collectConflicts {l : List VariantRecord} {c : VariantConflict} :
    c ∈ collectConflicts l ↔ ∃ x y, [x, y].Sublist l ∧ c ∈ pairConflicts x y := by
  induction l with
  | nil => simp [collectConflicts]
  | cons a l ih =>
    rw [collectConflicts, List.mem_append, ih, List.mem_flatMap]
    constructor
    · rintro (⟨y, hy, hc⟩ | ⟨x, y, hxy, hc⟩)
      · exact ⟨a, y, (List.singleton_sublist.mpr hy).cons_cons a, hc⟩
      · exact ⟨x, y, hxy.cons a, hc⟩
    · rintro ⟨x, y, hxy, hc⟩
      cases hxy with
      | cons _ hxy => exact Or.inr ⟨x, y, hxy, hc⟩
      | cons_cons _ hy => exact Or.inl ⟨y, List.singleton_sublist.mp hy, hc⟩

/-- Dropping items commutes with expanding them when what a dropped item expands to
is dropped as well. -/
theorem flatMap_filter_of_split {α β : Type} {f : α → List β} {p : α → Bool} {q : β → Bool}
    {l : List α} (hkeep : ∀ b ∈ l, p b = true → ∀ c ∈ f b, q c = true)
    (hdrop : ∀ b ∈ l, p b = false → ∀ c ∈ f b, q c = false) :
    (l.filter p).flatMap f = (l.flatMap f).filter q := by
  induction l with
  | nil => rfl
  | cons b l ih =>
    have hb := List.mem_cons_self (a := b) (l := l)
    rw [List.flatMap_cons, List.filter_append,
      ← ih (fun x hx => hkeep x (List.mem_cons_of_mem b hx))
        (fun x hx => hdrop x (List.mem_cons_of_mem b hx))]
    cases hp : p b with
    | true =>
      rw [List.filter_cons_of_pos hp, List.flatMap_cons, List.filter_eq_self.mpr (hkeep b hb hp)]
    | false =>
      have hnil : (f b).filter q = [] :=
        List.filter_eq_nil_iff.mpr fun c hc => by simp [hdrop b hb hp c hc]
      rw [List.filter_cons_of_neg (by simp [hp]), hnil, List.nil_append]

/-- Dropping records commutes with collecting conflicts when no conflict joins a
dropped record and a kept one. -/
theorem collectConflicts_filter {l : List VariantRecord} {p : VariantRecord → Bool}
    {q : VariantConflict → Bool}
    (hkeep : ∀ x ∈ l, ∀ y ∈ l, p x = true → p y = true → ∀ c ∈ pairConflicts x y, q c = true)
    (hdrop : ∀ x ∈ l, ∀ y ∈ l, (p x && p y) = false → ∀ c ∈ pairConflicts x y, q c = false) :
    collectConflicts (l.filter p) = (collectConflicts l).filter q := by
  induction l with
  | nil => rfl
  | cons a l ih =>
    have ha := List.mem_cons_self (a := a) (l := l)
    have hl : ∀ x ∈ l, x ∈ a :: l := fun x hx => List.mem_cons_of_mem a hx
    have ih := ih (fun x hx y hy => hkeep x (hl x hx) y (hl y hy))
      (fun x hx y hy => hdrop x (hl x hx) y (hl y hy))
    rw [collectConflicts, List.filter_append, ← ih]
    cases hp : p a with
    | true =>
      rw [List.filter_cons_of_pos hp, collectConflicts, flatMap_filter_of_split]
      · exact fun y hy hpy => hkeep a ha y (hl y hy) hp hpy
      · exact fun y hy hpy => hdrop a ha y (hl y hy) (by simp [hpy])
    | false =>
      have hnil : (l.flatMap (pairConflicts a)).filter q = [] := by
        refine List.filter_eq_nil_iff.mpr fun c hc => ?_
        obtain ⟨y, hy, hc⟩ := List.mem_flatMap.mp hc
        simp [hdrop a ha y (hl y hy) (by simp [hp]) c hc]
      rw [List.filter_cons_of_neg (by simp [hp]), hnil, List.nil_append]

/-- `compareVariantConflicts` compares one field after the other. -/
theorem compareVariantConflicts_eq_compareLex :
    compareVariantConflicts =
      compareLex (compareOn fun c => c.bindingRef.namespace_) (
      compareLex (compareOn fun c => c.bindingRef.name) (
      compareLex (compareOn fun c => c.peerBindingRef.namespace_) (
      compareLex (compareOn fun c => c.peerBindingRef.name) (
      compareLex (compareOn fun c => c.cause.text) (
      compareLex (compareOn fun c => c.peerSpiffeID) (
      compareOn fun c => c.peerVariant)))))) := rfl

instance : Std.TransCmp compareVariantConflicts := by
  rw [compareVariantConflicts_eq_compareLex]
  infer_instance

theorem ConflictCause.text_injective : Function.Injective ConflictCause.text := by
  intro a b h
  cases a <;> cases b <;> first | rfl | exact absurd h (by decide)

theorem eq_of_compareVariantConflicts {a b : VariantConflict}
    (h : compareVariantConflicts a b = .eq) : a = b := by
  simp only [compareVariantConflicts, Ordering.then_eq_eq, Std.LawfulEqOrd.compare_eq_iff_eq] at h
  obtain ⟨h₁, h₂, h₃, h₄, h₅, h₆, h₇⟩ := h
  obtain ⟨⟨_, _⟩, ⟨_, _⟩, _, _, _⟩ := a
  obtain ⟨⟨_, _⟩, ⟨_, _⟩, _, _, _⟩ := b
  have h₅ := ConflictCause.text_injective h₅
  simp_all

/-- The order the conflicts are sorted in. -/
def ConflictLE (a b : VariantConflict) : Prop := compareVariantConflicts a b ≠ .gt

instance : DecidableRel ConflictLE := fun _ _ => inferInstanceAs (Decidable (_ ≠ _))

theorem conflictLE_iff_isLE {a b : VariantConflict} :
    ConflictLE a b ↔ (compareVariantConflicts a b).isLE = true := by
  rw [ConflictLE]
  cases compareVariantConflicts a b <;> simp

instance : Std.Total ConflictLE where
  total a b := by
    have hswap : compareVariantConflicts b a = (compareVariantConflicts a b).swap :=
      Std.OrientedCmp.eq_swap
    rw [ConflictLE, ConflictLE, hswap]
    cases compareVariantConflicts a b <;> simp

instance : IsTrans VariantConflict ConflictLE where
  trans a b c hab hbc := by
    rw [conflictLE_iff_isLE] at *
    exact Std.TransCmp.isLE_trans hab hbc

theorem ConflictLE.antisymm {a b : VariantConflict} (hab : ConflictLE a b)
    (hba : ConflictLE b a) : a = b := by
  apply eq_of_compareVariantConflicts
  rw [ConflictLE] at *
  have hswap : compareVariantConflicts b a = (compareVariantConflicts a b).swap :=
    Std.OrientedCmp.eq_swap
  rw [hswap] at hba
  cases h : compareVariantConflicts a b <;> simp_all

theorem pairwise_evaluateVariantConflicts (l : List VariantRecord) :
    (evaluateVariantConflicts l).Pairwise ConflictLE :=
  List.pairwise_insertionSort ConflictLE (collectConflicts l)

theorem evaluateVariantConflicts_perm (l : List VariantRecord) :
    (evaluateVariantConflicts l).Perm (collectConflicts l) :=
  List.perm_insertionSort ConflictLE (collectConflicts l)

theorem mem_evaluateVariantConflicts {l : List VariantRecord} {c : VariantConflict} :
    c ∈ evaluateVariantConflicts l ↔ ∃ x y, [x, y].Sublist l ∧ c ∈ pairConflicts x y := by
  rw [(evaluateVariantConflicts_perm l).mem_iff, mem_collectConflicts]

/-- Dropping records commutes with evaluating them, under the conditions of
`collectConflicts_filter`. -/
theorem evaluateVariantConflicts_filter {l : List VariantRecord} {p : VariantRecord → Bool}
    {q : VariantConflict → Bool}
    (hkeep : ∀ x ∈ l, ∀ y ∈ l, p x = true → p y = true → ∀ c ∈ pairConflicts x y, q c = true)
    (hdrop : ∀ x ∈ l, ∀ y ∈ l, (p x && p y) = false → ∀ c ∈ pairConflicts x y, q c = false) :
    evaluateVariantConflicts (l.filter p) = (evaluateVariantConflicts l).filter q := by
  have hperm : (evaluateVariantConflicts (l.filter p)).Perm
      ((evaluateVariantConflicts l).filter q) := by
    refine (evaluateVariantConflicts_perm _).trans ?_
    rw [collectConflicts_filter hkeep hdrop]
    exact ((evaluateVariantConflicts_perm l).filter q).symm
  exact hperm.eq_of_pairwise (fun _ _ _ _ => ConflictLE.antisymm)
    (pairwise_evaluateVariantConflicts _) ((pairwise_evaluateVariantConflicts l).filter q)

theorem mem_pairConflicts {x y : VariantRecord} {c : VariantConflict} :
    c ∈ pairConflicts x y ↔ ∃ cause, evaluateVariantPair x y = some cause ∧
      (c = variantConflict x.bindingRef y cause ∨ c = variantConflict y.bindingRef x cause) := by
  rw [pairConflicts]
  cases evaluateVariantPair x y with
  | none => simp
  | some cause => simp

/-- Two different items of a list stand in it one before the other. -/
theorem sublist_pair_or {α : Type} {l : List α} {a b : α} (ha : a ∈ l) (hb : b ∈ l)
    (hne : a ≠ b) : [a, b].Sublist l ∨ [b, a].Sublist l := by
  induction l with
  | nil => cases ha
  | cons c l ih =>
    rcases List.mem_cons.mp ha with rfl | ha
    · rcases List.mem_cons.mp hb with rfl | hb
      · exact absurd rfl hne
      · exact Or.inl ((List.singleton_sublist.mpr hb).cons_cons _)
    · rcases List.mem_cons.mp hb with hbc | hb
      · exact Or.inr (hbc ▸ (List.singleton_sublist.mpr ha).cons_cons b)
      · exact (ih ha hb).imp (List.Sublist.cons c) (List.Sublist.cons c)

/-! ## The withdrawal set -/

/-- The namespaced names of the members, for the reconciled binding `binding`. -/
def memberKeys (binding : Binding) (members : List ConflictMember) : List NamespacedName :=
  members.map fun m => m.key binding

theorem memberKeys_appendConflictMember {binding : Binding} {members : List ConflictMember}
    {member : ConflictMember} :
    memberKeys binding (appendConflictMember binding members member) =
      if member.key binding ∈ memberKeys binding members then memberKeys binding members
      else memberKeys binding members ++ [member.key binding] := by
  have hiff : (members.any fun m => m.key binding = member.key binding) = true ↔
      member.key binding ∈ memberKeys binding members := by
    simp [memberKeys]
  rw [appendConflictMember]
  by_cases h : member.key binding ∈ memberKeys binding members
  · rw [if_pos (hiff.mpr h), if_pos h]
  · rw [if_neg (mt hiff.mp h), if_neg h, memberKeys, List.map_append, List.map_singleton]
    rfl

/-- Appending the copy behind a reference: the keys stay distinct, and the one that
may be new is the reference. -/
theorem appendReferenced_spec {binding : Binding} (byRef : List Binding)
    {members : List ConflictMember} (ref : NamespacedName)
    (h : (memberKeys binding members).Nodup) :
    (memberKeys binding (appendReferenced binding byRef members ref)).Nodup ∧
    ∀ k, k ∈ memberKeys binding (appendReferenced binding byRef members ref) ↔
      k ∈ memberKeys binding members ∨ (k = ref ∧ ∃ m ∈ byRef, m.key = ref) := by
  rw [appendReferenced]
  rcases hfind : byRef.find? fun b => decide (b.key = ref) with _ | m
  · have hnone : ¬∃ m ∈ byRef, m.key = ref := by
      rintro ⟨m, hm, hk⟩
      simpa [hk] using List.find?_eq_none.mp hfind m hm
    simp only [hfind]
    exact ⟨h, fun k => by simp [hnone]⟩
  · have hm : m ∈ byRef := List.mem_of_find?_eq_some hfind
    have hk : m.key = ref := by simpa using List.find?_some hfind
    have hsome : ∃ m ∈ byRef, m.key = ref := ⟨m, hm, hk⟩
    simp only [hfind, memberKeys_appendConflictMember, ConflictMember.key, hk]
    split_ifs with hin
    · refine ⟨h, fun k => ⟨Or.inl, ?_⟩⟩
      rintro (hk' | ⟨rfl, -⟩)
      · exact hk'
      · exact hin
    · refine ⟨List.nodup_append.mpr ⟨h, List.nodup_singleton ref, ?_⟩, fun k => ?_⟩
      · rintro a ha b hb rfl
        exact hin (List.mem_singleton.mp hb ▸ ha)
      · simp [hsome]

theorem foldl_appendReferenced_spec {binding : Binding} (byRef : List Binding)
    (refs : List NamespacedName) {members : List ConflictMember}
    (h : (memberKeys binding members).Nodup) :
    (memberKeys binding (refs.foldl (appendReferenced binding byRef) members)).Nodup ∧
    ∀ k, k ∈ memberKeys binding (refs.foldl (appendReferenced binding byRef) members) ↔
      k ∈ memberKeys binding members ∨ (k ∈ refs ∧ ∃ m ∈ byRef, m.key = k) := by
  induction refs generalizing members with
  | nil => exact ⟨h, fun k => by simp⟩
  | cons ref refs ih =>
    obtain ⟨hnodup, hmem⟩ := appendReferenced_spec byRef ref h
    obtain ⟨hnodup', hmem'⟩ := ih hnodup
    refine ⟨hnodup', fun k => ?_⟩
    rw [List.foldl_cons, hmem', hmem, List.mem_cons]
    constructor
    · rintro ((hk | ⟨rfl, hm⟩) | ⟨hk, hm⟩)
      · exact Or.inl hk
      · exact Or.inr ⟨Or.inl rfl, hm⟩
      · exact Or.inr ⟨Or.inr hk, hm⟩
    · rintro (hk | ⟨rfl | hk, hm⟩)
      · exact Or.inl (Or.inl hk)
      · exact Or.inl (Or.inr ⟨rfl, hm⟩)
      · exact Or.inr ⟨hk, hm⟩

section Groups

variable (hdns : r.platform.SubdomainsWithoutSlash) (hconfig : r.config.validate = .ok ())

include hdns hconfig in
theorem RenderedBinding.boundary_eq_of_spiffeID_eq {x y : RenderedBinding r}
    (hx : slash ∉ x.binding.key.namespace_) (hy : slash ∉ y.binding.key.namespace_)
    (h : x.plan.spiffeID = y.plan.spiffeID) : x.boundary = y.boundary := by
  obtain ⟨target, -, px⟩ := planIdentity_of_renderIdentity x.rendered
  obtain ⟨target', -, py⟩ := planIdentity_of_renderIdentity y.rendered
  obtain ⟨hx', -, hplan⟩ := planIdentity_eq_ok_iff.mp px
  obtain ⟨hy', -, hplan'⟩ := planIdentity_eq_ok_iff.mp py
  rw [hplan, hplan'] at h
  have htd := OperatorConfig.validate_ok hconfig
  obtain ⟨-, hns, hsa, -, hvariant⟩ := renderInferenceTargetSPIFFEID_inj htd htd hx hy
    (hdns _ hx'.serviceAccount) (hdns _ hy'.serviceAccount)
    (validateIdentityAnchor_ok hx'.anchor) (validateIdentityAnchor_ok hy'.anchor) h
  simp only [boundary, Binding.boundary, Boundary.mk.injEq]
  exact ⟨hns, hsa, hvariant⟩

include hdns hconfig in
/-- Rendered bindings conflict exactly when their boundaries are equal. -/
theorem evaluateVariantPair_isSome_iff {x y : RenderedBinding r}
    (hx : slash ∉ x.binding.key.namespace_) (hy : slash ∉ y.binding.key.namespace_) :
    (evaluateVariantPair x.record y.record).isSome ↔ x.boundary = y.boundary := by
  constructor
  · intro h
    rcases of_evaluateVariantPair_isSome h with hid | ⟨hns, hsa, hvariant⟩
    · exact RenderedBinding.boundary_eq_of_spiffeID_eq hdns hconfig hx hy hid
    · rw [x.record_variant, y.record_variant] at hvariant
      simp only [RenderedBinding.boundary, Binding.boundary, Boundary.mk.injEq]
      exact ⟨hns, hsa, hvariant⟩
  · intro h
    rw [evaluateVariantPair]
    split_ifs with hid hboundary hvariant
    · rfl
    · rcases hboundary with hns | hsa
      · exact absurd (congrArg Boundary.namespace_ h) hns
      · exact absurd (congrArg Boundary.serviceAccountName h) hsa
    · rw [x.record_variant, y.record_variant] at hvariant
      exact absurd (congrArg Boundary.variant h) hvariant
    · rfl

/-- The bindings of one namespace. -/
def inNamespace (l : List (RenderedBinding r)) (namespace_ : GoString) :
    List (RenderedBinding r) :=
  l.filter fun x => x.binding.key.namespace_ = namespace_

theorem mem_inNamespace {l : List (RenderedBinding r)} {namespace_ : GoString}
    {x : RenderedBinding r} :
    x ∈ inNamespace l namespace_ ↔ x ∈ l ∧ x.binding.key.namespace_ = namespace_ := by
  simp [inNamespace]

/-- What the controller computes for `x` from a listing of its namespace. -/
def groupState (l : List (RenderedBinding r)) (x : RenderedBinding r) : BindingConflictState :=
  currentBindingConflictState x.binding
    ((inNamespace l x.binding.key.namespace_).map RenderedBinding.record)
    ((inNamespace l x.binding.key.namespace_).map RenderedBinding.binding).reverse

section Lists

variable {l : List (RenderedBinding r)} (hslash : ∀ x ∈ l, slash ∉ x.binding.key.namespace_)

include hdns hconfig hslash in
/-- A namespace at a time reports what the whole cluster reports. -/
theorem evaluateVariantConflicts_inNamespace (namespace_ : GoString) :
    evaluateVariantConflicts ((inNamespace l namespace_).map RenderedBinding.record) =
      (evaluateVariantConflicts (l.map RenderedBinding.record)).filter
        fun c => c.bindingRef.namespace_ = namespace_ := by
  have hmap : (inNamespace l namespace_).map RenderedBinding.record =
      (l.map RenderedBinding.record).filter fun x => x.bindingRef.namespace_ = namespace_ := by
    rw [inNamespace, List.filter_map]
    rfl
  have hpair : ∀ x ∈ l.map RenderedBinding.record, ∀ y ∈ l.map RenderedBinding.record,
      ∀ c ∈ pairConflicts x y, x.bindingRef.namespace_ = y.bindingRef.namespace_ ∧
        c.bindingRef.namespace_ = x.bindingRef.namespace_ := by
    intro x hx y hy c hc
    obtain ⟨x, hx', rfl⟩ := List.mem_map.mp hx
    obtain ⟨y, hy', rfl⟩ := List.mem_map.mp hy
    obtain ⟨cause, hcause, hc⟩ := mem_pairConflicts.mp hc
    have hboundary := (evaluateVariantPair_isSome_iff hdns hconfig (hslash x hx')
      (hslash y hy')).mp (by rw [hcause]; rfl)
    have hns : x.record.bindingRef.namespace_ = y.record.bindingRef.namespace_ :=
      congrArg Boundary.namespace_ hboundary
    rcases hc with rfl | rfl
    · exact ⟨hns, rfl⟩
    · exact ⟨hns, hns.symm⟩
  rw [hmap]
  apply evaluateVariantConflicts_filter
  · intro x hx y hy hpx _ c hc
    rw [decide_eq_true_iff] at hpx ⊢
    rw [(hpair x hx y hy c hc).2, hpx]
  · intro x hx y hy hp c hc
    obtain ⟨hxy, hcx⟩ := hpair x hx y hy c hc
    rw [hxy, Bool.and_self] at hp
    rw [hcx, hxy]
    exact hp

include hdns hconfig hslash in
/-- The peers a binding is told about are the others with its boundary. -/
theorem mem_peers_iff (hkeys : (l.map fun x => x.binding.key).Nodup) {x : RenderedBinding r}
    (hx : x ∈ l) {k : NamespacedName} :
    (∃ c ∈ evaluateVariantConflicts (l.map RenderedBinding.record),
      c.bindingRef = x.binding.key ∧ c.peerBindingRef = k) ↔
    ∃ y ∈ l, y.binding.key = k ∧ y.binding.key ≠ x.binding.key ∧ y.boundary = x.boundary := by
  have hiff : ∀ y ∈ l, ∀ z ∈ l, (evaluateVariantPair y.record z.record).isSome ↔
      y.boundary = z.boundary := fun y hy z hz =>
    evaluateVariantPair_isSome_iff hdns hconfig (hslash y hy) (hslash z hz)
  have hinj : ∀ y ∈ l, y.binding.key = x.binding.key → y = x := fun y hy hk =>
    List.inj_on_of_nodup_map hkeys hy hx hk
  constructor
  · rintro ⟨c, hc, hcx, hck⟩
    obtain ⟨u, v, hrecords, hc⟩ := mem_evaluateVariantConflicts.mp hc
    obtain ⟨pair, hsub, heq⟩ := List.sublist_map_iff.mp hrecords
    obtain ⟨y, z, rfl, rfl, rfl⟩ : ∃ y z, pair = [y, z] ∧ u = y.record ∧ v = z.record := by
      match pair, heq with
      | [y, z], heq => exact ⟨y, z, rfl, by simpa using heq⟩
    have hy : y ∈ l := hsub.subset (by simp)
    have hz : z ∈ l := hsub.subset (by simp)
    have hne : y.binding.key ≠ z.binding.key := by
      have := hkeys.sublist (hsub.map fun x => x.binding.key)
      simpa using this
    obtain ⟨cause, hcause, hc⟩ := mem_pairConflicts.mp hc
    have hboundary := (hiff y hy z hz).mp (by rw [hcause]; rfl)
    rcases hc with rfl | rfl
    · obtain rfl := hinj y hy hcx
      exact ⟨z, hz, hck, hne.symm, hboundary.symm⟩
    · obtain rfl := hinj z hz hcx
      exact ⟨y, hy, hck, hne, hboundary⟩
  · rintro ⟨y, hy, rfl, hne, hboundary⟩
    have hyx : y ≠ x := fun h => hne (h ▸ rfl)
    rcases sublist_pair_or hy hx hyx with hsub | hsub
    · obtain ⟨cause, hcause⟩ := Option.isSome_iff_exists.mp ((hiff y hy x hx).mpr hboundary)
      exact ⟨variantConflict x.binding.key y.record cause, mem_evaluateVariantConflicts.mpr
        ⟨_, _, hsub.map RenderedBinding.record,
          mem_pairConflicts.mpr ⟨cause, hcause, Or.inr rfl⟩⟩, rfl, rfl⟩
    · obtain ⟨cause, hcause⟩ := Option.isSome_iff_exists.mp ((hiff x hx y hy).mpr hboundary.symm)
      exact ⟨variantConflict x.binding.key y.record cause, mem_evaluateVariantConflicts.mpr
        ⟨_, _, hsub.map RenderedBinding.record,
          mem_pairConflicts.mpr ⟨cause, hcause, Or.inl rfl⟩⟩, rfl, rfl⟩

/-- The binding shares its boundary with another one. -/
def Contested (l : List (RenderedBinding r)) (x : RenderedBinding r) : Prop :=
  ∃ y ∈ l, y.binding.key ≠ x.binding.key ∧ y.boundary = x.boundary

include hdns hconfig hslash in
/-- The withdrawal set of a contested binding is everybody with its boundary, once
each; an uncontested binding withdraws nothing. -/
theorem groupState_members (hkeys : (l.map fun x => x.binding.key).Nodup)
    {x : RenderedBinding r} (hx : x ∈ l) :
    (memberKeys x.binding (groupState l x).members).Nodup ∧
    ∀ k, k ∈ memberKeys x.binding (groupState l x).members ↔
      Contested l x ∧ ∃ y ∈ l, y.binding.key = k ∧ y.boundary = x.boundary := by
  have hsub : (inNamespace l x.binding.key.namespace_).Sublist l := List.filter_sublist
  have hx' : x ∈ inNamespace l x.binding.key.namespace_ := mem_inNamespace.mpr ⟨hx, rfl⟩
  have hmem : ∀ y ∈ l, y.boundary = x.boundary → y ∈ inNamespace l x.binding.key.namespace_ :=
    fun y hy hb => mem_inNamespace.mpr ⟨hy, congrArg Boundary.namespace_ hb⟩
  have hpeers := fun k => mem_peers_iff hdns hconfig
    (fun y hy => hslash y (hsub.subset hy)) (hkeys.sublist (hsub.map _)) hx' (k := k)
  rw [groupState, currentBindingConflictState]
  set L := inNamespace l x.binding.key.namespace_
  set conflicts := (evaluateVariantConflicts (L.map RenderedBinding.record)).filter
    fun c => c.bindingRef = x.binding.key with hconflicts
  have hrefs : ∀ k, k ∈ conflicts.map VariantConflict.peerBindingRef ↔
      ∃ y ∈ L, y.binding.key = k ∧ y.binding.key ≠ x.binding.key ∧ y.boundary = x.boundary := by
    intro k
    rw [← hpeers k, hconflicts]
    simp only [List.mem_map, List.mem_filter, decide_eq_true_iff, and_assoc]
  by_cases hnil : conflicts = []
  · -- nobody else has the boundary
    have hfree : ¬Contested l x := by
      rintro ⟨y, hy, hne, hb⟩
      have := (hrefs y.binding.key).mpr ⟨y, hmem y hy hb, rfl, hne, hb⟩
      rw [hnil] at this
      cases this
    rw [if_pos hnil]
    exact ⟨List.nodup_nil, fun k => by simp [memberKeys, hfree]⟩
  · have hcontested : Contested l x := by
      obtain ⟨c, rest, hc⟩ := List.exists_cons_of_ne_nil hnil
      obtain ⟨y, hy, -, hne, hb⟩ := (hrefs c.peerBindingRef).mp (by rw [hc]; simp)
      exact ⟨y, hsub.subset hy, hne, hb⟩
    have hfound : ∀ y ∈ L, ∃ m ∈ (L.map RenderedBinding.binding).reverse,
        m.key = y.binding.key := fun y hy => ⟨y.binding, by simpa using ⟨y, hy, rfl⟩, rfl⟩
    have hempty : (memberKeys x.binding []).Nodup := List.nodup_nil
    obtain ⟨hnodup, hself⟩ := appendReferenced_spec (L.map RenderedBinding.binding).reverse
      x.binding.key hempty
    obtain ⟨hnodup', hall⟩ := foldl_appendReferenced_spec
      (L.map RenderedBinding.binding).reverse (conflicts.map VariantConflict.peerBindingRef) hnodup
    rw [if_neg hnil]
    refine ⟨hnodup', fun k => ?_⟩
    rw [hall, hself, hrefs]
    constructor
    · rintro ((hk | ⟨rfl, -⟩) | ⟨⟨y, hy, hk, -, hb⟩, -⟩)
      · cases hk
      · exact ⟨hcontested, x, hx, rfl, rfl⟩
      · exact ⟨hcontested, y, hsub.subset hy, hk, hb⟩
    · rintro ⟨-, y, hy, rfl, hb⟩
      have hyL := hmem y hy hb
      by_cases hyx : y.binding.key = x.binding.key
      · exact Or.inl (Or.inr ⟨hyx, hfound x hx'⟩)
      · exact Or.inr ⟨⟨y, hyL, rfl, hyx, hb⟩, hfound y hyL⟩

end Lists

/-- **Conflict groups are complete.** Among bindings rendered under one valid
configuration, in namespaces without a slash: a pair conflicts exactly when the
boundaries agree, so conflict is an equivalence; looking at one namespace at a time
reports exactly the conflicts of the whole cluster; and the withdrawal set is the
whole class of a contested binding, the same for each of its members and without
repetition. -/
theorem conflict_groups_complete (hdns : r.platform.SubdomainsWithoutSlash)
    (hconfig : r.config.validate = .ok ()) (l : List (RenderedBinding r))
    (hkeys : (l.map fun x => x.binding.key).Nodup)
    (hslash : ∀ x ∈ l, slash ∉ x.binding.key.namespace_) :
    (∀ x ∈ l, ∀ y ∈ l,
      ((evaluateVariantPair x.record y.record).isSome ↔ x.boundary = y.boundary)) ∧
    Equivalence (fun x y : { x // x ∈ l } =>
      (evaluateVariantPair x.1.record y.1.record).isSome = true) ∧
    (∀ namespace_, evaluateVariantConflicts
        ((inNamespace l namespace_).map RenderedBinding.record) =
      (evaluateVariantConflicts (l.map RenderedBinding.record)).filter
        fun c => c.bindingRef.namespace_ = namespace_) ∧
    (∀ x ∈ l, (memberKeys x.binding (groupState l x).members).Nodup ∧
      ∀ k, k ∈ memberKeys x.binding (groupState l x).members ↔
        Contested l x ∧ ∃ y ∈ l, y.binding.key = k ∧ y.boundary = x.boundary) ∧
    (∀ x ∈ l, ∀ y ∈ l, x.boundary = y.boundary → ∀ k,
      (k ∈ memberKeys x.binding (groupState l x).members ↔
        k ∈ memberKeys y.binding (groupState l y).members)) := by
  have hiff : ∀ x ∈ l, ∀ y ∈ l,
      ((evaluateVariantPair x.record y.record).isSome ↔ x.boundary = y.boundary) :=
    fun x hx y hy => evaluateVariantPair_isSome_iff hdns hconfig (hslash x hx) (hslash y hy)
  have hmembers := fun x hx => groupState_members hdns hconfig hslash hkeys (x := x) hx
  refine ⟨hiff, ⟨?_, ?_, ?_⟩, evaluateVariantConflicts_inNamespace hdns hconfig hslash,
    hmembers, ?_⟩
  · exact fun x => (hiff x x.2 x x.2).mpr rfl
  · exact fun {x y} h => (hiff y y.2 x x.2).mpr ((hiff x x.2 y y.2).mp h).symm
  · exact fun {x y z} h h' => (hiff x x.2 z z.2).mpr
      (((hiff x x.2 y y.2).mp h).trans ((hiff y y.2 z z.2).mp h'))
  · intro x hx y hy hb k
    have hcontested : Contested l x ↔ Contested l y := by
      by_cases hkey : x.binding.key = y.binding.key
      · rw [List.inj_on_of_nodup_map hkeys hx hy hkey]
      · exact ⟨fun _ => ⟨x, hx, hkey, hb⟩, fun _ => ⟨y, hy, Ne.symm hkey, hb.symm⟩⟩
    rw [(hmembers x hx).2, (hmembers y hy).2, hcontested, hb]

theorem smallReconciler_subdomains : smallReconciler.platform.SubdomainsWithoutSlash := by
  intro s h hslash
  rcases Apimachinery.of_isDNS1123Subdomain h hslash with hc | hc | hc
  · exact absurd hc (by decide)
  · exact absurd hc (by decide)
  · exact absurd hc (by decide)

/-- Two bindings for the variant `v` and one for `w`: the first of them withdraws
itself and the second. -/
theorem conflict_groups_complete_small :
    memberKeys smallX.binding (groupState [smallX, smallY, smallZ] smallX).members ⊆
      [⟨str "n", str "x"⟩, ⟨str "n", str "y"⟩] := by
  have hcomplete := conflict_groups_complete smallReconciler_subdomains (by decide +kernel)
    [smallX, smallY, smallZ] (by decide +kernel) (by decide +kernel)
  intro k hk
  obtain ⟨-, y, hy, rfl, hboundary⟩ := ((hcomplete.2.2.2.1 _ List.mem_cons_self).2 k).mp hk
  rcases List.mem_cons.mp hy with rfl | hy
  · exact List.mem_cons_self
  rcases List.mem_cons.mp hy with rfl | hy
  · exact List.mem_cons_of_mem _ List.mem_cons_self
  · rw [List.mem_singleton.mp hy] at hboundary
    exact absurd hboundary (by decide +kernel)

end Groups

end Kleym
