import Kleym.Exclusivity
import Mathlib.Algebra.BigOperators.Fin
import Mathlib.Algebra.Order.Group.Multiset
import Mathlib.Tactic.Abel

/-!
# What the conflict evaluator computes

`EvaluateVariantConflicts` runs a triangular double loop over its records and
sorts what the loop appended. Here is what that amounts to on an arbitrary list,
records with equal references included: as a multiset, the two directed reports
of every clashing pair of positions (`coe_collectConflicts`), and as a list, the
one arrangement of that multiset in the order of the documented keys. The input's
order is gone after the sort, because the comparison is antisymmetric: records
that it cannot tell apart are equal.
-/

namespace Kleym

/-! ## The specification -/

/-- Two records that are not exclusive. -/
def VariantRecord.Clash (x y : VariantRecord) : Prop :=
  x.spiffeID = y.spiffeID ∨
    (x.bindingRef.namespace_ = y.bindingRef.namespace_ ∧
      x.serviceAccountName = y.serviceAccountName ∧ x.variant = y.variant)

instance (x y : VariantRecord) : Decidable (x.Clash y) := inferInstanceAs (Decidable (_ ∨ _))

/-- What `x` is told about `y` when the two clash. -/
def VariantRecord.report (x y : VariantRecord) : VariantConflict where
  bindingRef := x.bindingRef
  peerBindingRef := y.bindingRef
  cause := if x.spiffeID = y.spiffeID then .duplicateSPIFFEID else .variantReuse
  peerSpiffeID := y.spiffeID
  peerVariant := y.variant

/-- The keys the reports are sorted by, first key first. -/
def VariantConflict.sortKey (c : VariantConflict) : List GoString :=
  [c.bindingRef.namespace_, c.bindingRef.name, c.peerBindingRef.namespace_,
    c.peerBindingRef.name, c.cause.text, c.peerSpiffeID, c.peerVariant]

/-! ## One pair -/

theorem VariantRecord.clash_comm {x y : VariantRecord} : x.Clash y ↔ y.Clash x := by
  simp only [VariantRecord.Clash, eq_comm]

/-- A pair contributes its two reports exactly when it clashes. -/
theorem pairConflicts_eq (x y : VariantRecord) :
    pairConflicts x y = if x.Clash y then [x.report y, y.report x] else [] := by
  rw [pairConflicts, evaluateVariantPair]
  by_cases hid : x.spiffeID = y.spiffeID
  · have hclash : x.Clash y := Or.inl hid
    rw [if_pos hid, if_pos hclash]
    simp only [variantConflict, VariantRecord.report, if_pos hid, if_pos hid.symm]
  · rw [if_neg hid]
    by_cases hplace : x.bindingRef.namespace_ = y.bindingRef.namespace_ ∧
        x.serviceAccountName = y.serviceAccountName
    · rw [if_neg (by rw [not_or, not_not, not_not]; exact hplace)]
      by_cases hvariant : x.variant = y.variant
      · have hclash : x.Clash y := Or.inr ⟨hplace.1, hplace.2, hvariant⟩
        rw [if_neg (not_not.mpr hvariant), if_pos hclash]
        simp only [variantConflict, VariantRecord.report, if_neg hid, if_neg (Ne.symm hid)]
      · rw [if_pos hvariant, if_neg]
        rintro (h | ⟨-, -, h⟩)
        exacts [hid h, hvariant h]
    · rw [if_pos (by rw [← not_and_or]; exact hplace), if_neg]
      rintro (h | ⟨hns, hsa, -⟩)
      exacts [hid h, hplace ⟨hns, hsa⟩]

/-- The same two reports, whichever record comes first. -/
theorem pairConflicts_comm (x y : VariantRecord) :
    (pairConflicts x y).Perm (pairConflicts y x) := by
  rw [pairConflicts_eq, pairConflicts_eq]
  by_cases h : x.Clash y
  · rw [if_pos h, if_pos (VariantRecord.clash_comm.mp h)]
    exact List.Perm.swap _ _ []
  · rw [if_neg h, if_neg (mt VariantRecord.clash_comm.mpr h)]

/-! ## The double loop -/

/-- One row of the loop: a record against every position after it. -/
theorem coe_flatMap_pairConflicts (x : VariantRecord) (l : List VariantRecord) :
    ((l.flatMap (pairConflicts x) : List _) : Multiset VariantConflict) =
      ∑ j : Fin l.length,
        if x.Clash (l.get j) then {x.report (l.get j), (l.get j).report x} else 0 := by
  induction l with
  | nil => rfl
  | cons y l ih =>
    rw [List.flatMap_cons, ← Multiset.coe_add, ih, pairConflicts_eq]
    refine Eq.trans ?_ (Fin.sum_univ_succ (n := l.length) _).symm
    refine congrArg₂ (· + ·) ?_ rfl
    exact apply_ite _ _ _ _

/-- The double loop visits every unordered pair of positions once. -/
theorem coe_collectConflicts (l : List VariantRecord) :
    (collectConflicts l : Multiset VariantConflict) =
      ∑ i : Fin l.length, ∑ j : Fin l.length,
        if i < j ∧ (l.get i).Clash (l.get j) then
          {(l.get i).report (l.get j), (l.get j).report (l.get i)}
        else 0 := by
  induction l with
  | nil => rfl
  | cons x l ih =>
    rw [collectConflicts, ← Multiset.coe_add, ih, coe_flatMap_pairConflicts]
    -- position 0 gives the first row, the other positions are those of the tail
    symm
    refine (Fin.sum_univ_succ (n := l.length) _).trans (congrArg₂ (· + ·) ?_ ?_)
    · refine (Fin.sum_univ_succ (n := l.length) _).trans ?_
      simp
    · refine Finset.sum_congr rfl fun i _ => (Fin.sum_univ_succ (n := l.length) _).trans ?_
      simp

/-- Collecting from a permuted list gives a permutation of the conflicts. -/
theorem collectConflicts_perm {l l' : List VariantRecord} (h : l.Perm l') :
    (collectConflicts l).Perm (collectConflicts l') := by
  induction h with
  | nil => exact List.Perm.refl _
  | cons x h ih =>
    rw [collectConflicts, collectConflicts]
    exact (h.flatMap_right _).append ih
  | swap x y l =>
    have hxy : ((pairConflicts x y : List _) : Multiset VariantConflict) = pairConflicts y x :=
      Multiset.coe_eq_coe.mpr (pairConflicts_comm x y)
    simp only [collectConflicts, List.flatMap_cons, ← Multiset.coe_eq_coe, ← Multiset.coe_add, hxy]
    abel
  | trans _ _ ih ih' => exact ih.trans ih'

/-! ## The order -/

/-- The comparison function of a type decides its order. -/
structure Compares (α : Type*) [Ord α] [LT α] : Prop where
  lt_iff : ∀ a b : α, compare a b = .lt ↔ a < b
  eq_iff : ∀ a b : α, compare a b = .eq ↔ a = b

/-- Comparing lists decides the lexicographic order. -/
theorem Compares.list {α : Type*} [Ord α] [LT α] (h : Compares α) : Compares (List α) where
  lt_iff l l' := by
    induction l generalizing l' with
    | nil =>
      cases l' with
      | nil => simp
      | cons b l' => simp [List.compare_nil_cons]
    | cons a l ih =>
      cases l' with
      | nil => simp [List.compare_cons_nil]
      | cons b l' =>
        rw [List.compare_cons_cons, Ordering.then_eq_lt, h.lt_iff, h.eq_iff, ih,
          List.cons_lt_cons_iff]
  eq_iff l l' := by
    induction l generalizing l' with
    | nil =>
      cases l' with
      | nil => simp
      | cons b l' => simp [List.compare_nil_cons]
    | cons a l ih =>
      cases l' with
      | nil => simp [List.compare_cons_nil]
      | cons b l' =>
        rw [List.compare_cons_cons, Ordering.then_eq_eq, h.eq_iff, ih, List.cons.injEq]

theorem compares_byte : Compares UInt8 where
  lt_iff _ _ := Std.compare_eq_lt
  eq_iff _ _ := Std.compare_eq_eq_iff_eq

theorem compareVariantConflicts_eq (a b : VariantConflict) :
    compareVariantConflicts a b = compare a.sortKey b.sortKey := by
  simp only [VariantConflict.sortKey, List.compare_cons_cons, List.compare_nil_nil,
    compareVariantConflicts, Ordering.then_eq]

/-- `compareVariantConflicts` is the lexicographic order of the keys. -/
theorem conflictLE_iff_sortKey {a b : VariantConflict} :
    ConflictLE a b ↔ a.sortKey ≤ b.sortKey := by
  have hkeys : Compares (List GoString) := compares_byte.list.list
  rw [ConflictLE, compareVariantConflicts_eq, le_iff_lt_or_eq, ← hkeys.lt_iff, ← hkeys.eq_iff]
  cases compare a.sortKey b.sortKey <;> simp

/-- The order of the records does not matter. -/
theorem evaluateVariantConflicts_of_perm {l l' : List VariantRecord} (h : l.Perm l') :
    evaluateVariantConflicts l = evaluateVariantConflicts l' := by
  have hperm : (evaluateVariantConflicts l).Perm (evaluateVariantConflicts l') :=
    (evaluateVariantConflicts_perm l).trans
      ((collectConflicts_perm h).trans (evaluateVariantConflicts_perm l').symm)
  exact hperm.eq_of_pairwise (fun _ _ _ _ => ConflictLE.antisymm)
    (pairwise_evaluateVariantConflicts l) (pairwise_evaluateVariantConflicts l')

/-- **The evaluator meets its specification** on every list of records: its
result holds the two directed reports of every clashing pair of positions and
nothing else, it is sorted by the documented keys, and it does not depend on the
order of the records. -/
theorem evaluateVariantConflicts_spec (l : List VariantRecord) :
    (evaluateVariantConflicts l : Multiset VariantConflict) =
      ∑ i : Fin l.length, ∑ j : Fin l.length,
        (if i < j ∧ (l.get i).Clash (l.get j) then
          {(l.get i).report (l.get j), (l.get j).report (l.get i)}
        else 0) ∧
    (evaluateVariantConflicts l).Pairwise (fun a b => a.sortKey ≤ b.sortKey) ∧
    ∀ l', l.Perm l' → evaluateVariantConflicts l = evaluateVariantConflicts l' := by
  refine ⟨?_, ?_, fun l' h => ?_⟩
  · rw [← coe_collectConflicts]
    exact Multiset.coe_eq_coe.mpr (evaluateVariantConflicts_perm l)
  · exact (pairwise_evaluateVariantConflicts l).imp conflictLE_iff_sortKey.mp
  · exact evaluateVariantConflicts_of_perm h

end Kleym
