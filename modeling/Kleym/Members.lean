import Kleym.Exclusivity

/-!
# The members of a conflict

What `conflictStateOf` makes of the peers that were collected: who is a member of the
conflict and under which key, which conflicts it names, and when there is none.
-/

namespace Kleym

variable {m : Binding} {scan : PeerScan} {members : List ConflictMember} {x : ConflictMember}

theorem mem_appendConflictMember {member : ConflictMember}
    (h : x ∈ appendConflictMember m members member) : x ∈ members ∨ x = member := by
  rw [appendConflictMember] at h
  split_ifs at h
  · exact Or.inl h
  · simpa using h

theorem mem_appendReferenced {byRef : List Binding} {ref : NamespacedName}
    (h : x ∈ appendReferenced m byRef members ref) :
    x ∈ members ∨ ∃ q ∈ byRef, x = .copy q := by
  rw [appendReferenced] at h
  split at h
  · exact Or.inl h
  · rename_i q hfind
    exact (mem_appendConflictMember h).imp_right fun hx => ⟨q, List.mem_of_find?_eq_some hfind, hx⟩

theorem mem_foldl_appendReferenced {byRef : List Binding} {refs : List NamespacedName}
    (h : x ∈ refs.foldl (appendReferenced m byRef) members) :
    x ∈ members ∨ ∃ q ∈ byRef, x = .copy q := by
  induction refs generalizing members with
  | nil => exact Or.inl h
  | cons ref refs ih =>
    rcases ih h with h | h
    · exact mem_appendReferenced h
    · exact Or.inr h

theorem mem_foldl_appendConflictMember {added : List ConflictMember}
    (h : x ∈ added.foldl (appendConflictMember m) members) : x ∈ members ∨ x ∈ added := by
  induction added generalizing members with
  | nil => exact Or.inl h
  | cons a added ih =>
    rcases ih h with h | h
    · rcases mem_appendConflictMember h with h | rfl
      · exact Or.inl h
      · exact Or.inr List.mem_cons_self
    · exact Or.inr (List.mem_cons_of_mem a h)

theorem nodup_appendConflictMember (h : (memberKeys m members).Nodup) (member : ConflictMember) :
    (memberKeys m (appendConflictMember m members member)).Nodup := by
  rw [memberKeys_appendConflictMember]
  split_ifs with hmem
  · exact h
  · refine List.nodup_append.mpr ⟨h, List.nodup_singleton _, ?_⟩
    rintro a ha b hb rfl
    exact hmem (List.mem_singleton.mp hb ▸ ha)

theorem nodup_foldl_appendConflictMember (h : (memberKeys m members).Nodup)
    (added : List ConflictMember) :
    (memberKeys m (added.foldl (appendConflictMember m) members)).Nodup := by
  induction added generalizing members with
  | nil => exact h
  | cons a added ih => exact ih (nodup_appendConflictMember h a)

theorem mem_currentBindingConflictState
    (h : x ∈ (currentBindingConflictState m scan.records scan.bindingsByRef).members) :
    ∃ q ∈ scan.bindingsByRef, x = .copy q := by
  rw [currentBindingConflictState] at h
  split_ifs at h
  · cases h
  · rcases mem_foldl_appendReferenced h with h | h
    · rcases mem_appendReferenced h with h | h
      · cases h
      · exact h
    · exact h

/-- Where nobody blocks, all members are copies. -/
theorem mem_conflictStateOf_unblocked (hblocked : scan.blockedMembers = [])
    (h : x ∈ (Reconciler.conflictStateOf m scan).members) :
    ∃ q ∈ scan.bindingsByRef, x = .copy q := by
  rw [Reconciler.conflictStateOf, BindingConflictState.block, if_pos hblocked] at h
  exact mem_currentBindingConflictState h

/-- The members are copies that were collected, and the binding itself where somebody blocks
it. -/
theorem mem_conflictStateOf (h : x ∈ (Reconciler.conflictStateOf m scan).members) :
    x = .current ∨ ∃ q, x = .copy q ∧ (q ∈ scan.bindingsByRef ∨ q ∈ scan.blockedMembers) := by
  rw [Reconciler.conflictStateOf, BindingConflictState.block] at h
  split_ifs at h
  · obtain ⟨q, hq, rfl⟩ := mem_currentBindingConflictState h
    exact Or.inr ⟨q, rfl, Or.inl hq⟩
  · rcases mem_foldl_appendConflictMember h with h | h
    · rcases mem_appendConflictMember h with h | h
      · obtain ⟨q, hq, rfl⟩ := mem_currentBindingConflictState h
        exact Or.inr ⟨q, rfl, Or.inl hq⟩
      · exact Or.inl h
    · obtain ⟨q, hq, rfl⟩ := List.mem_map.mp h
      exact Or.inr ⟨q, rfl, Or.inr hq⟩

theorem nodup_memberKeys_nil (m : Binding) : (memberKeys m []).Nodup := List.nodup_nil

theorem nodup_conflictStateOf (m : Binding) (scan : PeerScan) :
    (memberKeys m (Reconciler.conflictStateOf m scan).members).Nodup := by
  have hcurrent : (memberKeys m (currentBindingConflictState m scan.records
      scan.bindingsByRef).members).Nodup := by
    rw [currentBindingConflictState]
    split_ifs
    · exact List.nodup_nil
    · exact (foldl_appendReferenced_spec _ _ (appendReferenced_spec _ _ (nodup_memberKeys_nil m)).1).1
  rw [Reconciler.conflictStateOf, BindingConflictState.block]
  split_ifs
  · exact hcurrent
  · exact nodup_foldl_appendConflictMember (nodup_appendConflictMember hcurrent _) _

theorem conflicts_conflictStateOf (m : Binding) (scan : PeerScan) :
    (Reconciler.conflictStateOf m scan).conflicts =
      (evaluateVariantConflicts scan.records).filter fun c => c.bindingRef = m.key := by
  have hcurrent : (currentBindingConflictState m scan.records scan.bindingsByRef).conflicts =
      (evaluateVariantConflicts scan.records).filter fun c => c.bindingRef = m.key := by
    rw [currentBindingConflictState]
    split_ifs with hnil
    · exact hnil.symm
    · rfl
  rw [Reconciler.conflictStateOf, BindingConflictState.block]
  split_ifs <;> exact hcurrent

theorem blocked_conflictStateOf (m : Binding) (scan : PeerScan) :
    (Reconciler.conflictStateOf m scan).blocked = false ↔ scan.blockedMembers = [] := by
  have hcurrent : (currentBindingConflictState m scan.records scan.bindingsByRef).blocked = false := by
    rw [currentBindingConflictState]
    split_ifs <;> rfl
  rw [Reconciler.conflictStateOf, BindingConflictState.block]
  split_ifs with hnil
  · exact ⟨fun _ => hnil, fun _ => hcurrent⟩
  · refine ⟨fun h => ?_, fun h => absurd h hnil⟩
    cases h

/-- Both sides of a conflict are recorded. -/
theorem records_of_conflict {c : VariantConflict}
    (h : c ∈ (Reconciler.conflictStateOf m scan).conflicts) :
    (∃ rec ∈ scan.records, rec.bindingRef = m.key) ∧
      ∃ rec ∈ scan.records, rec.bindingRef = c.peerBindingRef := by
  rw [conflicts_conflictStateOf, List.mem_filter, decide_eq_true_eq,
    mem_evaluateVariantConflicts] at h
  obtain ⟨⟨x, y, hxy, hc⟩, hkey⟩ := h
  have hx : x ∈ scan.records := hxy.subset (by simp)
  have hy : y ∈ scan.records := hxy.subset (by simp)
  obtain ⟨cause, -, rfl | rfl⟩ := mem_pairConflicts.mp hc
  · exact ⟨⟨x, hx, hkey⟩, y, hy, rfl⟩
  · exact ⟨⟨y, hy, hkey⟩, x, hx, rfl⟩

/-- Where nobody blocks, the binding and every peer named in a conflict are members. -/
theorem memberKeys_of_conflict (hrefs : ∀ rec ∈ scan.records, ∃ q ∈ scan.bindingsByRef,
    q.key = rec.bindingRef) (hblocked : scan.blockedMembers = []) {c : VariantConflict}
    (h : c ∈ (Reconciler.conflictStateOf m scan).conflicts) :
    m.key ∈ memberKeys m (Reconciler.conflictStateOf m scan).members ∧
      c.peerBindingRef ∈ memberKeys m (Reconciler.conflictStateOf m scan).members := by
  obtain ⟨⟨rec, hrec, hkey⟩, rec', hrec', hpeer⟩ := records_of_conflict h
  obtain ⟨q, hq, hqk⟩ := hrefs rec hrec
  obtain ⟨q', hq', hqk'⟩ := hrefs rec' hrec'
  rw [conflicts_conflictStateOf] at h
  have hne : ((evaluateVariantConflicts scan.records).filter
      fun c => c.bindingRef = m.key) ≠ [] := List.ne_nil_of_mem h
  have hself := appendReferenced_spec scan.bindingsByRef m.key (nodup_memberKeys_nil m)
  have hall := foldl_appendReferenced_spec scan.bindingsByRef
    (((evaluateVariantConflicts scan.records).filter fun c => c.bindingRef = m.key).map
      VariantConflict.peerBindingRef) hself.1
  rw [Reconciler.conflictStateOf, BindingConflictState.block, if_pos hblocked,
    currentBindingConflictState, if_neg hne]
  refine ⟨(hall.2 _).mpr (Or.inl ((hself.2 _).mpr (Or.inr ⟨rfl, q, hq, hqk.trans hkey⟩))),
    (hall.2 _).mpr (Or.inr ⟨List.mem_map.mpr ⟨c, h, rfl⟩, q', hq', hqk'.trans hpeer⟩)⟩

/-- Where nobody blocks, the members are the binding and the peers named in a conflict. -/
theorem key_of_memberKeys (hblocked : scan.blockedMembers = []) {k : NamespacedName}
    (h : k ∈ memberKeys m (Reconciler.conflictStateOf m scan).members) :
    k = m.key ∨ ∃ c ∈ (Reconciler.conflictStateOf m scan).conflicts, c.peerBindingRef = k := by
  rw [conflicts_conflictStateOf]
  rw [Reconciler.conflictStateOf, BindingConflictState.block, if_pos hblocked,
    currentBindingConflictState] at h
  split_ifs at h
  · cases h
  · have hself := appendReferenced_spec scan.bindingsByRef m.key (nodup_memberKeys_nil m)
    rcases ((foldl_appendReferenced_spec scan.bindingsByRef _ hself.1).2 k).mp h with h | ⟨h, -⟩
    · rcases (hself.2 k).mp h with h | ⟨h, -⟩
      · cases h
      · exact Or.inl h
    · exact Or.inr (List.mem_map.mp h)

/-- Without a conflict no other record has the boundary of the binding. -/
theorem conflict_of_records {rec rec' : VariantRecord} (hrec : rec ∈ scan.records)
    (hrec' : rec' ∈ scan.records) (hkey : rec.bindingRef = m.key) (hne : rec'.bindingRef ≠ m.key)
    (hns : rec'.bindingRef.namespace_ = m.key.namespace_)
    (hsa : rec'.serviceAccountName = rec.serviceAccountName) (hvariant : rec'.variant = rec.variant) :
    (Reconciler.conflictStateOf m scan).conflicts ≠ [] := by
  have hconflict : ∀ {x y : VariantRecord}, evaluateVariantPair x y = none →
      ¬(x.bindingRef.namespace_ = y.bindingRef.namespace_ ∧
        x.serviceAccountName = y.serviceAccountName ∧ x.variant = y.variant) := by
    rintro x y h ⟨hns, hsa, hvariant⟩
    rcases (evaluateVariantPair_eq_none h).2 with h | h | h
    · exact h hns
    · exact h hsa
    · exact h hvariant
  have hnsEq : rec.bindingRef.namespace_ = rec'.bindingRef.namespace_ := by rw [hkey, hns]
  have hdistinct : rec ≠ rec' := fun h => hne (h ▸ hkey)
  rw [conflicts_conflictStateOf]
  rcases sublist_pair_or hrec hrec' hdistinct with hsub | hsub
  · rcases hpair : evaluateVariantPair rec rec' with _ | cause
    · exact absurd ⟨hnsEq, hsa.symm, hvariant.symm⟩ (hconflict hpair)
    · refine List.ne_nil_of_mem (a := variantConflict rec.bindingRef rec' cause) ?_
      refine List.mem_filter.mpr ⟨mem_evaluateVariantConflicts.mpr ⟨rec, rec', hsub, ?_⟩, ?_⟩
      · exact mem_pairConflicts.mpr ⟨cause, hpair, Or.inl rfl⟩
      · exact decide_eq_true hkey
  · rcases hpair : evaluateVariantPair rec' rec with _ | cause
    · exact absurd ⟨hnsEq.symm, hsa, hvariant⟩ (hconflict hpair)
    · refine List.ne_nil_of_mem (a := variantConflict rec.bindingRef rec' cause) ?_
      refine List.mem_filter.mpr ⟨mem_evaluateVariantConflicts.mpr ⟨rec', rec, hsub, ?_⟩, ?_⟩
      · exact mem_pairConflicts.mpr ⟨cause, hpair, Or.inr rfl⟩
      · exact decide_eq_true hkey

end Kleym
