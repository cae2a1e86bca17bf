import Kleym.Ownership

/-!
# Statuses and conflicts over whole runs

Every status the operator persists keeps the status contract, and a conflict is
published only when it is settled: the outputs of everybody involved are gone, the
withdrawal that made sure of it had no failed call, and nobody whose spec cannot be
rendered still has an output.
-/

namespace Kleym

open GoString Prog

variable {r : Reconciler} {S : Setting} {s : SystemState} {w : World}

/-! ## The status contract -/

/-- **The status taxonomy.** Whatever calls fail and whenever users edit their bindings, a
status that was ever persisted keeps the status contract; while a claim is pending it has
no rendered output and is not Ready. -/
theorem persisted_status_taxonomic (hS : S.Tidy) (h : Reachable r S s) {b : Binding}
    (hb : b ∈ s.world.bindingVersions) :
    b.status.Taxonomic ∧ (b.status.pendingClusterSPIFFEID.isSome →
      b.status.computedSpiffeIDs = [] ∧ b.status.renderedSelectors = [] ∧
        b.status.renderedClusterSPIFFEID = none ∧ ¬b.status.Is .ready .true_) := by
  have htaxonomic := h.inv.classified hS b hb
  refine ⟨htaxonomic, fun hpending => ?_⟩
  obtain ⟨hcomputed, hselectors, hrendered⟩ := htaxonomic.unrendered hpending
  exact ⟨hcomputed, hselectors, hrendered, htaxonomic.pending hpending⟩

/-- One reconcile at a time and current reads; everybody else does what they like, except
writing records. -/
def tidySetting : Setting := ⟨false, false, true, false, true, fun _ _ => true⟩

/-- Some binding has been Ready. -/
def SystemState.wasReady (s : SystemState) : Bool :=
  s.world.bindingVersions.any fun b => b.status.Is .ready .true_

theorem persisted_status_taxonomic_trial :
    ∃ s b, Reachable trialReconciler tidySetting s ∧ b ∈ s.world.bindingVersions ∧
      b.status.Is .ready .true_ ∧ b.status.Taxonomic := by
  obtain ⟨s, hs, htest⟩ := exists_reachable (r := trialReconciler) (S := tidySetting) trialReady
    SystemState.wasReady (by decide +kernel)
  obtain ⟨b, hb, hready⟩ := List.any_eq_true.mp htest
  obtain ⟨htaxonomic, -⟩ := persisted_status_taxonomic (S := tidySetting) ⟨rfl, rfl, rfl⟩ hs hb
  exact ⟨s, b, hs, hb, of_decide_eq_true hready, htaxonomic⟩

/-! ## Failed calls -/

/-- A call that failed, where NotFound is an answer to a read or a deletion of an object. -/
def Call.Failure : (c : Call) → Answer c → Prop
  | .getClusterSPIFFEID _, a =>
    ∃ err, a = (.error err : Except GoError ClusterSPIFFEID) ∧ err.kind ≠ .notFound
  | .deleteClusterSPIFFEID _ _ _, a =>
    ∃ err, a = (.error err : Except GoError Unit) ∧ err.kind ≠ .notFound
  | .patchBindingStatus _ _ _, a => ∃ err, a = (.error err : Except GoError Binding)
  | _, _ => False

/-- No call in a trace failed. -/
def Unfailed (t : Log) : Prop := ∀ e ∈ t, ¬e.call.Failure e.answer

theorem Unfailed.nil : Unfailed [] := fun _ he => absurd he List.not_mem_nil

theorem Unfailed.append {t t' : Log} (h : Unfailed t) (h' : Unfailed t') : Unfailed (t ++ t') := by
  intro e he
  rcases List.mem_append.mp he with he | he
  · exact h e he
  · exact h' e he

theorem Unfailed.cons {c : Call} {a : Answer c} {t : Log} (h : ¬c.Failure a) (ht : Unfailed t) :
    Unfailed (⟨c, a⟩ :: t) := by
  intro e he
  rcases List.mem_cons.mp he with rfl | he
  · exact h
  · exact ht e he

section

variable {P : Platform} {m m' : Binding} {t : Log}

/-- The first call of a trace, with its answer. -/
theorem runs_get {α : Type} {name : GoString} {f : Except GoError ClusterSPIFFEID → Op α} {b : α}
    (h : Runs (getClusterSPIFFEID name >>= f) t b) :
    ∃ (a : Except GoError ClusterSPIFFEID) (t' : Log),
      t = ⟨.getClusterSPIFFEID name, a⟩ :: t' ∧ Runs (f a) t' b := h

theorem runs_delete {α : Type} {owner name uid : GoString} {f : Except GoError Unit → Op α} {b : α}
    (h : Runs (deleteClusterSPIFFEID owner name uid >>= f) t b) :
    ∃ (a : Except GoError Unit) (t' : Log),
      t = ⟨.deleteClusterSPIFFEID owner name uid, a⟩ :: t' ∧ Runs (f a) t' b := h

theorem runs_patch {α : Type} {kind : PatchKind} {base : Binding} {status : Status}
    {f : Except GoError Binding → Op α} {b : α}
    (h : Runs (patchBindingStatus kind base status >>= f) t b) :
    ∃ (a : Except GoError Binding) (t' : Log),
      t = ⟨.patchBindingStatus kind base status, a⟩ :: t' ∧ Runs (f a) t' b := h

theorem runs_list {α : Type} {reader : NamespacedName} {namespace_ : GoString}
    {f : Except GoError (List Binding) → Op α} {b : α}
    (h : Runs (listBindings reader namespace_ >>= f) t b) :
    ∃ (a : Except GoError (List Binding)) (t' : Log),
      t = ⟨.listBindings reader namespace_, a⟩ :: t' ∧ Runs (f a) t' b := h

theorem unfailed_observe {name : GoString} {obs : ManagedOutputObservation}
    (h : Runs (observeManagedClusterSPIFFEID m name) t (.ok obs)) : Unfailed t := by
  rw [observeManagedClusterSPIFFEID] at h
  split at h
  · cases h.2
  split_ifs at h
  · rw [h.1]
    exact Unfailed.nil
  obtain ⟨err | object, t', rfl, hrest⟩ := runs_get h
  · dsimp only at hrest
    split_ifs at hrest with hkind
    · rw [hrest.1]
      refine Unfailed.nil.cons ?_
      rintro ⟨err', heq, hne⟩
      cases heq
      exact hne hkind
    · cases hrest.2
  · rw [hrest.1]
    refine Unfailed.nil.cons ?_
    rintro ⟨err', heq, -⟩
    cases heq

theorem unfailed_patchOwnershipStatus {status : Status}
    (h : Runs (patchOwnershipStatus m status) t (m', .ok ())) : Unfailed t := by
  obtain ⟨err | target, t', rfl, hrest⟩ := runs_patch h
  · cases hrest.2
  · rw [hrest.1]
    refine Unfailed.nil.cons ?_
    rintro ⟨err', heq⟩
    cases heq

theorem unfailed_confirm {name uid : GoString}
    (h : Runs (confirmClusterSPIFFEIDOwnership P m name uid) t (m', .ok ())) : Unfailed t := by
  rw [confirmClusterSPIFFEIDOwnership] at h
  split_ifs at h
  · cases h.2
  · exact unfailed_patchOwnershipStatus h

theorem unfailed_clear (h : Runs (clearClusterSPIFFEIDOwnership m) t (m', .ok ())) :
    Unfailed t := by
  rw [clearClusterSPIFFEIDOwnership] at h
  split_ifs at h
  · rw [h.1]
    exact Unfailed.nil
  · exact unfailed_patchOwnershipStatus h

theorem unfailed_listManaged {objects : List ClusterSPIFFEID}
    (h : Runs (listManagedClusterSPIFFEIDs P m) t (m', .ok objects)) : Unfailed t := by
  obtain ⟨t₁, t₂, obs, rfl, hobs, hrest⟩ := runs_bind.mp h
  rcases obs with err | obs
  · cases hrest.2
  refine (unfailed_observe hobs).append ?_
  cases obs with
  | pendingOutputMatched object =>
    obtain ⟨t₃, t₄, ⟨m₁, err | ⟨⟩⟩, rfl, hconfirm, hend⟩ := runs_bind.mp hrest
    · cases hend.2
    · rw [hend.1]
      exact (unfailed_confirm hconfirm).append Unfailed.nil
  | confirmedOutputMatched object => exact hrest.1 ▸ Unfailed.nil
  | unclaimedOutputAbsent => exact hrest.1 ▸ Unfailed.nil
  | unclaimedOutputForeign object => exact hrest.1 ▸ Unfailed.nil
  | _ =>
    obtain ⟨t₃, t₄, ⟨m₁, err | ⟨⟩⟩, rfl, hclear, hend⟩ := runs_bind.mp hrest
    · cases hend.2
    · rw [hend.1]
      exact (unfailed_clear hclear).append Unfailed.nil

theorem unfailed_deleteManagedObjects {owner : GoString} {objects : List ClusterSPIFFEID}
    (h : Runs (deleteManagedObjects owner objects) t (.ok ())) : Unfailed t := by
  induction objects generalizing t with
  | nil => exact h.1 ▸ Unfailed.nil
  | cons object rest ih =>
    obtain ⟨err | ⟨⟩, t', rfl, hrest⟩ := runs_delete h
    · dsimp only at hrest
      split_ifs at hrest with hkind
      · refine (ih hrest).cons ?_
        rintro ⟨err', heq, hne⟩
        cases heq
        exact hne hkind
      · cases hrest.2
    · refine (ih hrest).cons ?_
      rintro ⟨err', heq, -⟩
      cases heq

theorem unfailed_cleanupManaged
    (h : Runs (cleanupManagedClusterSPIFFEIDs P m) t (m', .ok ())) : Unfailed t := by
  obtain ⟨t₁, t₂, ⟨m₁, err | objects⟩, rfl, hlist, hrest⟩ := runs_bind.mp h
  · cases hrest.2
  obtain ⟨t₃, t₄, result, rfl, hdelete, hend⟩ := runs_bind.mp hrest
  cases hend.2
  rw [hend.1]
  exact (unfailed_listManaged hlist).append ((unfailed_deleteManagedObjects hdelete).append .nil)

theorem unfailed_cleanupMembers {members members' : List ConflictMember}
    (h : Runs (cleanupMembers P members m) t (m', .ok members')) : Unfailed t := by
  induction members generalizing m m' members' t with
  | nil => exact h.1 ▸ Unfailed.nil
  | cons x rest ih =>
    cases x with
    | current =>
      obtain ⟨t₁, t₂, ⟨m₁, err | ⟨⟩⟩, rfl, hcleanup, hrest⟩ := runs_bind.mp h
      · cases hrest.2
      obtain ⟨t₃, t₄, ⟨m₂, err | members₂⟩, rfl, hmembers, hend⟩ := runs_bind.mp hrest
      · cases hend.2
      rw [hend.1]
      exact (unfailed_cleanupManaged hcleanup).append ((ih hmembers).append .nil)
    | copy peer =>
      obtain ⟨t₁, t₂, ⟨m₁, err | ⟨⟩⟩, rfl, hcleanup, hrest⟩ := runs_bind.mp h
      · cases hrest.2
      obtain ⟨t₃, t₄, ⟨m₂, err | members₂⟩, rfl, hmembers, hend⟩ := runs_bind.mp hrest
      · cases hend.2
      rw [hend.1]
      exact (unfailed_cleanupManaged hcleanup).append ((ih hmembers).append .nil)

/-! ## The second look -/

/-- A trace holds a look at what the binding under this key owns, which found nothing. -/
def LookedAbsent (P : Platform) (t : Log) (key : NamespacedName) : Prop :=
  ∃ before look after copy copy', t = before ++ look ++ after ∧ copy.key = key ∧
    Runs (listManagedClusterSPIFFEIDs P copy) look (copy', .ok [])

theorem LookedAbsent.after {t' : Log} {key : NamespacedName} (h : LookedAbsent P t key) :
    LookedAbsent P (t' ++ t) key := by
  obtain ⟨before, look, after, copy, copy', rfl, hkey, hlook⟩ := h
  exact ⟨t' ++ before, look, after, copy, copy', by simp, hkey, hlook⟩

theorem allows_any (b : Binding) : Allows (fun _ => True) b :=
  ⟨fun _ _ _ => trivial, fun _ => trivial, fun _ _ _ _ => trivial⟩

theorem key_of_listManaged {result : Except GoError (List ClusterSPIFFEID)}
    (h : Runs (listManagedClusterSPIFFEIDs P m) t (m', result)) : m'.key = m.key :=
  ((always_listManaged (allows_any m) (.refl m)).of_runs h).2.key

theorem key_of_cleanupManaged {result : Except GoError Unit}
    (h : Runs (cleanupManagedClusterSPIFFEIDs P m) t (m', result)) : m'.key = m.key :=
  ((always_cleanupManaged (allows_any m) (fun _ _ => trivial) (.refl m)).of_runs h).2.key

theorem key_congr {b b' : Binding} (h : b'.key = b.key) (x : ConflictMember) :
    x.key b' = x.key b := by
  cases x with
  | current => exact h
  | copy peer => rfl

/-- Where the second loop reports absence, it has looked at every member. -/
theorem confirmMembersAbsent_true {members : List ConflictMember}
    (h : Runs (confirmMembersAbsent P members m) t (m', .ok true)) :
    Unfailed t ∧ ∀ x ∈ members, LookedAbsent P t (x.key m) := by
  induction members generalizing m t with
  | nil => exact ⟨h.1 ▸ Unfailed.nil, nofun⟩
  | cons x rest ih =>
    cases x with
    | current =>
      obtain ⟨t₁, t₂, ⟨m₁, err | _ | ⟨o, objects⟩⟩, rfl, hlook, hrest⟩ := runs_bind.mp h
      · cases hrest.2
      · obtain ⟨hunfailed, hlooked⟩ := ih hrest
        refine ⟨(unfailed_listManaged hlook).append hunfailed, fun y hy => ?_⟩
        rcases List.mem_cons.mp hy with rfl | hy
        · exact ⟨[], t₁, t₂, m, m₁, rfl, rfl, hlook⟩
        · exact key_congr (key_of_listManaged hlook) y ▸ (hlooked y hy).after
      · cases hrest.2
    | copy peer =>
      obtain ⟨t₁, t₂, ⟨p₁, err | _ | ⟨o, objects⟩⟩, rfl, hlook, hrest⟩ := runs_bind.mp h
      · cases hrest.2
      · obtain ⟨hunfailed, hlooked⟩ := ih hrest
        refine ⟨(unfailed_listManaged hlook).append hunfailed, fun y hy => ?_⟩
        rcases List.mem_cons.mp hy with rfl | hy
        · exact ⟨[], t₁, t₂, peer, p₁, rfl, rfl, hlook⟩
        · exact (hlooked y hy).after
      · cases hrest.2

/-- The first loop hands on the members it was given. -/
theorem keys_of_cleanupMembers {members members' : List ConflictMember}
    (h : Runs (cleanupMembers P members m) t (m', .ok members')) :
    m'.key = m.key ∧ memberKeys m' members' = memberKeys m members := by
  induction members generalizing m m' members' t with
  | nil =>
    cases h.2
    exact ⟨rfl, rfl⟩
  | cons x rest ih =>
    cases x with
    | current =>
      obtain ⟨t₁, t₂, ⟨m₁, err | ⟨⟩⟩, rfl, hcleanup, hrest⟩ := runs_bind.mp h
      · cases hrest.2
      obtain ⟨t₃, t₄, ⟨m₂, err | members₂⟩, rfl, hmembers, hend⟩ := runs_bind.mp hrest
      · cases hend.2
      cases hend.2
      obtain ⟨hkey, hkeys⟩ := ih hmembers
      have hkey' := hkey.trans (key_of_cleanupManaged hcleanup)
      refine ⟨hkey', congrArg₂ List.cons hkey' (hkeys.trans ?_)⟩
      exact List.map_congr_left fun y _ => key_congr (key_of_cleanupManaged hcleanup) y
    | copy peer =>
      obtain ⟨t₁, t₂, ⟨p₁, err | ⟨⟩⟩, rfl, hcleanup, hrest⟩ := runs_bind.mp h
      · cases hrest.2
      obtain ⟨t₃, t₄, ⟨m₂, err | members₂⟩, rfl, hmembers, hend⟩ := runs_bind.mp hrest
      · cases hend.2
      cases hend.2
      obtain ⟨hkey, hkeys⟩ := ih hmembers
      exact ⟨hkey, congrArg₂ List.cons (key_of_cleanupManaged hcleanup) hkeys⟩

/-- A withdrawal that reports absence had no failed call, and looked at every member. -/
theorem withdrawConflictOutputs_true {members : List ConflictMember}
    (h : Runs (withdrawConflictOutputs P members m) t (m', .ok true)) :
    Unfailed t ∧ ∀ x ∈ members, LookedAbsent P t (x.key m) := by
  obtain ⟨t₁, t₂, ⟨m₁, err | members₁⟩, rfl, hcleanup, hrest⟩ := runs_bind.mp h
  · cases hrest.2
  obtain ⟨hunfailed, hlooked⟩ := confirmMembersAbsent_true hrest
  refine ⟨(unfailed_cleanupMembers hcleanup).append hunfailed, fun x hx => ?_⟩
  have hkey : x.key m ∈ memberKeys m₁ members₁ :=
    (keys_of_cleanupMembers hcleanup).2 ▸ List.mem_map.mpr ⟨x, hx, rfl⟩
  obtain ⟨y, hy, heq⟩ := List.mem_map.mp hkey
  exact heq ▸ (hlooked y hy).after

/-! ## The evaluation -/

/-- A trace holds the evaluation of a peer, which does not stand in the way. -/
def Passed (r : Reconciler) (m : Binding) (identity : Plan) (t : Log) (peer : Binding) : Prop :=
  ∃ before look after peer' verdict, t = before ++ look ++ after ∧
    Runs (r.identityForConflictEvaluation m identity peer) look (peer', .ok verdict) ∧
    verdict ≠ .blocksRecovery

/-- Where nobody blocks in the end, nobody blocked on the way. -/
theorem passed_of_foldM {identity : Plan} {items : List Binding} {acc scan : PeerScan}
    (h : Runs (Prog.foldM (r.scanPeer m identity) items acc) t (.ok scan))
    (hnone : scan.blockedMembers = []) :
    acc.blockedMembers = [] ∧ ∀ peer ∈ items, Passed r m identity t peer := by
  induction items generalizing acc t with
  | nil =>
    cases h.2
    exact ⟨hnone, nofun⟩
  | cons peer rest ih =>
    obtain ⟨t₁, t₂, err | acc', rfl, hscan, hrest⟩ := runs_bind.mp h
    · cases hrest.2
    obtain ⟨hacc', hpassed⟩ := ih hrest
    -- the verdict on the first peer, read off what its round has added
    obtain ⟨t₃, t₄, ⟨peer', err | verdict⟩, rfl, hlook, hend⟩ := runs_bind.mp hscan
    · cases hend.2
    have hfirst : acc.blockedMembers = [] ∧ verdict ≠ .blocksRecovery := by
      cases verdict with
      | irrelevant =>
        cases hend.2
        exact ⟨hacc', nofun⟩
      | relevant plan =>
        cases hend.2
        exact ⟨hacc', nofun⟩
      | blocksRecovery =>
        cases hend.2
        simp at hacc'
    refine ⟨hfirst.1, fun p hp => ?_⟩
    rcases List.mem_cons.mp hp with rfl | hp
    · exact ⟨[], t₃, t₄ ++ t₂, peer', verdict, by simp, hlook, hfirst.2⟩
    · obtain ⟨before, look, after, p', v, rfl, hp', hv⟩ := hpassed p hp
      exact ⟨t₃ ++ t₄ ++ before, look, after, p', v, by simp, hp', hv⟩

/-- An evaluation lists the namespace, and where the result is not blocked every peer it
found has passed. -/
theorem evaluateBindingConflicts_unblocked {identity : Plan} {state : BindingConflictState}
    (h : Runs (r.evaluateBindingConflicts m identity) t (.ok state))
    (hblocked : state.blocked = false) :
    ∃ items t', t = ⟨.listBindings m.key m.key.namespace_,
        (.ok items : Except GoError (List Binding))⟩ :: t' ∧
      ∀ peer ∈ items, Passed r m identity t peer := by
  obtain ⟨err | items, t', rfl, hrest⟩ := runs_list h
  · cases hrest.2
  obtain ⟨t₁, t₂, err | scan, rfl, hfold, hend⟩ := runs_bind.mp hrest
  · cases hend.2
  cases hend.2
  have hnone : scan.blockedMembers = [] := by
    by_contra hne
    rw [Reconciler.conflictStateOf, BindingConflictState.block, if_neg hne] at hblocked
    cases hblocked
  refine ⟨items, _, rfl, fun peer hp => ?_⟩
  obtain ⟨before, look, after, peer', verdict, rfl, hlook, hverdict⟩ :=
    (passed_of_foldM hfold hnone).2 peer hp
  exact ⟨_ :: before, look, after ++ t₂, peer', verdict, by simp; rfl, hlook, hverdict⟩

/-! ## One listing per reconcile -/

/-- A listing of a namespace. -/
def Call.isListing (c : Call) : Bool := c.reader.isSome

/-- A program that lists nothing. -/
abbrev Unlisting {α : Type} (p : Op α) : Prop :=
  Always (fun c => c.isListing = false) (fun _ => True) p

theorem allows_unlisting (b : Binding) : Allows (fun c => c.isListing = false) b :=
  ⟨fun _ _ _ => rfl, fun _ => rfl, fun _ _ _ _ => rfl⟩

theorem unlisting_perform {c : Call} (h : c.isListing = false) :
    Unlisting (perform c : Op (Answer c)) :=
  Always.perform h

theorem unlisting_patchStatus : Unlisting (patchStatus m) := by
  have honce : ∀ (b : Binding) (desired : Status), Unlisting (patchStatusOnce b desired) := by
    intro b desired
    refine (unlisting_perform (c := Call.getBinding b.key) rfl).bind ?_
    rintro (err | latest) -
    · trivial
    dsimp only
    split_ifs
    · trivial
    · refine (unlisting_perform (c := Call.patchBindingStatus .ordinary latest _) rfl).bind ?_
      rintro (err | updated) - <;> trivial
  have hretrying : ∀ (n : ℕ) (b : Binding) (desired : Status),
      Unlisting (patchStatusRetrying b desired n) := by
    intro n
    induction n with
    | zero => exact honce
    | succ n ih =>
      intro b desired
      refine (honce b desired).bind ?_
      rintro ⟨b', err | ⟨⟩⟩ -
      · dsimp only
        split_ifs
        · exact ih b desired
        · trivial
      · trivial
  exact hretrying 4 m m.status

theorem unlisting_publishOutcome : Unlisting (publishOutcome m) := by
  refine unlisting_patchStatus.bind ?_
  rintro ⟨m', err | ⟨⟩⟩ -
  · trivial
  · exact ⟨rfl, fun _ => trivial⟩

theorem unlisting_reportApplyFailure {α : Type} (err : GoError) :
    Unlisting (reportApplyFailure m err : Op (Except GoError α)) := by
  refine unlisting_publishOutcome.bind ?_
  rintro (statusErr | ⟨⟩) -
  · trivial
  · exact ⟨rfl, fun _ => trivial⟩

theorem unlisting_listManaged : Unlisting (listManagedClusterSPIFFEIDs P m) :=
  (always_listManaged (allows_unlisting m) (.refl m)).weaken fun _ _ => trivial

theorem unlisting_cleanupManaged : Unlisting (cleanupManagedClusterSPIFFEIDs P m) :=
  (always_cleanupManaged (allows_unlisting m) (fun _ _ => rfl) (.refl m)).weaken fun _ _ => trivial

theorem unlisting_clear : Unlisting (clearClusterSPIFFEIDOwnership m) :=
  (always_clear (allows_unlisting m) (.refl m)).weaken fun _ _ => trivial

theorem unlisting_confirm (name uid : GoString) :
    Unlisting (confirmClusterSPIFFEIDOwnership P m name uid) :=
  (always_confirm (allows_unlisting m) (.refl m) name uid).weaken fun _ _ => trivial

theorem unlisting_settleStateError (stateErr : StateError) :
    Unlisting (r.settleStateError m stateErr) := by
  have hcleanup : Unlisting (cleanupAfterStateError r.platform m) := by
    refine unlisting_cleanupManaged.bind ?_
    rintro ⟨m₁, err | ⟨⟩⟩ -
    · trivial
    refine unlisting_listManaged.bind ?_
    rintro ⟨m₂, err | _ | ⟨o, objects⟩⟩ -
    · trivial
    · exact unlisting_clear
    · trivial
  have happly : Unlisting (applyStateError r.platform m stateErr) := by
    rw [applyStateError]
    split_ifs
    · refine hcleanup.bind ?_
      rintro ⟨m₁, err | ⟨⟩⟩ - <;> trivial
    · trivial
  refine happly.bind ?_
  rintro ⟨m₁, err | ⟨⟩⟩ -
  · exact unlisting_reportApplyFailure err
  refine unlisting_publishOutcome.bind ?_
  rintro (err | ⟨⟩) -
  · trivial
  · refine ⟨rfl, fun _ => ?_⟩
    split_ifs <;> trivial

theorem unlisting_reconcileDelete : Unlisting (r.reconcileDelete m) := by
  rw [Reconciler.reconcileDelete]
  split_ifs
  swap
  · trivial
  refine unlisting_cleanupManaged.bind ?_
  rintro ⟨m₁, err | ⟨⟩⟩ -
  · exact unlisting_reportApplyFailure err
  refine unlisting_listManaged.bind ?_
  rintro ⟨m₂, err | _ | ⟨o, objects⟩⟩ -
  · exact unlisting_reportApplyFailure err
  · refine Always.bind (Q := fun _ => True) ?_ ?_
    · split_ifs
      · exact unlisting_clear
      · trivial
    · rintro ⟨m₃, err | ⟨⟩⟩ -
      · trivial
      · refine (unlisting_perform (c := Call.updateBinding _) rfl).bind ?_
        rintro (err | b) - <;> trivial
  · trivial

theorem unlisting_submit (identity : Plan) (desired : ClusterSPIFFEID) (claim : GoString) :
    Unlisting (submitManagedClusterSPIFFEID P m identity desired claim) := by
  refine (unlisting_perform (c := Call.createClusterSPIFFEID _ _) rfl).bind ?_
  rintro (err | object) -
  · dsimp only
    split_ifs <;> trivial
  dsimp only
  split_ifs
  · trivial
  · refine (unlisting_confirm _ _).bind ?_
    rintro ⟨m₁, err | ⟨⟩⟩ - <;> trivial

theorem unlisting_authorize (desired : ClusterSPIFFEID) (obs : ManagedOutputObservation) :
    Unlisting (authorizeManagedOutputApply P m desired obs) := by
  cases obs with
  | unclaimedOutputAbsent => trivial
  | unclaimedOutputForeign o => trivial
  | pendingOutputAbsent claim => trivial
  | confirmedOutputMatched o => trivial
  | pendingOutputMatched o =>
    refine (unlisting_confirm o.name o.uid).bind ?_
    rintro ⟨m', err | ⟨⟩⟩ - <;> trivial
  | _ =>
    refine unlisting_clear.bind ?_
    rintro ⟨m', err | ⟨⟩⟩ - <;> trivial

theorem unlisting_create (identity : Plan) (desired : ClusterSPIFFEID)
    (obs : ManagedOutputObservation) :
    Unlisting (createManagedClusterSPIFFEID P m identity desired obs) := by
  have hreserve : Unlisting (reserveClusterSPIFFEIDClaim P m desired.name) := by
    rw [reserveClusterSPIFFEIDClaim]
    split
    · trivial
    · refine (unlisting_perform (c := Call.newUUID m.uid) rfl).bind ?_
      intro claim _
      refine Always.bind (Q := fun _ => True) ?_ ?_
      · refine (unlisting_perform (c := Call.patchBindingStatus .ownership m _) rfl).bind ?_
        rintro (err | target) - <;> trivial
      · rintro ⟨m', err | ⟨⟩⟩ - <;> trivial
    · trivial
  rw [createManagedClusterSPIFFEID.eq_def]
  split
  · exact unlisting_submit identity desired _
  · refine hreserve.bind ?_
    rintro ⟨m₁, err | claim⟩ -
    · trivial
    · exact unlisting_submit identity desired claim

theorem unlisting_reconcileClusterSPIFFEID (identity : Plan) (desired : ClusterSPIFFEID) :
    Unlisting (reconcileClusterSPIFFEID P m identity desired) := by
  refine (always_observe (allows_unlisting m) desired.name).bind ?_
  rintro (err | obs) -
  · trivial
  refine (unlisting_authorize desired obs).bind ?_
  rintro ⟨m₁, err | _ | current⟩ -
  · trivial
  · exact unlisting_create identity desired obs
  · have hupdate : Unlisting (updateManagedClusterSPIFFEID P m₁.uid identity current desired) := by
      rw [updateManagedClusterSPIFFEID]
      split_ifs
      · trivial
      · refine (unlisting_perform (c := Call.updateClusterSPIFFEID _ _) rfl).bind ?_
        rintro (err | updated) - <;> trivial
    exact hupdate.bind fun _ _ => trivial

theorem unlisting_applyOutput (identity : Plan) : Unlisting (r.applyOutput m identity) := by
  have happly : ∀ (plans : List Plan) (b : Binding), Unlisting
      (reconcileClusterSPIFFEIDs r.platform r.config.clusterSPIFFEIDClassName plans b) := by
    intro plans
    induction plans with
    | nil => exact fun _ => trivial
    | cons plan rest ih =>
      intro b
      refine (unlisting_reconcileClusterSPIFFEID plan _).bind ?_
      rintro ⟨b₁, err | status⟩ -
      · trivial
      refine (ih b₁).bind ?_
      rintro ⟨b₂, err | statuses⟩ - <;> trivial
  refine (happly [identity] m).bind ?_
  rintro ⟨m₁, err | statuses⟩ -
  · dsimp only
    split_ifs
    · exact unlisting_settleStateError _
    · exact unlisting_reportApplyFailure err
  refine unlisting_publishOutcome.bind ?_
  rintro (err | ⟨⟩) -
  · trivial
  · exact ⟨rfl, fun _ => trivial⟩

theorem unlisting_cleanupChanged (name : GoString) :
    Unlisting (cleanupChangedClusterSPIFFEIDName P m name) := by
  rw [cleanupChangedClusterSPIFFEIDName]
  split_ifs
  · trivial
  refine unlisting_cleanupManaged.bind ?_
  rintro ⟨m₁, err | ⟨⟩⟩ -
  · trivial
  refine unlisting_listManaged.bind ?_
  rintro ⟨m₂, err | _ | ⟨o, objects⟩⟩ -
  · trivial
  · dsimp only
    split_ifs
    · refine unlisting_clear.bind ?_
      rintro ⟨m₃, err | ⟨⟩⟩ - <;> trivial
    · trivial
  · trivial

theorem unlisting_withdraw (members : List ConflictMember) :
    Unlisting (withdrawConflictOutputs P members m) := by
  refine (always_cleanupMembers members (.refl m) (fun x _ => allows_unlisting _)
    fun _ _ _ _ => rfl).bind ?_
  rintro ⟨m₁, err | members₁⟩ -
  · trivial
  · exact (always_confirmMembersAbsent members₁ (.refl m₁)
      fun x _ => allows_unlisting _).weaken fun _ _ => trivial

theorem atMost_reconcileConflictState (identity : Plan) :
    AtMost Call.isListing (r.reconcileConflictState m identity) 1 := by
  have hevaluate : AtMost Call.isListing (r.evaluateBindingConflicts m identity) 1 := by
    refine ⟨0, Nat.le_refl 1, fun listed => ?_⟩
    refine AtMost.of_always (Q := fun _ => True) ?_
    rcases (listed : Except GoError (List Binding)) with err | items
    · trivial
    · refine (Always.foldM fun p _ scan => ?_).bind ?_
      · refine (always_identityForConflictEvaluation (allows_unlisting p) (.refl p) m
          identity).bind ?_
        rintro ⟨p', err | _ | _ | _⟩ - <;> trivial
      · rintro (err | scan) - <;> trivial
  refine hevaluate.bind fun evaluated => AtMost.of_always (Q := fun _ => True) ?_
  rcases evaluated with err | state
  · exact (unlisting_reportApplyFailure err).bind fun _ _ => trivial
  dsimp only
  split_ifs
  · trivial
  refine (unlisting_withdraw state.members).bind ?_
  rintro ⟨m₁, err | absent⟩ -
  · exact (unlisting_reportApplyFailure err).bind fun _ _ => trivial
  dsimp only
  split_ifs
  · refine unlisting_patchStatus.bind ?_
    rintro ⟨m₂, err | ⟨⟩⟩ - <;> trivial
  · refine unlisting_publishOutcome.bind ?_
    rintro (err | ⟨⟩) - <;> trivial

/-- A reconcile lists its namespace once at most. -/
theorem atMost_reconcile (key : NamespacedName) : AtMost Call.isListing (r.reconcile key) 1 := by
  have hunlisting : ∀ {α β : Type} {p : Op α} {f : α → Op β}, Unlisting p →
      (∀ a, AtMost Call.isListing (f a) 1) → AtMost Call.isListing (p >>= f) 1 :=
    fun hp hf => ((AtMost.of_always hp).bind hf).mono (by omega)
  have hidentity : ∀ (b : Binding) (identity : Plan),
      AtMost Call.isListing (r.reconcileIdentity b identity) 1 := by
    intro b identity
    refine (atMost_reconcileConflictState identity).bind fun x =>
      AtMost.of_always (Q := fun _ => True) ?_
    rcases x with ⟨b₁, _ | result⟩
    · refine (unlisting_cleanupChanged _).bind ?_
      rintro ⟨b₂, err | _ | _⟩ -
      · exact unlisting_reportApplyFailure err
      · exact unlisting_applyOutput identity
      · refine unlisting_patchStatus.bind ?_
        rintro ⟨b₃, err | ⟨⟩⟩ - <;> trivial
    · trivial
  have hrender : ∀ b : Binding, Unlisting (r.renderDesired b) := fun b =>
    (always_renderDesired fun _ _ _ => rfl).weaken fun _ _ => trivial
  refine hunlisting (unlisting_perform (c := Call.getBinding key) rfl) fun read => ?_
  rcases (read : Except GoError Binding) with err | b
  · dsimp only
    split_ifs <;> trivial
  dsimp only
  split_ifs
  · exact (AtMost.of_always unlisting_reconcileDelete).mono (Nat.zero_le 1)
  refine hunlisting (p := Reconciler.ensureFinalizer b) ?_ fun secured => ?_
  · rw [Reconciler.ensureFinalizer]
    split_ifs
    · trivial
    · exact unlisting_perform rfl
  rcases secured with err | b
  · trivial
  refine hunlisting (hrender _) fun rendered => ?_
  rcases rendered with err | identity
  · dsimp only
    split
    · trivial
    · exact (AtMost.of_always (unlisting_settleStateError _)).mono (Nat.zero_le 1)
  · exact hidentity _ identity

end

/-- In every state of every run, a reconcile has listed its namespace once at most. -/
theorem Reachable.listings (h : Reachable r S s) :
    ∀ t ∈ s.threads, ∃ n, AtMost Call.isListing t.prog n ∧
      t.log.countP (fun e => e.call.isListing) + n ≤ 1 := by
  induction h with
  | refl => exact nofun
  | tail _ hstep ih =>
    cases hstep with
    | user op hop hturn => exact ih
    | start key hturn =>
      intro t ht
      rcases List.mem_cons.mp ht with rfl | ht
      · exact ⟨1, atMost_reconcile key, by simp⟩
      · exact ih t ht
    | @answer w before after c k log choice hchoice =>
      intro t ht
      rcases List.mem_append.mp ht with ht | ht
      · exact ih t (List.mem_append_left _ ht)
      rcases List.mem_cons.mp ht with rfl | ht
      · obtain ⟨n, ⟨m, hm, hk⟩, hcount⟩ := ih ⟨.call c k, log⟩ (by simp)
        refine ⟨m, hk _, ?_⟩
        have hlast : List.countP (fun e : Event Call Answer => e.call.isListing)
            [⟨c, (respond choice c w).1⟩] = c.isListing.toNat := by
          cases hc : c.isListing <;> simp [hc]
        dsimp only at hcount
        rw [List.countP_append, hlast]
        omega
      · exact ih t (List.mem_append_right _ (List.mem_cons_of_mem _ ht))
    | stop =>
      intro t ht
      refine ih t ?_
      rcases List.mem_append.mp ht with ht | ht <;> simp [ht]

/-! ## Settled conflicts -/

/-- A record names an object, by its claim or by its UID. -/
def Names (record : Record) (o : ClusterSPIFFEID) : Prop :=
  (∃ pending ∈ record.1, clusterSPIFFEIDOwnershipClaim o = pending.claimID) ∨
  ∃ owned ∈ record.2, o.uid = owned.uid

/-- What the calls of a reconcile say about the conflict it publishes: its only evaluation
found every listed peer rendered or without output, and in the withdrawal of the members
no call failed and the second look found nothing of any member. -/
def CleanlySettled (r : Reconciler) (log : Log) : Prop :=
  ∃ before evaluation withdrawal after binding plan state binding' items rest,
    log = before ++ evaluation ++ withdrawal ++ after ∧
    (∀ e ∈ before ++ withdrawal ++ after, e.call.isListing = false) ∧
    Runs (r.evaluateBindingConflicts binding plan) evaluation (.ok state) ∧
    evaluation = ⟨.listBindings binding.key binding.key.namespace_,
      (.ok items : Except GoError (List Binding))⟩ :: rest ∧
    (∀ peer ∈ items, Passed r binding plan evaluation peer) ∧
    Runs (withdrawConflictOutputs r.platform state.members binding) withdrawal
      (binding', .ok true) ∧
    Unfailed withdrawal ∧
    ∀ x ∈ state.members, LookedAbsent r.platform withdrawal (x.key binding)

theorem SettledConflict.cleanly {log : Log} (h : SettledConflict r log)
    (hcount : log.countP (fun e => e.call.isListing) ≤ 1) : CleanlySettled r log := by
  obtain ⟨before, evaluation, withdrawal, after, binding, plan, state, binding', rfl, hevaluate,
    hblocked, hwithdraw⟩ := h
  obtain ⟨items, rest, heq, hpassed⟩ := evaluateBindingConflicts_unblocked hevaluate hblocked
  obtain ⟨hunfailed, hlooked⟩ := withdrawConflictOutputs_true hwithdraw
  refine ⟨before, evaluation, withdrawal, after, binding, plan, state, binding', items, rest, rfl,
    ?_, hevaluate, heq, hpassed, hwithdraw, hunfailed, hlooked⟩
  -- the evaluation has the one listing there is
  have hone : 0 < evaluation.countP fun e => e.call.isListing := by
    rw [heq, List.countP_pos_iff]
    exact ⟨_, List.mem_cons_self, rfl⟩
  have hnone : (before ++ withdrawal ++ after).countP (fun e => e.call.isListing) = 0 := by
    simp only [List.countP_append] at hcount ⊢
    omega
  intro e he
  simpa using List.countP_eq_zero.mp hnone e he

/-- Where what is stored under a key owns nothing, no live object is named by any record
that the binding ever had. -/
theorem unnamed_of_free (h : Inv S w) (hS : S.Honest) {p : Binding}
    (hfree : ∀ o, ¬w.Output p.uid o) {v : Binding} (hv : v ∈ w.bindingVersions)
    (huid : v.uid = p.uid) {o : ClusterSPIFFEID} (ho : o ∈ w.objects.entries) :
    ¬Names v.record o := by
  have hauthentic := h.authentic hS
  rintro (⟨pending, hpending, hclaim⟩ | ⟨owned, howned, hou⟩)
  · refine hfree o ⟨ho, huid ▸ hauthentic.claimed o (h.history.object_mem o ho) v.uid ?_⟩
    rw [hclaim]
    exact hauthentic.pending v hv pending hpending
  · refine hfree o ⟨ho, huid ▸ hou ▸ hauthentic.owned v hv owned howned⟩

/-- An ownership patch leaves no Conflict behind. -/
theorem not_conflict_of_transfer (h : Inv S w) (hS : S.Closed) {log : Log} {base stored : Binding}
    {status : Status} (hstored : w.bindings.get base.key = some stored)
    (hversion : stored.resourceVersion = base.resourceVersion)
    (hadmitted : (stored.patchedBy base status).status.Admitted) (hbased : Based S w base)
    (htransfer : Transfer S log w base status) :
    ¬(stored.patchedBy base status).status.Is .conflict .true_ := by
  intro hconflict
  obtain ⟨hmem, -⟩ := Store.get_eq_some.mp hstored
  obtain ⟨-, hrecord, -⟩ := hbased.stored_eq h.history hstored hversion
  -- a conflict goes without a record, before the patch and after it
  have hnone : (stored.patchedBy base status).record = unrecorded :=
    ((h.ownershipPatch hstored hversion hadmitted hbased htransfer).accounted hS).conflict
      { stored.patchedBy base status with resourceVersion := w.revision + 1 }
      (Store.mem_put.mpr (Or.inl rfl)) hconflict
  rw [Binding.record, Binding.patchedBy, record_mergeStatus status hrecord] at hnone
  cases htransfer with
  | reserve => cases hnone
  | confirm => cases hnone
  | clear hsome =>
    rw [Binding.patchedBy, mergeStatus_cleared hrecord] at hconflict
    exact hsome (hrecord ▸ (h.accounted hS).conflict stored hmem hconflict)

/-- The version of a binding that a status patch has persisted. -/
theorem patched_cases {choice : Choice} {kind : PatchKind} {base b : Binding} {status : Status}
    {w' : World} (hw' : (respond choice (.patchBindingStatus kind base status) w).2 = w')
    (hb : b ∈ w'.bindings.entries) (hnew : b ∉ w.bindings.entries) :
    ∃ stored, w.bindings.get base.key = some stored ∧
      stored.resourceVersion = base.resourceVersion ∧
      (stored.patchedBy base status).status.Admitted ∧
      w' = w.saveBinding (stored.patchedBy base status) ∧
      b = { stored.patchedBy base status with resourceVersion := w.revision + 1 } := by
  have heffect : Effect (.patchBindingStatus kind base status) w choice.fresh w' :=
    hw' ▸ respond_effect choice _ w
  cases heffect with
  | none => exact absurd hb hnew
  | patchBindingStatus hstored hversion hadmitted =>
    refine ⟨_, hstored, hversion, hadmitted, rfl, ?_⟩
    rcases Store.mem_put.mp hb with rfl | ⟨hb, -⟩
    · rfl
    · exact absurd hb hnew

/-- **Conflict is settled only after withdrawal.** When a status patch of the operator
persists Conflict for a binding, then at that moment the binding and every peer its status
names have no record and no object that a record of theirs ever named is live; and the
reconcile has evaluated and withdrawn without a failed call, found every member's output
gone, and met no peer that cannot be rendered and still has output. -/
theorem conflict_persisted_after_withdrawal (hS : S.Closed) (h : Reachable r S s)
    {kind : PatchKind} {base : Binding} {status : Status}
    {k : Answer (.patchBindingStatus kind base status) → Op (Except GoError ReconcileResult)}
    {log : Log} (ht : ⟨.call (.patchBindingStatus kind base status) k, log⟩ ∈ s.threads)
    {choice : Choice} {w' : World}
    (hw' : (respond choice (.patchBindingStatus kind base status) s.world).2 = w')
    {b : Binding} (hb : b ∈ w'.bindings.entries) (hnew : b ∉ s.world.bindings.entries)
    (hconflict : b.status.Is .conflict .true_) :
    (∀ p ∈ w'.bindings.entries,
      (p.key = b.key ∨ ∃ item ∈ b.status.conflicts, p.key = ⟨b.key.namespace_, item.bindingName⟩) →
      p.record = unrecorded ∧ ∀ v ∈ w'.bindingVersions, v.uid = p.uid →
        ∀ o ∈ w'.objects.entries, ¬Names v.record o) ∧
    CleanlySettled r log := by
  have hinv := h.inv
  have hguard := h.guarded ht
  obtain ⟨stored, hstored, hversion, hadmitted, rfl, rfl⟩ := patched_cases hw' hb hnew
  obtain ⟨hmem, hkey⟩ := Store.get_eq_some.mp hstored
  cases kind with
  | ownership =>
    exact absurd hconflict
      (not_conflict_of_transfer hinv hS hstored hversion hadmitted hguard.1 hguard.2)
  | ordinary =>
    have hguard : OrdinaryPatch r S log s.world base status := hguard
    have hinv' := hinv.ordinaryPatch hstored hversion hadmitted hguard
    obtain rfl := hinv.history.binding_inj base hguard.base_mem stored
      (hinv.history.binding_mem stored hmem) hversion.symm
    have hstatus : (base.patchedBy base status).status = status :=
      mergeStatus_current base.status status
    have hwithdrawn := hguard.withdrawn hS (hstatus ▸ hconflict)
    obtain ⟨hself, hfree⟩ := hwithdrawn base.key List.mem_cons_self base hmem rfl
    obtain ⟨n, -, hcount⟩ := h.listings _ ht
    refine ⟨fun p hp hnamed => ?_,
      (hguard.settled (hstatus ▸ hconflict)).cleanly (Nat.le_trans (Nat.le_add_right _ n) hcount)⟩
    -- the binding itself is the new version, the peers are as they were
    have hfreed : p.record = unrecorded ∧ ∀ o, ¬s.world.Output p.uid o := by
      rcases Store.mem_put.mp hp with rfl | ⟨hp, hne⟩
      · refine ⟨?_, hfree⟩
        rw [Binding.record, hstatus, hguard.record]
        exact hself
      · rcases hnamed with hself | ⟨item, hitem, hpeer⟩
        · exact absurd hself hne
        · rw [hstatus] at hitem
          exact hwithdrawn p.key (List.mem_cons_of_mem _ (List.mem_map.mpr
            ⟨item, hitem, hpeer.symm⟩)) p hp rfl
    exact ⟨hfreed.1, fun v hv huid o ho => unnamed_of_free hinv' hS.honest hfreed.2 hv huid ho⟩

/-- The status patches. -/
def Call.isStatusPatch : Call → Bool
  | .patchBindingStatus _ _ _ => true
  | _ => false

theorem Call.eq_patch {c : Call} (h : c.isStatusPatch = true) :
    ∃ kind base status, c = .patchBindingStatus kind base status := by
  cases c with
  | patchBindingStatus kind base status => exact ⟨kind, base, status, rfl⟩
  | _ => cases h

/-- The next call persists a Conflict. -/
def SystemState.persistsConflict (s : SystemState) : Bool :=
  s.nextCall.any fun c => c.isStatusPatch &&
    (respond (.plain []) c s.world).2.bindings.entries.any fun b =>
      decide (b ∉ s.world.bindings.entries) && decide (b.status.Is .conflict .true_)

/-- A second binding asks for the variant that `x` has. -/
def conflictMoves : List Move :=
  trialReady ++ [.create "y" "v", .start (trialKey "y"), .proceed 10]

theorem conflict_persisted_after_withdrawal_trial :
    ∃ s c log, ∃ b ∈ (respond (.plain []) c s.world).2.bindings.entries,
      Reachable trialReconciler (closedSetting fun _ _ => true) s ∧ s.nextCall = some c ∧
      b.status.Is .conflict .true_ ∧ b.record = unrecorded ∧
      CleanlySettled trialReconciler log := by
  obtain ⟨s, hs, htest⟩ := exists_reachable (r := trialReconciler)
    (S := closedSetting fun _ _ => true) conflictMoves SystemState.persistsConflict
    (by decide +kernel)
  simp only [SystemState.persistsConflict, Option.any_eq_true, List.any_eq_true,
    Bool.and_eq_true, decide_eq_true_eq] at htest
  obtain ⟨c, hnext, hpatch, b, hb, hnew, hconflict⟩ := htest
  obtain ⟨kind, base, status, rfl⟩ := Call.eq_patch hpatch
  obtain ⟨k, log, ht⟩ := SystemState.exists_thread hnext
  obtain ⟨hwithdrawn, hsettled⟩ := conflict_persisted_after_withdrawal
    (closed_closedSetting _) hs ht rfl hb hnew hconflict
  exact ⟨s, _, log, b, hb, hs, hnext, hconflict, (hwithdrawn b hb (Or.inl rfl)).1, hsettled⟩

/-! ## Exclusive outputs -/

/-- **Live outputs are exclusive**, where no binding is evaluated while another one has an
object left from a spec it no longer has that renders the same boundary: two live objects
of the operator render different boundaries, and no pod satisfies the selectors of both. -/
theorem live_outputs_exclusive (hS : S.Quiet)
    (hlisting : ∀ key w, S.listing key w = true → freeOfStale key w = true)
    (h : Reachable r S s) {u u' : GoString} {o o' : ClusterSPIFFEID} (ho : s.world.Output u o)
    (ho' : s.world.Output u' o') (hne : o ≠ o') :
    (∃ t t', o.Renders t ∧ o'.Renders t' ∧ t ≠ t') ∧
      ∀ pod : Pod, ¬(pod.SatisfiesAll o.selectors ∧ pod.SatisfiesAll o'.selectors) := by
  have hexclusive := h.inv.exclusive ⟨hS, hlisting⟩
  have hsingle := (h.inv.accounted hS.closed).single
  obtain ⟨t, ht, -⟩ := hexclusive.rendered u o ho
  obtain ⟨t', ht', -⟩ := hexclusive.rendered u' o' ho'
  have htne : t ≠ t' := by
    rintro rfl
    obtain rfl := hexclusive.disjoint u o u' o' t ho ho' ht ht'
    exact hne (hsingle u o o' ho ho')
  refine ⟨⟨t, t', ht, ht', htne⟩, fun pod hpod => htne ?_⟩
  exact Pod.boundary_eq_of_satisfiesAll hpod.1 ht.1 hpod.2 ht'.1

/-- Two live objects of the operator, under different names and with a property each. -/
def SystemState.hasPair (p : ClusterSPIFFEID → Bool) (s : SystemState) : Bool :=
  s.world.objects.entries.any fun o => s.world.objects.entries.any fun o' =>
    decide (o.name ≠ o'.name) && s.world.created.any (fun e => decide (e.1 = o.uid)) &&
      s.world.created.any (fun e => decide (e.1 = o'.uid)) && p o && p o'

theorem SystemState.exists_pair {p : ClusterSPIFFEID → Bool} (h : s.hasPair p = true) :
    ∃ u u' o o', s.world.Output u o ∧ s.world.Output u' o' ∧ o ≠ o' ∧ p o = true ∧ p o' = true := by
  simp only [SystemState.hasPair, List.any_eq_true, Bool.and_eq_true, decide_eq_true_eq] at h
  obtain ⟨o, ho, o', ho', ⟨⟨⟨hname, ⟨uid, u⟩, he, rfl⟩, ⟨uid', u'⟩, he', rfl⟩, hp⟩, hp'⟩ := h
  exact ⟨u, u', o, o', ⟨ho, he⟩, ⟨ho', he'⟩, fun heq => hname (congrArg _ heq), hp, hp'⟩

/-- Two bindings for two variants. -/
theorem live_outputs_exclusive_trial :
    ∃ s u u' o o', Reachable trialReconciler (quietSetting freeOfStale) s ∧
      s.world.Output u o ∧ s.world.Output u' o' ∧ o ≠ o' ∧
      ∀ pod : Pod, ¬(pod.SatisfiesAll o.selectors ∧ pod.SatisfiesAll o'.selectors) := by
  obtain ⟨s, hs, htest⟩ := exists_reachable (r := trialReconciler) (S := quietSetting freeOfStale)
    (trialReady ++ [.create "y" "w", .start (trialKey "y"), .proceed 14])
    (SystemState.hasPair fun _ => true) (by decide +kernel)
  obtain ⟨u, u', o, o', ho, ho', hne, -⟩ := SystemState.exists_pair htest
  exact ⟨s, u, u', o, o', hs, ho, ho', hne,
    (live_outputs_exclusive (quiet_quietSetting _) (fun _ _ h => h) hs ho ho' hne).2⟩

/-- How two outputs come to grant their identities to one pod: `x` is ready for the
variant `v`; a user edits it to ask for `w`, and another one creates `y` for `v`. The
reconcile of `y` compares it with what `x` asks for now, not with the object that `x`
still has. -/
def staleMoves : List Move :=
  trialReady ++ [.edit "x" "w", .create "y" "v", .start (trialKey "y"), .proceed 14]

/-- A pod of the variant `v`. -/
def trialPod : Pod :=
  ⟨str "n", str "s", fun key => if key = str "a" then some (str "b") else some (str "v")⟩

theorem live_outputs_share_pod :
    ∃ s u u' o o', Reachable trialReconciler (quietSetting fun _ _ => true) s ∧
      s.world.Output u o ∧ s.world.Output u' o' ∧ o ≠ o' ∧
      trialPod.SatisfiesAll o.selectors ∧ trialPod.SatisfiesAll o'.selectors ∧
      Boundary.RenderedIn ⟨str "n", str "s", str "v"⟩ o.selectors ∧
      Boundary.RenderedIn ⟨str "n", str "s", str "v"⟩ o'.selectors := by
  obtain ⟨s, hs, htest⟩ := exists_reachable (r := trialReconciler)
    (S := quietSetting fun _ _ => true) staleMoves
    (SystemState.hasPair fun o => decide (trialPod.SatisfiesAll o.selectors) &&
      decide (Boundary.RenderedIn ⟨str "n", str "s", str "v"⟩ o.selectors)) (by decide +kernel)
  obtain ⟨u, u', o, o', ho, ho', hne, hp, hp'⟩ := SystemState.exists_pair htest
  simp only [Bool.and_eq_true, decide_eq_true_eq] at hp hp'
  exact ⟨s, u, u', o, o', hs, ho, ho', hne, hp.1, hp'.1, hp.2, hp'.2⟩

end Kleym
