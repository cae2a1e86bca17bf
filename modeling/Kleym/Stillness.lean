import Kleym.Undisturbed
import Kleym.Drift
import Kleym.Conflicts

/-!
# States that a reconcile leaves alone

A reconcile that finds everything as it wants it writes nothing. What it has to find is said
here piece by piece, along the functions a reconcile is made of: a status in which setting the
conditions changes nothing, peers whose records need no resolving, a conflict whose members own
nothing, an output that is in sync. Each piece then rests: however its reads are answered, it
makes no write, leaves the cluster alone and returns one value.

Nothing is said here about how a cluster gets into such a state.
-/

namespace Kleym

open GoString Prog

/-- A piece of code that writes nothing, changes nothing and returns one value. -/
abbrev Rests {α : Type} (p : Op α) (v : World) (a : α) : Prop :=
  Idles Served (fun c => c.isWrite = false) (· = a) p v

section

variable {r : Reconciler} {P : Platform} {v v' : World} {m q : Binding} {plan : Plan}

theorem Rests.bind {α β : Type} {p : Op α} {f : α → Op β} {a : α} {b : β} (h : Rests p v a)
    (hf : Rests (f a) v b) : Rests (p >>= f) v b := by
  refine Idles.bind h ?_
  rintro _ rfl
  exact hf

/-! ## Calls -/

theorem rests_perform {c : Call} {a : Answer c} (hc : c.isWrite = false)
    (h : ∀ a' v', Served c v a' v' → v' = v ∧ a' = a) : Rests (perform c) v a :=
  Idles.perform hc h

theorem rests_getBinding (key : NamespacedName) :
    Rests (getBinding key) v (v.readBinding .current key) :=
  rests_perform (c := .getBinding key) rfl fun _ _ => Served.getBinding

theorem rests_getClusterSPIFFEID (name : GoString) :
    Rests (getClusterSPIFFEID name) v (v.readObject .current name) :=
  rests_perform (c := .getClusterSPIFFEID name) rfl fun _ _ => Served.getClusterSPIFFEID

theorem rests_recordTerminalOutcome (b : Binding) : Rests (recordTerminalOutcome b) v () :=
  rests_perform (c := .recordTerminalOutcome b.status) rfl
    fun _ _ h => ⟨Served.recordTerminalOutcome h, rfl⟩

theorem rests_recordEvent (warning : Bool) (reason : Reason) (message : GoString) :
    Rests (recordEvent warning reason message) v () :=
  rests_perform (c := .recordEvent warning reason message) rfl
    fun _ _ h => ⟨Served.recordEvent h, rfl⟩

/-! ## Pools -/

theorem served_poolCall {c : Call} {a : Answer c} (hc : PoolCall c) (h : Served c v a v') :
    respond {} c v = (a, v') ∧ v' = v := by
  obtain ⟨gvk, key, rfl⟩ := hc
  obtain ⟨rfl, rfl⟩ := Served.getPool h
  exact ⟨rfl, rfl⟩

section Pools

variable {α : Type} {p : Op α} {V : α → Prop} (hp : Always PoolCall V p)

include hp

theorem rests_pools : Rests p v (execute p v).1 := by
  refine Idles.mono ?_ (fun _ h => h) (Idles.of_always (A := PoolCall) served_poolCall hp)
  rintro c ⟨gvk, key, rfl⟩
  rfl

/-- What is read from the pools alone has one result. -/
theorem goes_pools {S : Setting} {a : α} (h : Goes S p v a v') : a = (execute p v).1 ∧ v' = v :=
  Leads.determined (fun hc hkept => served_poolCall hc hkept.served) hp h

theorem execute_pools (hpools : v'.poolView = v.poolView) :
    (execute p v').1 = (execute p v).1 := by
  refine (exec_related (respond {}) (S := fun v v' => v'.poolView = v.poolView) ?_ hp hpools).1
  rintro c s s' ⟨gvk, key, rfl⟩ hs
  have hs' := hs
  rw [World.poolView, World.poolView, Prod.mk.injEq] at hs'
  refine ⟨?_, hs⟩
  change s'.readPool gvk key = s.readPool gvk key
  rw [World.readPool, World.readPool, hs'.1, hs'.2]

end Pools

theorem pools_renderIdentityForBinding (r : Reconciler) (b : Binding) :
    Always PoolCall (fun _ => True) (r.renderIdentityForBinding b) :=
  always_renderIdentityForBinding fun gvk key _ => ⟨gvk, key, rfl⟩

theorem pools_renderDesired (r : Reconciler) (b : Binding) :
    Always PoolCall (fun _ => True) (r.renderDesired b) :=
  (always_renderDesired fun gvk key _ => ⟨gvk, key, rfl⟩).weaken fun _ _ => trivial

/-- What a binding is rendered to while the pools are as they are. -/
def renderedOf (r : Reconciler) (v : World) (b : Binding) : Except GoError Plan :=
  (execute (r.renderIdentityForBinding b) v).1

/-- A later copy renders to the same, as long as the pools stay. -/
theorem renderedOf_eq (hpools : v'.poolView = v.poolView) (hq : Continues m q) :
    renderedOf r v' q = renderedOf r v m := by
  have hsame : r.renderIdentityForBinding q = r.renderIdentityForBinding m := by rw [hq]; rfl
  rw [renderedOf, hsame]
  exact execute_pools (pools_renderIdentityForBinding r m) hpools

/-! ## Conditions -/

/-- A condition that is there already. -/
theorem setStatusCondition_of_find {l : List Condition} {c : Condition}
    (h : findStatusCondition l c.type = some c) : setStatusCondition l c = l := by
  induction l with
  | nil => cases h
  | cons d l ih =>
    rw [findStatusCondition, List.find?_cons] at h
    rw [setStatusCondition]
    by_cases hd : d.type = c.type
    · simp only [hd, decide_true, Option.some.injEq] at h
      rw [if_pos hd, h]
    · simp only [hd, decide_false] at h
      rw [if_neg hd, ih h]

theorem setCondition_of_find {status : Status} {generation : ℕ} {type : ConditionType}
    {value : ConditionStatus} {reason : Reason} {message : GoString}
    (h : findStatusCondition status.conditions type =
      some ⟨type, value, generation, reason, message⟩) :
    setCondition status generation type value reason message = status := by
  rw [setCondition, setStatusCondition_of_find h]

/-- The status has these conditions. -/
def Status.Shows (status : Status) (conditions : List Condition) : Prop :=
  ∀ c ∈ conditions, findStatusCondition status.conditions c.type = some c

/-- The record has no part in the conditions, nor in the configuration. -/
theorem Status.Shows.withRecordOf {status : Status} {conditions : List Condition}
    (h : status.Shows conditions) (persisted : Status) :
    (status.withRecordOf persisted).Shows conditions := h

theorem Status.config_withRecordOf (status persisted : Status) :
    (status.withRecordOf persisted).config = status.config := rfl

theorem config_applySuccessStatus (status : Status) (generation : ℕ) (identities : List Plan)
    (managedStatuses : List RenderedClusterSPIFFEIDStatus) :
    (applySuccessStatus status generation identities managedStatuses).config = status.config := rfl

theorem config_applyConflictStatus (status : Status) (generation : ℕ)
    (conflicts : List VariantConflict) :
    (applyConflictStatus status generation conflicts).config = status.config := rfl

/-- The conditions of a success. -/
def successConditions (generation : ℕ) : List Condition :=
  [⟨.ready, .true_, generation, .reconciled, str "Binding reconciled"⟩,
    ⟨.invalidRef, .false_, generation, .resolved, resolvedMessage .invalidRef⟩,
    ⟨.unsafeSelector, .false_, generation, .resolved, resolvedMessage .unsafeSelector⟩,
    ⟨.conflict, .false_, generation, .resolved, resolvedMessage .conflict⟩,
    ⟨.renderFailure, .false_, generation, .resolved, resolvedMessage .renderFailure⟩]

/-- The conditions of a settled conflict. -/
def conflictConditions (generation : ℕ) (conflicts : List VariantConflict) : List Condition :=
  [⟨.ready, .false_, generation, conflictReason conflicts,
      str "Variant conflicts with one or more peer bindings"⟩,
    ⟨.invalidRef, .false_, generation, .resolved, resolvedMessage .invalidRef⟩,
    ⟨.unsafeSelector, .false_, generation, .resolved, resolvedMessage .unsafeSelector⟩,
    ⟨.conflict, .true_, generation, conflictReason conflicts,
      str "Variant conflicts with one or more peer bindings"⟩,
    ⟨.renderFailure, .false_, generation, .resolved, resolvedMessage .renderFailure⟩]

theorem shows_applySuccessStatus (status : Status) (generation : ℕ) (identities : List Plan)
    (managedStatuses : List RenderedClusterSPIFFEIDStatus) :
    (applySuccessStatus status generation identities managedStatuses).Shows
      (successConditions generation) := by
  simp [Status.Shows, successConditions, applySuccessStatus, setResolved, setCondition,
    findStatusCondition_setStatusCondition]

theorem shows_applyConflictStatus (status : Status) (generation : ℕ)
    (conflicts : List VariantConflict) :
    (applyConflictStatus status generation conflicts).Shows
      (conflictConditions generation conflicts) := by
  simp [Status.Shows, conflictConditions, applyConflictStatus, setResolved, setCondition,
    findStatusCondition_setStatusCondition]

/-- Conditions that are all there, with reasons and messages, for the generation. -/
structure Initialized (generation : ℕ) (conditions : List Condition) : Prop where
  types : conditions.map Condition.type = canonicalConditions.map Prod.fst
  generation : ∀ c ∈ conditions, c.observedGeneration = generation
  message : ∀ c ∈ conditions, trimSpace c.message ≠ []

/-- Nothing is left to initialize. -/
theorem initializeConditions_of_shows {status : Status} {generation : ℕ}
    {conditions : List Condition} (h : status.Shows conditions)
    (hconditions : Initialized generation conditions) :
    initializeConditions status generation = status := by
  have hstep : ∀ entry ∈ canonicalConditions,
      initializeCondition generation status entry = status := by
    intro entry hentry
    have htype : entry.1 ∈ conditions.map Condition.type :=
      hconditions.types ▸ List.mem_map_of_mem hentry
    obtain ⟨c, hc, htype⟩ := List.mem_map.mp htype
    have hfind := h c hc
    rw [htype] at hfind
    rw [initializeCondition, hfind]
    dsimp only
    rw [if_pos (trimSpace_reason_text_ne c.reason), if_pos (hconditions.message c hc)]
    apply setCondition_of_find
    rw [hfind, ← htype, ← hconditions.generation c hc]
  have hfold : ∀ entries : List (ConditionType × GoString), entries ⊆ canonicalConditions →
      entries.foldl (initializeCondition generation) status = status := by
    intro entries hsub
    induction entries with
    | nil => rfl
    | cons entry entries ih =>
      rw [List.foldl_cons, hstep entry (hsub List.mem_cons_self)]
      exact ih fun _ he => hsub (List.mem_cons_of_mem entry he)
  exact hfold canonicalConditions (List.Subset.refl _)

theorem initialized_success (generation : ℕ) :
    Initialized generation (successConditions generation) := by
  refine ⟨rfl, ?_, ?_⟩
  · simp [successConditions]
  · simp only [successConditions, List.forall_mem_cons]
    decide

theorem initialized_conflict (generation : ℕ) (conflicts : List VariantConflict) :
    Initialized generation (conflictConditions generation conflicts) := by
  refine ⟨rfl, ?_, ?_⟩
  · simp [conflictConditions]
  · simp only [conflictConditions, List.forall_mem_cons]
    decide

/-- A status that was published for a success is published again as it is. -/
theorem applySuccessStatus_again (status persisted : Status) (generation : ℕ)
    (identities : List Plan) (managedStatuses : List RenderedClusterSPIFFEIDStatus) :
    let published := (applySuccessStatus status generation identities managedStatuses).withRecordOf
      persisted
    applySuccessStatus published generation identities managedStatuses = published := by
  intro published
  have hshows : published.Shows (successConditions generation) :=
    shows_applySuccessStatus status generation identities managedStatuses
  simp only [Status.Shows, successConditions, List.forall_mem_cons] at hshows
  obtain ⟨hready, hinvalid, hunsafe, hconflict, hrender, -⟩ := hshows
  change setResolved (setResolved (setResolved (setResolved (setCondition published generation
    .ready .true_ .reconciled (str "Binding reconciled")) generation .invalidRef) generation
    .unsafeSelector) generation .conflict) generation .renderFailure = published
  rw [setCondition_of_find hready]
  simp only [setResolved]
  rw [setCondition_of_find hinvalid, setCondition_of_find hunsafe, setCondition_of_find hconflict,
    setCondition_of_find hrender]

/-- So is one that was published for a conflict. -/
theorem applyConflictStatus_again (status persisted : Status) (generation : ℕ)
    (conflicts : List VariantConflict) :
    let published := (applyConflictStatus status generation conflicts).withRecordOf persisted
    applyConflictStatus published generation conflicts = published := by
  intro published
  have hshows : published.Shows (conflictConditions generation conflicts) :=
    shows_applyConflictStatus status generation conflicts
  simp only [Status.Shows, conflictConditions, List.forall_mem_cons] at hshows
  obtain ⟨hready, hinvalid, hunsafe, hconflict, hrender, -⟩ := hshows
  change setResolved (setCondition (setResolved (setResolved (setCondition published generation
    .ready .false_ (conflictReason conflicts)
    (str "Variant conflicts with one or more peer bindings")) generation .invalidRef) generation
    .unsafeSelector) generation .conflict .true_
    (conflictReason conflicts) (str "Variant conflicts with one or more peer bindings"))
    generation .renderFailure = published
  rw [setCondition_of_find hready]
  simp only [setResolved]
  rw [setCondition_of_find hinvalid, setCondition_of_find hunsafe, setCondition_of_find hconflict,
    setCondition_of_find hrender]

/-- Nothing is left to prepare. -/
theorem prepareStatus_of_shows {conditions : List Condition} (h : m.status.Shows conditions)
    (hconditions : Initialized m.generation conditions)
    (hconfig : m.status.config = (r.config.trustDomain, r.config.clusterSPIFFEIDClassName)) :
    r.prepareStatus m = m := by
  obtain ⟨htrust, hclass⟩ := Prod.mk.inj hconfig
  rw [Reconciler.prepareStatus, initializeConditions_of_shows h hconditions, applyOperatorConfig,
    ← htrust, ← hclass]

/-! ## Records -/

theorem fromStatus_unrecorded (h : q.record = unrecorded) :
    managedOutputRecordFromStatus q.status = .ok .unclaimed := by
  obtain ⟨hpending, howned⟩ := Prod.mk.inj h
  rw [managedOutputRecordFromStatus, hpending, howned]

/-- Without a record there is nothing to look up. -/
theorem rests_listManaged_unrecorded (h : q.record = unrecorded) :
    Rests (listManagedClusterSPIFFEIDs P q) v (q, .ok []) := by
  have hobserve : observeManagedClusterSPIFFEID q [] = ret (.ok .unclaimedOutputAbsent) := by
    rw [observeManagedClusterSPIFFEID, fromStatus_unrecorded h]
    rfl
  rw [listManagedClusterSPIFFEIDs, hobserve]
  rfl

theorem rests_observe_live {o : ClusterSPIFFEID} (h : Lives v q o) (name : GoString) :
    Rests (observeManagedClusterSPIFFEID q name) v (.ok (.confirmedOutputMatched o)) := by
  have hname : o.name ≠ [] := by
    intro hnil
    have hblank := h.name
    rw [hnil] at hblank
    exact hblank trimSpace_nil
  have hread : v.readObject .current o.name = .ok o := by rw [World.readObject, h.stored]
  rw [observeManagedClusterSPIFFEID, fromStatus_confirmed h.name h.uid h.record]
  dsimp only
  rw [if_neg (show ¬lookupName (.confirmed o.name o.uid) name = [] from hname)]
  refine (rests_getClusterSPIFFEID o.name).bind ?_
  rw [hread]
  simp only [classifyManagedClusterSPIFFEID, and_self, if_true]
  rfl

/-- A confirmed output that is there needs no resolving. -/
theorem rests_listManaged_live {o : ClusterSPIFFEID} (h : Lives v q o) :
    Rests (listManagedClusterSPIFFEIDs P q) v (q, .ok [o]) :=
  (rests_observe_live h []).bind rfl

theorem rests_cleanupManaged (h : q.record = unrecorded) :
    Rests (cleanupManagedClusterSPIFFEIDs P q) v (q, .ok ()) :=
  (rests_listManaged_unrecorded h).bind rfl

/-! ## Peers -/

/-- A peer that can be evaluated without a write: it is on its way out and owns nothing, or it
renders and its output is where its record says, or it does not render and owns nothing. -/
inductive Still (r : Reconciler) (v : World) (q : Binding) : Prop
  | gone (hdeleting : q.deleting = true) (hrecord : q.record = unrecorded)
  | rendered {plan : Plan} (hplan : renderedOf r v q = .ok plan)
      (hlives : q.deleting = true → ∃ o, Lives v q o)
  | failed {err : GoError} {stateErr : StateError} (hfails : renderedOf r v q = .error err)
      (hstate : errorsAsStateError err = some stateErr) (hpresent : q.deleting = false)
      (hrecord : q.record = unrecorded)

/-- The plan under which a still peer is in the evaluation of a binding, if it is in it. -/
def relevantPlan (r : Reconciler) (m : Binding) (plan : Plan) (v : World) (q : Binding) :
    Option Plan :=
  if q.key = m.key then some plan
  else if q.deleting = true ∧ q.record = unrecorded then none
  else (renderedOf r v q).toOption

/-- What the evaluation collects for a peer. -/
def PeerScan.add (scan : PeerScan) (q : Binding) : Option Plan → PeerScan
  | none => scan
  | some plan =>
    { scan with
      bindingsByRef := q :: scan.bindingsByRef
      records := scan.records ++ [variantRecord q plan] }

/-- What the evaluation says of a peer that is in it under this plan, or is not in it. -/
def verdictOf : Option Plan → PeerVerdict
  | none => .irrelevant
  | some plan => .relevant plan

theorem rests_renderPeer (hkey : q.key ≠ m.key) (h : Still r v q)
    (hnot : ¬(q.deleting = true ∧ q.record = unrecorded)) (identity : Plan) :
    Rests (r.renderPeer m identity q) v (q, .ok (verdictOf (renderedOf r v q).toOption)) := by
  have hrender : Rests (r.renderIdentityForBinding q) v (renderedOf r v q) :=
    rests_pools (pools_renderIdentityForBinding r q)
  rw [Reconciler.renderPeer, if_neg hkey]
  refine hrender.bind ?_
  cases h with
  | gone hdeleting hrecord => exact absurd ⟨hdeleting, hrecord⟩ hnot
  | rendered hplan _ =>
    rw [hplan]
    rfl
  | failed hfails hstate _ hrecord =>
    rw [hfails]
    simp only [hstate]
    exact (rests_listManaged_unrecorded hrecord).bind rfl

/-- The binding itself is in its evaluation as it is. -/
theorem rests_evaluate_self (hkey : q.key = m.key) (hpresent : q.deleting = false)
    (identity : Plan) :
    Rests (r.identityForConflictEvaluation m identity q) v
      (q, .ok (verdictOf (relevantPlan r m identity v q))) := by
  rw [Reconciler.identityForConflictEvaluation, hpresent, if_neg Bool.false_ne_true,
    Reconciler.renderPeer, if_pos hkey, relevantPlan, if_pos hkey]
  rfl

theorem rests_evaluate_peer (hkey : q.key ≠ m.key) (h : Still r v q) (identity : Plan) :
    Rests (r.identityForConflictEvaluation m identity q) v
      (q, .ok (verdictOf (relevantPlan r m identity v q))) := by
  rw [relevantPlan, if_neg hkey, Reconciler.identityForConflictEvaluation]
  by_cases hgone : q.deleting = true ∧ q.record = unrecorded
  · rw [if_pos hgone, if_pos hgone.1]
    exact (rests_listManaged_unrecorded hgone.2).bind rfl
  rw [if_neg hgone]
  by_cases hdeleting : q.deleting = true
  · rw [if_pos hdeleting]
    cases h with
    | gone _ hrecord => exact absurd ⟨hdeleting, hrecord⟩ hgone
    | rendered hplan hlives =>
      obtain ⟨o, ho⟩ := hlives hdeleting
      exact (rests_listManaged_live ho).bind (rests_renderPeer hkey (.rendered hplan hlives) hgone
        identity)
    | failed _ _ hpresent _ =>
      rw [hpresent] at hdeleting
      cases hdeleting
  · rw [if_neg hdeleting]
    exact rests_renderPeer hkey h hgone identity

/-- A listing that can be evaluated without a write. -/
def StillListing (r : Reconciler) (m : Binding) (v : World) (items : List Binding) : Prop :=
  ∀ q ∈ items, (q.key = m.key ∧ q.deleting = false) ∨ (q.key ≠ m.key ∧ Still r v q)

/-- What is collected from a listing that is still. -/
def collected (r : Reconciler) (m : Binding) (identity : Plan) (v : World) (items : List Binding)
    (scan : PeerScan) : PeerScan :=
  items.foldl (fun scan q => scan.add q (relevantPlan r m identity v q)) scan

theorem rests_scanPeer {scan : PeerScan} {identity : Plan}
    (h : Rests (r.identityForConflictEvaluation m identity q) v
      (q, .ok (verdictOf (relevantPlan r m identity v q)))) :
    Rests (r.scanPeer m identity scan q) v
      (.ok (scan.add q (relevantPlan r m identity v q))) := by
  refine h.bind ?_
  cases relevantPlan r m identity v q <;> rfl

theorem rests_scan {items : List Binding} (h : StillListing r m v items) (identity : Plan)
    (scan : PeerScan) :
    Rests (Prog.foldM (r.scanPeer m identity) items scan) v
      (.ok (collected r m identity v items scan)) := by
  induction items generalizing scan with
  | nil => rfl
  | cons q items ih =>
    have hq : Rests (r.identityForConflictEvaluation m identity q) v
        (q, .ok (verdictOf (relevantPlan r m identity v q))) := by
      rcases h q List.mem_cons_self with ⟨hkey, hpresent⟩ | ⟨hkey, hstill⟩
      · exact rests_evaluate_self hkey hpresent identity
      · exact rests_evaluate_peer hkey hstill identity
    exact (rests_scanPeer hq).bind (ih (fun x hx => h x (List.mem_cons_of_mem q hx)) _)

/-! ## What is collected -/

/-- The record of a binding in the evaluation. -/
def recordOf (r : Reconciler) (m : Binding) (identity : Plan) (v : World) (q : Binding) :
    Option VariantRecord :=
  (relevantPlan r m identity v q).map (variantRecord q)

theorem records_collected (identity : Plan) (items : List Binding) (scan : PeerScan) :
    (collected r m identity v items scan).records =
      scan.records ++ items.filterMap (recordOf r m identity v) := by
  induction items generalizing scan with
  | nil => exact (List.append_nil _).symm
  | cons q items ih =>
    rw [collected, List.foldl_cons, ← collected, ih, List.filterMap_cons, recordOf]
    cases relevantPlan r m identity v q with
    | none => rfl
    | some plan => exact List.append_assoc _ _ _

theorem blockedMembers_collected (identity : Plan) (items : List Binding) (scan : PeerScan) :
    (collected r m identity v items scan).blockedMembers = scan.blockedMembers := by
  induction items generalizing scan with
  | nil => rfl
  | cons q items ih =>
    rw [collected, List.foldl_cons, ← collected, ih]
    cases relevantPlan r m identity v q <;> rfl

theorem mem_bindingsByRef_collected {identity : Plan} {items : List Binding} {scan : PeerScan}
    {x : Binding} (h : x ∈ (collected r m identity v items scan).bindingsByRef) :
    x ∈ items ∨ x ∈ scan.bindingsByRef := by
  induction items generalizing scan with
  | nil => exact Or.inr h
  | cons q items ih =>
    rw [collected, List.foldl_cons, ← collected] at h
    rcases ih h with h | h
    · exact Or.inl (List.mem_cons_of_mem q h)
    · cases hplan : relevantPlan r m identity v q with
      | none =>
        rw [hplan] at h
        exact Or.inr h
      | some plan =>
        rw [hplan] at h
        rcases List.mem_cons.mp h with rfl | h
        · exact Or.inl List.mem_cons_self
        · exact Or.inr h

/-- Whoever has a record is there to be referred to. -/
def PeerScan.Refers (scan : PeerScan) : Prop :=
  ∀ rec ∈ scan.records, ∃ q ∈ scan.bindingsByRef, q.key = rec.bindingRef

theorem refers_collected {identity : Plan} {items : List Binding} {scan : PeerScan}
    (h : scan.Refers) : (collected r m identity v items scan).Refers := by
  induction items generalizing scan with
  | nil => exact h
  | cons q items ih =>
    rw [collected, List.foldl_cons, ← collected]
    refine ih ?_
    cases relevantPlan r m identity v q with
    | none => exact h
    | some plan =>
      intro rec hrec
      rcases List.mem_append.mp hrec with hrec | hrec
      · obtain ⟨x, hx, hkey⟩ := h rec hrec
        exact ⟨x, List.mem_cons_of_mem q hx, hkey⟩
      · rw [List.mem_singleton.mp hrec]
        exact ⟨q, List.mem_cons_self, rfl⟩

/-- The bindings in the namespace of a binding. -/
def neighbours (m : Binding) (v : World) : List Binding :=
  v.bindings.entries.filter fun b => b.key.namespace_ = m.key.namespace_

/-- The conflicts of a binding while everybody stays as they are. -/
def contested (r : Reconciler) (m : Binding) (identity : Plan) (v : World) :
    List VariantConflict :=
  (evaluateVariantConflicts ((neighbours m v).filterMap (recordOf r m identity v))).filter
    fun c => c.bindingRef = m.key

/-- What the evaluation of a listing comes to. -/
def listedState (r : Reconciler) (m : Binding) (identity : Plan) (v : World)
    (items : List Binding) : BindingConflictState :=
  Reconciler.conflictStateOf m (collected r m identity v items ⟨[], [], []⟩)

theorem blockedMembers_listed (identity : Plan) (items : List Binding) :
    (collected r m identity v items ⟨[], [], []⟩).blockedMembers = [] :=
  blockedMembers_collected identity items _

theorem blocked_listedState (identity : Plan) (items : List Binding) :
    (listedState r m identity v items).blocked = false :=
  (blocked_conflictStateOf m _).mpr (blockedMembers_listed identity items)

theorem conflicts_listedState {identity : Plan} {items : List Binding}
    (h : items.Perm (neighbours m v)) :
    (listedState r m identity v items).conflicts = contested r m identity v := by
  rw [listedState, conflicts_conflictStateOf, records_collected, List.nil_append, contested,
    evaluateVariantConflicts_of_perm (h.filterMap _)]

/-- The members of a conflict are the binding and those it is told about. -/
theorem members_listedState {identity : Plan} {items : List Binding}
    (h : items.Perm (neighbours m v)) {x : ConflictMember}
    (hx : x ∈ (listedState r m identity v items).members) :
    ∃ q ∈ neighbours m v, x = .copy q ∧
      (q.key = m.key ∨ ∃ c ∈ contested r m identity v, c.peerBindingRef = q.key) := by
  have hblocked := blockedMembers_listed (r := r) (m := m) (v := v) identity items
  have hkey : x.key m ∈ memberKeys m (listedState r m identity v items).members :=
    List.mem_map_of_mem hx
  have hcases := key_of_memberKeys hblocked hkey
  rw [← listedState, conflicts_listedState h] at hcases
  obtain ⟨q, hq, rfl⟩ := mem_conflictStateOf_unblocked hblocked hx
  rcases mem_bindingsByRef_collected hq with hq | hq
  · exact ⟨q, h.mem_iff.mp hq, rfl, hcases⟩
  · cases hq

/-- All of them are members, if there is a conflict. -/
theorem memberKeys_listedState {identity : Plan} {items : List Binding}
    (h : items.Perm (neighbours m v)) {c : VariantConflict} (hc : c ∈ contested r m identity v) :
    m.key ∈ memberKeys m (listedState r m identity v items).members ∧
      c.peerBindingRef ∈ memberKeys m (listedState r m identity v items).members := by
  have hnone : (⟨[], [], []⟩ : PeerScan).Refers := List.forall_mem_nil _
  rw [← conflicts_listedState h] at hc
  exact memberKeys_of_conflict (refers_collected hnone) (blockedMembers_listed identity items) hc

/-- The evaluation of a namespace that is still. -/
theorem idles_evaluate (h : StillListing r m v (neighbours m v)) (identity : Plan) :
    Idles Served (fun c => c.isWrite = false) (fun a => ∃ items, items.Perm (neighbours m v) ∧
      a = .ok (listedState r m identity v items)) (r.evaluateBindingConflicts m identity) v := by
  have hlist : Idles Served (fun c => c.isWrite = false)
      (fun a => ∃ items, items.Perm (neighbours m v) ∧ a = .ok items)
      (listBindings m.key m.key.namespace_) v := by
    refine ⟨rfl, fun a v' hserved => ?_⟩
    obtain ⟨rfl, items, rfl, hperm⟩ := Served.listBindings hserved
    exact ⟨rfl, items, hperm, rfl⟩
  refine Idles.bind hlist ?_
  rintro _ ⟨items, hperm, rfl⟩
  have hitems : StillListing r m v items := fun q hq => h q (hperm.mem_iff.mp hq)
  refine Idles.bind (rests_scan hitems identity _) ?_
  rintro _ rfl
  exact ⟨items, hperm, rfl⟩

/-! ## Withdrawing -/

/-- Members that own nothing. -/
def EmptyMembers (members : List ConflictMember) : Prop :=
  ∀ x ∈ members, ∃ q, x = .copy q ∧ q.record = unrecorded

theorem rests_cleanupMembers {members : List ConflictMember} (h : EmptyMembers members) :
    Rests (cleanupMembers P members m) v (m, .ok members) := by
  induction members with
  | nil => rfl
  | cons x members ih =>
    obtain ⟨q, rfl, hq⟩ := h x List.mem_cons_self
    refine (rests_cleanupManaged hq).bind ?_
    exact (ih fun y hy => h y (List.mem_cons_of_mem _ hy)).bind rfl

theorem rests_confirmMembersAbsent {members : List ConflictMember} (h : EmptyMembers members) :
    Rests (confirmMembersAbsent P members m) v (m, .ok true) := by
  induction members with
  | nil => rfl
  | cons x members ih =>
    obtain ⟨q, rfl, hq⟩ := h x List.mem_cons_self
    refine (rests_listManaged_unrecorded hq).bind ?_
    exact ih fun y hy => h y (List.mem_cons_of_mem _ hy)

theorem rests_withdraw {members : List ConflictMember} (h : EmptyMembers members) :
    Rests (withdrawConflictOutputs P members m) v (m, .ok true) :=
  (rests_cleanupMembers h).bind (rests_confirmMembersAbsent h)

/-! ## Publishing -/

theorem rests_patchStatus (h : v.bindings.get m.key = some m) :
    Rests (patchStatus m) v (m, .ok ()) := by
  have hread : v.readBinding .current m.key = .ok m := by rw [World.readBinding, h]
  have honce : Rests (patchStatusOnce m m.status) v (m, .ok ()) := by
    refine (rests_getBinding m.key).bind ?_
    rw [hread]
    dsimp only
    rw [if_pos rfl]
    rfl
  exact honce.bind rfl

theorem rests_publishOutcome (h : v.bindings.get m.key = some m) :
    Rests (publishOutcome m) v (.ok ()) :=
  (rests_patchStatus h).bind ((rests_recordTerminalOutcome m).bind rfl)

/-! ## The reconcile -/

/-- A binding that comes as far as its conflicts without a write. -/
structure AtRest (r : Reconciler) (v : World) (b : Binding) (plan : Plan) : Prop where
  stored : v.bindings.get b.key = some b
  present : b.deleting = false
  finalizer : inferenceIdentityBindingFinalizer ∈ b.finalizers
  prepared : r.prepareStatus b = b
  rendered : (execute (r.renderDesired b) v).1 = .ok plan
  still : ∀ q ∈ neighbours b v, q.key ≠ b.key → Still r v q

theorem AtRest.stillListing (h : AtRest r v m plan) : StillListing r m v (neighbours m v) := by
  intro q hq
  by_cases hkey : q.key = m.key
  · obtain ⟨hm, -⟩ := Store.get_eq_some.mp h.stored
    obtain rfl := v.bindings.eq_of_key_eq (List.mem_of_mem_filter hq) hm hkey
    exact Or.inl ⟨rfl, h.present⟩
  · exact Or.inr ⟨hkey, h.still q hq hkey⟩

theorem rests_conflictState_none (h : AtRest r v m plan) (hnone : contested r m plan v = []) :
    Rests (r.reconcileConflictState m plan) v (m, none) := by
  refine Idles.bind (idles_evaluate h.stillListing plan) ?_
  rintro _ ⟨items, hperm, rfl⟩
  dsimp only
  rw [if_pos ⟨(conflicts_listedState hperm).trans hnone, blocked_listedState plan items⟩]
  rfl

/-- A conflict that is published and whose members own nothing. -/
structure ConflictSettled (r : Reconciler) (v : World) (b : Binding) (plan : Plan) : Prop where
  conflicts : contested r b plan v ≠ []
  status : applyConflictStatus b.status b.generation (contested r b plan v) = b.status
  withdrawn : ∀ q ∈ neighbours b v,
    (q.key = b.key ∨ ∃ c ∈ contested r b plan v, c.peerBindingRef = q.key) → q.record = unrecorded

theorem rests_conflictState_settled (h : AtRest r v m plan)
    (hsettled : ConflictSettled r v m plan) :
    Rests (r.reconcileConflictState m plan) v (m, some (.ok ⟨0⟩)) := by
  refine Idles.bind (idles_evaluate h.stillListing plan) ?_
  rintro _ ⟨items, hperm, rfl⟩
  have hconflicts : (listedState r m plan v items).conflicts = contested r m plan v :=
    conflicts_listedState hperm
  have hblocked := blocked_listedState (r := r) (m := m) (v := v) plan items
  have hempty : EmptyMembers (listedState r m plan v items).members := by
    intro x hx
    obtain ⟨q, hq, rfl, hkey⟩ := members_listedState hperm hx
    exact ⟨q, rfl, hsettled.withdrawn q hq hkey⟩
  dsimp only
  rw [if_neg fun hnone => hsettled.conflicts (hconflicts.symm.trans hnone.1)]
  refine Rests.bind (rests_withdraw hempty) ?_
  dsimp only
  rw [if_neg (by rw [hblocked]; simp), hconflicts, hsettled.status]
  exact (rests_publishOutcome h.stored).bind rfl

/-- An output that is applied and published. -/
structure OutputSettled (r : Reconciler) (v : World) (b : Binding) (plan : Plan)
    (o : ClusterSPIFFEID) : Prop where
  lives : Lives v b o
  name : o.name = desiredName r.platform b.key plan
  inSync : clusterSPIFFEIDInSync o
    (desiredClusterSPIFFEID r.platform b.key plan r.config.clusterSPIFFEIDClassName) = true
  status : applySuccessStatus b.status b.generation [plan]
    [renderedClusterSPIFFEIDStatus r.platform plan o] = b.status

theorem rests_applyOutput {o : ClusterSPIFFEID} (hstored : v.bindings.get m.key = some m)
    (h : OutputSettled r v m plan o) : Rests (r.applyOutput m plan) v (.ok ⟨0⟩) := by
  have hupdate : updateManagedClusterSPIFFEID r.platform m.uid plan o
      (desiredClusterSPIFFEID r.platform m.key plan r.config.clusterSPIFFEIDClassName) =
        ret (.ok (renderedClusterSPIFFEIDStatus r.platform plan o)) := by
    rw [updateManagedClusterSPIFFEID, if_pos h.inSync]
  have hone : Rests (reconcileClusterSPIFFEID r.platform m plan
      (desiredClusterSPIFFEID r.platform m.key plan r.config.clusterSPIFFEIDClassName)) v
        (m, .ok (renderedClusterSPIFFEIDStatus r.platform plan o)) := by
    refine (rests_observe_live h.lives _).bind ?_
    change Rests (updateManagedClusterSPIFFEID r.platform m.uid plan o _ >>= _) v _
    rw [hupdate]
    rfl
  have hall : Rests (reconcileClusterSPIFFEIDs r.platform r.config.clusterSPIFFEIDClassName [plan]
      m) v (m, .ok [renderedClusterSPIFFEIDStatus r.platform plan o]) := hone.bind rfl
  refine hall.bind ?_
  dsimp only
  rw [h.status]
  exact (rests_publishOutcome hstored).bind ((rests_recordEvent _ _ _).bind rfl)

theorem rests_reconcileIdentity_conflict (h : AtRest r v m plan)
    (hsettled : ConflictSettled r v m plan) : Rests (r.reconcileIdentity m plan) v (.ok ⟨0⟩) :=
  (rests_conflictState_settled h hsettled).bind rfl

theorem rests_reconcileIdentity_output {o : ClusterSPIFFEID} (h : AtRest r v m plan)
    (hnone : contested r m plan v = []) (hsettled : OutputSettled r v m plan o) :
    Rests (r.reconcileIdentity m plan) v (.ok ⟨0⟩) := by
  have hname : recordedClusterSPIFFEIDName m.status = desiredName r.platform m.key plan := by
    obtain ⟨hpending, howned⟩ := Prod.mk.inj hsettled.lives.record
    rw [recordedClusterSPIFFEIDName, howned]
    exact hsettled.name
  have hchanged : cleanupChangedClusterSPIFFEIDName r.platform m
      (desiredName r.platform m.key plan) = ret (m, .ok false) := by
    rw [cleanupChangedClusterSPIFFEIDName, if_pos (Or.inr hname)]
  refine (rests_conflictState_none h hnone).bind ?_
  dsimp only
  rw [hchanged]
  exact rests_applyOutput h.stored hsettled

/-- A reconcile of a binding at rest is what it does about conflicts and output. -/
theorem AtRest.rests (h : AtRest r v m plan)
    (hidentity : Rests (r.reconcileIdentity m plan) v (.ok ⟨0⟩)) :
    Rests (r.reconcile m.key) v (.ok ⟨0⟩) := by
  have hread : v.readBinding .current m.key = .ok m := by rw [World.readBinding, h.stored]
  refine (rests_getBinding m.key).bind ?_
  rw [hread]
  dsimp only
  rw [if_neg (by rw [h.present]; simp), Reconciler.ensureFinalizer, if_pos h.finalizer]
  change Rests (r.reconcilePresent (r.prepareStatus m)) v _
  rw [h.prepared]
  refine (rests_pools (pools_renderDesired r m)).bind ?_
  rw [h.rendered]
  exact hidentity

/-- A binding that is being deleted and is done with is left alone. -/
theorem rests_reconcile_finalized (hstored : v.bindings.get m.key = some m)
    (hdeleting : m.deleting = true)
    (hfinalizer : inferenceIdentityBindingFinalizer ∉ m.finalizers) :
    Rests (r.reconcile m.key) v (.ok ⟨0⟩) := by
  have hread : v.readBinding .current m.key = .ok m := by rw [World.readBinding, hstored]
  refine (rests_getBinding m.key).bind ?_
  rw [hread]
  dsimp only
  rw [if_pos hdeleting, Reconciler.reconcileDelete, if_pos hfinalizer]
  rfl

end

end Kleym
