import Kleym.Convergence

/-!
# Evaluating a namespace without faults

What the evaluation of a namespace comes to when nothing fails, in terms of what is stored when
it begins. A peer counts as long as it is not on its way out, or still holds an output. One that
counts and renders to a plan that is not exclusive with the binding's competes with it; one that
holds an output and cannot be rendered blocks it; one that counts and whose pool reference cannot
even be read stops the evaluation. Nothing else about the peers matters.
-/

namespace Kleym

open GoString Prog Protocol

variable {r : Reconciler} {S : Setting} {v v' v'' : World} {m m' q b : Binding} {plan : Plan}

/-! ## The peers -/

/-- The binding holds an output. -/
def Holding (v : World) (q : Binding) : Prop := ∃ o, Holds v q o

/-- The binding counts: it is here to stay, or still holds an output. -/
def Engaged (v : World) (q : Binding) : Prop := q.deleting = false ∨ Holding v q

/-- Another binding that is stored in the namespace. -/
structure Peer (v : World) (m q : Binding) : Prop where
  stored : v.bindings.get q.key = some q
  other : q.key ≠ m.key
  sameNamespace : q.key.namespace_ = m.key.namespace_

/-- A peer whose plan is not exclusive with that of the binding. -/
structure Competes (r : Reconciler) (v : World) (m : Binding) (plan : Plan) (q : Binding) : Prop
    extends Peer v m q where
  engaged : Engaged v q
  clash : ∃ p, renderedOf r v q = .ok p ∧ (variantRecord m plan).Clash (variantRecord q p)

/-- A peer that holds an output it can no longer be rendered to. -/
structure Blocks (r : Reconciler) (v : World) (m q : Binding) : Prop extends Peer v m q where
  holding : Holding v q
  fails : ∃ err stateErr, renderedOf r v q = .error err ∧ errorsAsStateError err = some stateErr

/-- A peer whose pool reference cannot be read. -/
structure Stumps (r : Reconciler) (v : World) (m q : Binding) (err : GoError) : Prop
    extends Peer v m q where
  engaged : Engaged v q
  fails : renderedOf r v q = .error err
  plain : errorsAsStateError err = none

/-- What an evaluation makes of a peer. -/
inductive Assessed (r : Reconciler) (v : World) (q : Binding) : Except GoError PeerVerdict → Prop
  | gone (hdeleting : q.deleting = true) (hfree : ¬Holding v q) : Assessed r v q (.ok .irrelevant)
  | rendered {p : Plan} (hengaged : Engaged v q) (hplan : renderedOf r v q = .ok p) :
      Assessed r v q (.ok (.relevant p))
  | failed {err : GoError} {stateErr : StateError} (hfails : renderedOf r v q = .error err)
      (hstate : errorsAsStateError err = some stateErr) (hfree : ¬Holding v q) :
      Assessed r v q (.ok .irrelevant)
  | blocks {err : GoError} {stateErr : StateError} (hfails : renderedOf r v q = .error err)
      (hstate : errorsAsStateError err = some stateErr) (hholding : Holding v q) :
      Assessed r v q (.ok .blocksRecovery)
  | stumps {err : GoError} (hengaged : Engaged v q) (hfails : renderedOf r v q = .error err)
      (hplain : errorsAsStateError err = none) : Assessed r v q (.error err)

theorem Enumerated.holding {exact : Prop} {found : List ClusterSPIFFEID}
    (h : Enumerated exact v m v' m' found) : Holding v' m' ↔ Holding v m := by
  rcases h.settles with ⟨rfl, hnone⟩ | ⟨o, rfl, hlives⟩
  · constructor
    · rintro ⟨o, ho⟩
      exact absurd ho (not_holds_unrecorded hnone)
    · rintro ⟨o, ho⟩
      cases (h.holds o).mpr ho
  · exact iff_of_true ⟨o, (hlives.objects h.objects).holds⟩
      ⟨o, (h.holds o).mp List.mem_cons_self⟩

/-- An assessment is a matter of the pools and of what the peer holds. -/
theorem Assessed.congr {a : Except GoError PeerVerdict} (h : Assessed r v' m' a)
    (hcopy : Continues m m') (hpools : v'.poolView = v.poolView)
    (hholding : Holding v' m' ↔ Holding v m) : Assessed r v m a := by
  have hrendered : renderedOf r v' m' = renderedOf r v m := renderedOf_eq hpools hcopy
  have hengaged : Engaged v' m' ↔ Engaged v m := by
    rw [Engaged, Engaged, hholding, hcopy.deleting]
  cases h with
  | gone hdeleting hfree =>
    exact .gone (hcopy.deleting ▸ hdeleting) (fun hholds => hfree (hholding.mpr hholds))
  | rendered hcounts hplan => exact .rendered (hengaged.mp hcounts) (hrendered ▸ hplan)
  | failed hfails hstate hfree =>
    exact .failed (hrendered ▸ hfails) hstate fun hholds => hfree (hholding.mpr hholds)
  | blocks hfails hstate hholds => exact .blocks (hrendered ▸ hfails) hstate (hholding.mp hholds)
  | stumps hcounts hfails hplain =>
    exact .stumps (hengaged.mp hcounts) (hrendered ▸ hfails) hplain

/-- A peer has been assessed, and its record resolved on the way. -/
structure Visited (r : Reconciler) (v : World) (q : Binding) (v' : World) (q' : Binding)
    (a : Except GoError PeerVerdict) : Prop where
  carried : Carried True v q v' q'
  objects : v'.objects = v.objects
  assessed : Assessed r v q a

theorem smoothly_pools {α : Type} {p : Op α} {V : α → Prop} (hp : Always PoolCall V p) :
    Smoothly r S p (fun a v' => a = (execute p v).1 ∧ v' = v) v :=
  alone_of_leads fun _ _ h => goes_pools hp (goes_of_smooth h)

theorem smoothly_renderPeer (hkey : q.key ≠ m.key) (hv : Orderly r S v) (hq : Mirrors True v q)
    (hengaged : Engaged v q) :
    Smoothly r S (r.renderPeer m plan q) (fun x v' => Visited r v q v' x.1 x.2) v := by
  rw [Reconciler.renderPeer, if_neg hkey]
  refine (smoothly_pools (pools_renderIdentityForBinding r q)).bind hv ?_
  rintro a v₁ - ⟨ha, rfl⟩
  have hrendered : renderedOf r v₁ q = a := ha.symm
  rcases a with err | p
  · dsimp only
    rcases hstate : errorsAsStateError err with _ | stateErr
    · exact ⟨.refl hq, rfl, .stumps hengaged hrendered hstate⟩
    refine (smoothly_listManaged hv hq).bind hv ?_
    rintro ⟨q₁, a⟩ v₂ - ⟨found, rfl, hlisted⟩
    rcases hlisted.settles with ⟨rfl, hnone⟩ | ⟨o, rfl, hlives⟩
    · refine ⟨hlisted.carried, hlisted.objects, .failed hrendered hstate ?_⟩
      rw [← hlisted.holding]
      rintro ⟨o, ho⟩
      exact not_holds_unrecorded hnone ho
    · exact ⟨hlisted.carried, hlisted.objects,
        .blocks hrendered hstate ⟨o, (hlisted.holds o).mp List.mem_cons_self⟩⟩
  · exact ⟨.refl hq, rfl, .rendered hengaged hrendered⟩

theorem smoothly_evaluatePeer (hkey : q.key ≠ m.key) (hv : Orderly r S v) (hq : Mirrors True v q) :
    Smoothly r S (r.identityForConflictEvaluation m plan q)
      (fun x v' => Visited r v q v' x.1 x.2) v := by
  rw [Reconciler.identityForConflictEvaluation]
  split_ifs with hdeleting
  · refine (smoothly_listManaged hv hq).bind hv ?_
    rintro ⟨q₁, a⟩ v₁ hv₁ ⟨found, rfl, hlisted⟩
    rcases hlisted.settles with ⟨rfl, hnone⟩ | ⟨o, rfl, hlives⟩
    · refine ⟨hlisted.carried, hlisted.objects, .gone hdeleting ?_⟩
      rw [← hlisted.holding]
      rintro ⟨o, ho⟩
      exact not_holds_unrecorded hnone ho
    · have hholding : Holding v₁ q₁ :=
        hlisted.holding.mpr ⟨o, (hlisted.holds o).mp List.mem_cons_self⟩
      have hkey' : q₁.key ≠ m.key := by rwa [hlisted.carried.continues.key]
      refine (smoothly_renderPeer hkey' hv₁ hlisted.carried.mirrors (Or.inr hholding)).mono hv₁ ?_
      rintro ⟨q₂, a⟩ v₂ - hvisited
      exact ⟨hlisted.carried.trans hvisited.carried, hvisited.objects.trans hlisted.objects,
        hvisited.assessed.congr hlisted.carried.continues hlisted.carried.beside.poolView
          hlisted.holding⟩
  · exact smoothly_renderPeer hkey hv hq (Or.inl (Bool.eq_false_iff.mpr hdeleting))

/-! ## The scan -/

/-- A peer and what has been made of it. -/
structure Entry where
  peer : Binding
  verdict : PeerVerdict

/-- The record that an entry adds to a scan. -/
def Entry.record : Entry → Option VariantRecord
  | ⟨peer, .relevant p⟩ => some (variantRecord peer p)
  | _ => none

/-- The member that an entry adds to those that block. -/
def Entry.blocked : Entry → Option Binding
  | ⟨peer, .blocksRecovery⟩ => some peer
  | _ => none

/-- A scan with one more entry. -/
def PeerScan.enter (scan : PeerScan) : Entry → PeerScan
  | ⟨_, .irrelevant⟩ => scan
  | ⟨peer, .blocksRecovery⟩ => { scan with blockedMembers := scan.blockedMembers ++ [peer] }
  | ⟨peer, .relevant p⟩ => { scan with
      bindingsByRef := peer :: scan.bindingsByRef
      records := scan.records ++ [variantRecord peer p] }

theorem records_enter (entries : List Entry) (scan : PeerScan) :
    (entries.foldl PeerScan.enter scan).records =
      scan.records ++ entries.filterMap Entry.record := by
  induction entries generalizing scan with
  | nil => simp
  | cons entry entries ih =>
    rw [List.foldl_cons, ih]
    obtain ⟨peer, _ | p | _⟩ := entry <;> simp [PeerScan.enter, Entry.record, List.filterMap_cons]

theorem blockedMembers_enter (entries : List Entry) (scan : PeerScan) :
    (entries.foldl PeerScan.enter scan).blockedMembers =
      scan.blockedMembers ++ entries.filterMap Entry.blocked := by
  induction entries generalizing scan with
  | nil => simp
  | cons entry entries ih =>
    rw [List.foldl_cons, ih]
    obtain ⟨peer, _ | p | _⟩ := entry <;> simp [PeerScan.enter, Entry.blocked, List.filterMap_cons]

theorem mem_bindingsByRef_enter {entries : List Entry} {scan : PeerScan} {x : Binding} :
    x ∈ (entries.foldl PeerScan.enter scan).bindingsByRef ↔
      x ∈ scan.bindingsByRef ∨ ∃ p, (⟨x, .relevant p⟩ : Entry) ∈ entries := by
  induction entries generalizing scan with
  | nil => simp
  | cons entry entries ih =>
    rw [List.foldl_cons, ih]
    obtain ⟨peer, _ | p | _⟩ := entry
    · simp [PeerScan.enter]
    · simp only [PeerScan.enter, List.mem_cons, Entry.mk.injEq, PeerVerdict.relevant.injEq]
      constructor
      · rintro ((rfl | h) | ⟨p', h⟩)
        · exact Or.inr ⟨p, Or.inl ⟨rfl, rfl⟩⟩
        · exact Or.inl h
        · exact Or.inr ⟨p', Or.inr h⟩
      · rintro (h | ⟨p', ⟨rfl, -⟩ | h⟩)
        · exact Or.inl (Or.inr h)
        · exact Or.inl (Or.inl rfl)
        · exact Or.inr ⟨p', h⟩
    · simp [PeerScan.enter]

/-- What a round of the scan makes of an item: the binding itself has its plan, a peer is
assessed. -/
def Judges (r : Reconciler) (m : Binding) (plan : Plan) (v : World) (q : Binding)
    (a : Except GoError PeerVerdict) : Prop :=
  (q.key = m.key ∧ a = .ok (.relevant plan)) ∨ (q.key ≠ m.key ∧ Assessed r v q a)

/-- What a scan leaves, up to where it stopped. -/
structure Unmoved (m : Binding) (v v' : World) : Prop where
  objects : v'.objects = v.objects
  own : v'.bindings.get m.key = v.bindings.get m.key
  poolView : v'.poolView = v.poolView

theorem Unmoved.trans (h : Unmoved m v v') (h' : Unmoved m v' v'') : Unmoved m v v'' :=
  ⟨h'.objects.trans h.objects, h'.own.trans h.own, h'.poolView.trans h.poolView⟩

/-- What a scan leaves when it is through. -/
structure Polled (r : Reconciler) (m : Binding) (plan : Plan) (v : World) (items : List Binding)
    (v' : World) (entries : List Entry) : Prop extends Unmoved m v v' where
  touched : Touched v items v' (entries.map Entry.peer)
  judges : List.Forall₂ (fun q e => Continues q (Entry.peer e) ∧
    Judges r m plan v q (.ok (Entry.verdict e))) items entries

theorem Judges.congr {a : Except GoError PeerVerdict} (h : Judges r m plan v' q a)
    (hpools : v'.poolView = v.poolView) (hobjects : v'.objects = v.objects) :
    Judges r m plan v q a := by
  refine h.imp_right fun hpeer => ⟨hpeer.1, hpeer.2.congr (.refl q) hpools ?_⟩
  simp only [Holding, Holds, hobjects]

theorem smoothly_scanPeer {scan : PeerScan} (hv : Orderly r S v)
    (hq : v.bindings.get q.key = some q) (hown : q.key = m.key → q.deleting = false) :
    Smoothly r S (r.scanPeer m plan scan q) (fun a v' => Unmoved m v v' ∧
      ((∃ e, a = .ok (scan.enter e) ∧ Polled r m plan v [q] v' [e]) ∨
        ∃ err, a = .error err ∧ Judges r m plan v q (.error err))) v := by
  have hjudge : Smoothly r S (r.identityForConflictEvaluation m plan q) (fun x v' =>
      Unmoved m v v' ∧ Touched v [q] v' [x.1] ∧ Judges r m plan v q x.2) v := by
    by_cases hkey : q.key = m.key
    · rw [Reconciler.identityForConflictEvaluation, hown hkey, if_neg Bool.false_ne_true,
        Reconciler.renderPeer, if_pos hkey]
      exact ⟨⟨rfl, rfl, rfl⟩, touched_self hq, Or.inl ⟨hkey, rfl⟩⟩
    · refine (smoothly_evaluatePeer hkey hv (mirrors_of_get hq)).mono hv ?_
      rintro ⟨q', a⟩ v₁ - hvisited
      exact ⟨⟨hvisited.objects, hvisited.carried.beside.others m.key (Ne.symm hkey),
        hvisited.carried.beside.poolView⟩, hvisited.carried.touched,
        Or.inr ⟨hkey, hvisited.assessed⟩⟩
  refine hjudge.bind hv ?_
  rintro ⟨q', err | verdict⟩ v₁ - ⟨hunmoved, htouched, hjudges⟩
  · exact ⟨hunmoved, Or.inr ⟨err, rfl, hjudges⟩⟩
  · have hpolled : Polled r m plan v [q] v₁ [⟨q', verdict⟩] :=
      ⟨hunmoved, htouched, .cons ⟨(List.forall₂_cons.mp htouched.continues).1, hjudges⟩ .nil⟩
    cases verdict <;> exact ⟨hunmoved, Or.inl ⟨_, rfl, hpolled⟩⟩

theorem Polled.cons {items : List Binding} {e : Entry} {entries : List Entry}
    (h : Polled r m plan v [q] v' [e]) (h' : Polled r m plan v' items v'' entries)
    (hnew : q.key ∉ items.map Binding.key) : Polled r m plan v (q :: items) v'' (e :: entries) := by
  refine ⟨h.toUnmoved.trans h'.toUnmoved, h.touched.cons h'.touched hnew, ?_⟩
  obtain ⟨hjudges, -⟩ := List.forall₂_cons.mp h.judges
  exact .cons hjudges (h'.judges.imp fun _ _ hj => hj.imp_right (·.congr h.poolView h.objects))

theorem smoothly_scan {items : List Binding} {scan : PeerScan} (hv : Orderly r S v)
    (hitems : ∀ q ∈ items, v.bindings.get q.key = some q) (hnodup : (items.map Binding.key).Nodup)
    (hown : ∀ q ∈ items, q.key = m.key → q.deleting = false) :
    Smoothly r S (Prog.foldM (r.scanPeer m plan) items scan) (fun a v' => Unmoved m v v' ∧
      ((∃ entries, a = .ok (entries.foldl PeerScan.enter scan) ∧
          Polled r m plan v items v' entries) ∨
        ∃ err, a = .error err ∧ ∃ q ∈ items, Judges r m plan v q (.error err))) v := by
  induction items generalizing v scan with
  | nil => exact ⟨⟨rfl, rfl, rfl⟩, Or.inl ⟨[], rfl, ⟨rfl, rfl, rfl⟩, .nil v, .nil⟩⟩
  | cons q items ih =>
    rw [List.forall_mem_cons] at hitems hown
    obtain ⟨hnew, hnodup⟩ := List.nodup_cons.mp hnodup
    refine (smoothly_scanPeer hv hitems.1 hown.1).bind hv ?_
    rintro a v₁ hv₁ ⟨hunmoved, ⟨e, rfl, hpolled⟩ | ⟨err, rfl, hjudges⟩⟩
    · have hrest : ∀ x ∈ items, v₁.bindings.get x.key = some x :=
        hpolled.touched.stored_rest hitems.2 hnew
      refine (ih hv₁ hrest hnodup hown.2).mono hv₁ ?_
      rintro a v₂ - ⟨hunmoved', ⟨entries, rfl, hpolled'⟩ | ⟨err, rfl, x, hx, hjudges⟩⟩
      · exact ⟨hunmoved.trans hunmoved', Or.inl ⟨e :: entries, rfl, hpolled.cons hpolled' hnew⟩⟩
      · exact ⟨hunmoved.trans hunmoved', Or.inr ⟨err, rfl, x, List.mem_cons_of_mem q hx,
          hjudges.congr hunmoved.poolView hunmoved.objects⟩⟩
    · exact ⟨hunmoved, Or.inr ⟨err, rfl, q, List.mem_cons_self, hjudges⟩⟩

/-! ## The evaluation -/

theorem Assessed.unique {a a' : Except GoError PeerVerdict} (h : Assessed r v q a)
    (h' : Assessed r v q a') : a = a' := by
  have hcounts : Engaged v q → ¬(q.deleting = true ∧ ¬Holding v q) := by
    rintro (hpresent | hholding) ⟨hdeleting, hfree⟩
    · rw [hpresent] at hdeleting
      cases hdeleting
    · exact hfree hholding
  cases h <;> cases h' <;> simp_all

theorem Blocks.assessed (h : Blocks r v m q) : Assessed r v q (.ok .blocksRecovery) := by
  obtain ⟨err, stateErr, hfails, hstate⟩ := h.fails
  exact .blocks hfails hstate h.holding

theorem Stumps.assessed {err : GoError} (h : Stumps r v m q err) : Assessed r v q (.error err) :=
  .stumps h.engaged h.fails h.plain

theorem exists_of_forall₂ {α β : Type} {R : α → β → Prop} {l : List α} {l' : List β}
    (h : List.Forall₂ R l l') : ∀ y ∈ l', ∃ x ∈ l, R x y := by
  induction h with
  | nil => exact List.forall_mem_nil _
  | cons hxy _ ih =>
    refine List.forall_mem_cons.mpr ⟨⟨_, List.mem_cons_self, hxy⟩, fun y hy => ?_⟩
    obtain ⟨x, hx, hR⟩ := ih y hy
    exact ⟨x, List.mem_cons_of_mem _ hx, hR⟩

/-- The items of the listing, for the evaluation of a stored binding. -/
structure Roll (m : Binding) (v : World) (items : List Binding) : Prop where
  perm : items.Perm (neighbours m v)
  own : Mirrors False v m
  present : m.deleting = false

namespace Roll

variable {items : List Binding} (h : Roll m v items)

include h

theorem mem_iff : q ∈ items ↔ v.bindings.get q.key = some q ∧
    q.key.namespace_ = m.key.namespace_ := by
  rw [h.perm.mem_iff, neighbours, List.mem_filter, Store.get_eq_some, decide_eq_true_eq]
  simp

theorem stored : ∀ q ∈ items, v.bindings.get q.key = some q := fun _ hq => (h.mem_iff.mp hq).1

theorem nodup : (items.map Binding.key).Nodup :=
  (h.perm.map Binding.key).nodup_iff.mpr
    (v.bindings.nodup.sublist (List.filter_sublist.map Binding.key))

/-- The binding is among them, in the copy that is stored. -/
theorem self : ∃ status : Status, { m with status := status } ∈ items := by
  obtain ⟨status, hget, -⟩ := h.own
  exact ⟨status, h.mem_iff.mpr ⟨hget, rfl⟩⟩

theorem eq_self (hq : q ∈ items) (hkey : q.key = m.key) :
    ∃ status : Status, q = { m with status := status } := by
  obtain ⟨status, hget, -⟩ := h.own
  refine ⟨status, Option.some.inj ?_⟩
  rw [← hget, ← hkey, h.stored q hq]

theorem peer (hq : q ∈ items) (hkey : q.key ≠ m.key) : Peer v m q :=
  ⟨h.stored q hq, hkey, (h.mem_iff.mp hq).2⟩

theorem mem_of_peer (hq : Peer v m q) : q ∈ items := h.mem_iff.mpr ⟨hq.stored, hq.sameNamespace⟩

end Roll

namespace Polled

variable {items : List Binding} {entries : List Entry} (hroll : Roll m v items)
  (h : Polled r m plan v items v' entries)

include h

theorem exists_item {e : Entry} (he : e ∈ entries) : ∃ q ∈ items, Continues q e.peer ∧
    Judges r m plan v q (.ok e.verdict) :=
  exists_of_forall₂ h.judges e he

theorem exists_entry {a : Except GoError PeerVerdict} (hq : q ∈ items) (hkey : q.key ≠ m.key)
    (ha : Assessed r v q a) : ∃ e ∈ entries, Continues q e.peer ∧ a = .ok e.verdict := by
  obtain ⟨e, he, hcontinues, hjudges⟩ := exists_of_forall₂ h.judges.flip q hq
  rcases hjudges with ⟨hself, -⟩ | ⟨-, hassessed⟩
  · exact absurd hself hkey
  · exact ⟨e, he, hcontinues, ha.unique hassessed⟩

omit h in
theorem variantRecord_continues {q' : Binding} (hq : Continues q q') (p : Plan) :
    variantRecord q' p = variantRecord q p := by
  rw [variantRecord, variantRecord, hq.key, hq.boundary_spec]

theorem mem_records {rec : VariantRecord} : rec ∈ entries.filterMap Entry.record ↔
    ∃ q ∈ items, ∃ p, Judges r m plan v q (.ok (.relevant p)) ∧ rec = variantRecord q p := by
  rw [List.mem_filterMap]
  constructor
  · rintro ⟨⟨peer, _ | p | _⟩, he, hrec⟩
    · cases hrec
    · obtain ⟨q, hq, hcontinues, hjudges⟩ := h.exists_item he
      exact ⟨q, hq, p, hjudges,
        (Option.some.inj hrec).symm.trans (variantRecord_continues hcontinues p)⟩
    · cases hrec
  · rintro ⟨q, hq, p, hjudges, rfl⟩
    obtain ⟨⟨peer, verdict⟩, he, hcontinues, hjudges'⟩ := exists_of_forall₂ h.judges.flip q hq
    have hverdict : verdict = .relevant p := by
      rcases hjudges with ⟨hself, heq⟩ | ⟨hkey, hassessed⟩
      · rcases hjudges' with ⟨-, heq'⟩ | ⟨hkey, -⟩
        · exact Except.ok.inj (heq'.trans heq.symm)
        · exact absurd hself hkey
      · rcases hjudges' with ⟨hself, -⟩ | ⟨-, hassessed'⟩
        · exact absurd hself hkey
        · exact Except.ok.inj (hassessed'.unique hassessed)
    subst hverdict
    exact ⟨_, he, congrArg some (variantRecord_continues hcontinues p)⟩

/-- Each item has at most one record. -/
theorem nodup_records (hnodup : (items.map Binding.key).Nodup) :
    ((entries.filterMap Entry.record).map VariantRecord.bindingRef).Nodup := by
  have hkeys : (entries.map fun e => e.peer.key).Nodup := by
    have hsame := h.touched.keys
    rw [List.map_map] at hsame
    exact hsame ▸ hnodup
  refine hkeys.sublist ?_
  clear h hnodup hkeys
  induction entries with
  | nil => exact .slnil
  | cons e entries ih =>
    obtain ⟨peer, _ | p | _⟩ := e
    · exact ih.cons _
    · exact ih.cons_cons _
    · exact ih.cons _

include hroll

theorem mem_records_self : variantRecord m plan ∈ entries.filterMap Entry.record := by
  obtain ⟨status, hmem⟩ := hroll.self
  exact h.mem_records.mpr ⟨_, hmem, plan, Or.inl ⟨rfl, rfl⟩, rfl⟩

/-- The records besides that of the binding are those of the peers that count. -/
theorem mem_records_other {rec : VariantRecord} (hkey : rec.bindingRef ≠ m.key) :
    rec ∈ entries.filterMap Entry.record ↔ ∃ q, Peer v m q ∧ Engaged v q ∧
      ∃ p, renderedOf r v q = .ok p ∧ rec = variantRecord q p := by
  rw [h.mem_records]
  constructor
  · rintro ⟨q, hq, p, ⟨hself, -⟩ | ⟨hother, hassessed⟩, rfl⟩
    · exact absurd hself hkey
    · cases hassessed with
      | rendered hengaged hplan => exact ⟨q, hroll.peer hq hother, hengaged, p, hplan, rfl⟩
  · rintro ⟨q, hpeer, hengaged, p, hplan, rfl⟩
    exact ⟨q, hroll.mem_of_peer hpeer, p, Or.inr ⟨hpeer.other, .rendered hengaged hplan⟩, rfl⟩

/-- The conflicts of the binding are with the peers that compete. -/
theorem conflicts_iff {k : NamespacedName} :
    (∃ c ∈ (evaluateVariantConflicts (entries.filterMap Entry.record)).filter
        (fun c => c.bindingRef = m.key), c.peerBindingRef = k) ↔
      ∃ q, Competes r v m plan q ∧ q.key = k := by
  have hnodup := h.nodup_records hroll.nodup
  have hself := h.mem_records_self hroll
  -- two records with the key of the binding are the same one
  have heq : ∀ {x}, x ∈ entries.filterMap Entry.record → x.bindingRef = m.key →
      x = variantRecord m plan := fun hx hkey =>
    List.inj_on_of_nodup_map hnodup hx hself hkey
  have hcompetes : ∀ {y}, y ∈ entries.filterMap Entry.record → y.bindingRef ≠ m.key →
      (variantRecord m plan).Clash y → ∃ q, Competes r v m plan q ∧ q.key = y.bindingRef := by
    intro y hy hne hclash
    obtain ⟨q, hpeer, hengaged, p, hplan, rfl⟩ := (h.mem_records_other hroll hne).mp hy
    exact ⟨q, ⟨hpeer, hengaged, p, hplan, hclash⟩, rfl⟩
  constructor
  · rintro ⟨c, hc, rfl⟩
    rw [List.mem_filter, decide_eq_true_eq, mem_evaluateVariantConflicts] at hc
    obtain ⟨⟨x, y, hxy, hc⟩, hkey⟩ := hc
    have hx : x ∈ entries.filterMap Entry.record := hxy.subset (by simp)
    have hy : y ∈ entries.filterMap Entry.record := hxy.subset (by simp)
    have hdistinct : x.bindingRef ≠ y.bindingRef := by
      have hpair := hnodup.sublist (hxy.map VariantRecord.bindingRef)
      simpa using hpair
    rw [pairConflicts_eq] at hc
    split_ifs at hc with hclash
    · rcases List.mem_pair.mp hc with rfl | rfl
      · obtain rfl := heq hx hkey
        exact hcompetes hy hdistinct.symm hclash
      · obtain rfl := heq hy hkey
        exact hcompetes hx hdistinct (VariantRecord.clash_comm.mp hclash)
    · cases hc
  · rintro ⟨q, hq, rfl⟩
    obtain ⟨p, hplan, hclash⟩ := hq.clash
    have hrec : variantRecord q p ∈ entries.filterMap Entry.record :=
      (h.mem_records_other hroll hq.other).mpr ⟨q, hq.toPeer, hq.engaged, p, hplan, rfl⟩
    have hne : variantRecord m plan ≠ variantRecord q p := fun heq =>
      hq.other (congrArg VariantRecord.bindingRef heq).symm
    refine ⟨(variantRecord m plan).report (variantRecord q p), ?_, rfl⟩
    rw [List.mem_filter, decide_eq_true_eq, mem_evaluateVariantConflicts]
    refine ⟨?_, rfl⟩
    rcases sublist_pair_or hself hrec hne with hsub | hsub
    · exact ⟨_, _, hsub, by rw [pairConflicts_eq, if_pos hclash]; exact List.mem_cons_self⟩
    · refine ⟨_, _, hsub, ?_⟩
      rw [pairConflicts_eq, if_pos (VariantRecord.clash_comm.mp hclash)]
      exact List.mem_cons_of_mem _ List.mem_cons_self

theorem mem_blocked {k : NamespacedName} : k ∈ (entries.filterMap Entry.blocked).map Binding.key ↔
    ∃ q, Blocks r v m q ∧ q.key = k := by
  rw [List.mem_map]
  constructor
  · rintro ⟨x, hx, rfl⟩
    obtain ⟨⟨peer, _ | p | _⟩, he, hblocked⟩ := List.mem_filterMap.mp hx
    · cases hblocked
    · cases hblocked
    · cases hblocked
      obtain ⟨q, hq, hcontinues, ⟨-, hself⟩ | ⟨hkey, hassessed⟩⟩ := h.exists_item he
      · cases hself
      · cases hassessed with
        | blocks hfails hstate hholding =>
          exact ⟨q, ⟨hroll.peer hq hkey, hholding, _, _, hfails, hstate⟩, hcontinues.key.symm⟩
  · rintro ⟨q, hq, rfl⟩
    obtain ⟨⟨peer, verdict⟩, he, hcontinues, hverdict⟩ :=
      h.exists_entry (hroll.mem_of_peer hq.toPeer) hq.other hq.assessed
    cases hverdict
    exact ⟨peer, List.mem_filterMap.mpr ⟨_, he, rfl⟩, hcontinues.key⟩

theorem not_stumps {err : GoError} : ¬Stumps r v m q err := by
  intro hq
  obtain ⟨e, -, -, hverdict⟩ :=
    h.exists_entry (hroll.mem_of_peer hq.toPeer) hq.other hq.assessed
  cases hverdict

end Polled

/-- The keys of the members, where some may be added that block. -/
theorem mem_memberKeys_append {members added : List ConflictMember} {k : NamespacedName} :
    k ∈ memberKeys m (added.foldl (appendConflictMember m) members) ↔
      k ∈ memberKeys m members ∨ k ∈ memberKeys m added := by
  induction added generalizing members with
  | nil => simp [memberKeys]
  | cons x added ih =>
    have hone : k ∈ memberKeys m (appendConflictMember m members x) ↔
        k ∈ memberKeys m members ∨ k = x.key m := by
      rw [memberKeys_appendConflictMember]
      split_ifs with hmem
      · exact ⟨Or.inl, fun h => h.elim id fun heq => heq ▸ hmem⟩
      · rw [List.mem_append, List.mem_singleton]
    rw [List.foldl_cons, ih, hone, or_assoc]
    exact or_congr_right List.mem_cons.symm

section Members

variable {scan : PeerScan} {k : NamespacedName}

theorem conflicts_unblocked : (Reconciler.conflictStateOf m { scan with
    blockedMembers := [] }).conflicts = (Reconciler.conflictStateOf m scan).conflicts := by
  rw [conflicts_conflictStateOf, conflicts_conflictStateOf]

/-- The members of a conflict where nobody blocks: the binding, and the peers that are named. -/
theorem mem_memberKeys_unblocked (hrefs : scan.Refers) :
    k ∈ memberKeys m (Reconciler.conflictStateOf m { scan with blockedMembers := [] }).members ↔
      (Reconciler.conflictStateOf m scan).conflicts ≠ [] ∧ (k = m.key ∨
        ∃ c ∈ (Reconciler.conflictStateOf m scan).conflicts, c.peerBindingRef = k) := by
  rw [← conflicts_unblocked]
  constructor
  · intro hk
    refine ⟨fun hnone => ?_, key_of_memberKeys rfl hk⟩
    rw [conflicts_conflictStateOf] at hnone
    rw [Reconciler.conflictStateOf, BindingConflictState.block, if_pos rfl,
      currentBindingConflictState, if_pos hnone] at hk
    cases hk
  · have hrefs' : PeerScan.Refers { scan with blockedMembers := [] } := hrefs
    rintro ⟨hne, rfl | ⟨c, hc, rfl⟩⟩
    · obtain ⟨c, hc⟩ := List.exists_mem_of_ne_nil _ hne
      exact (memberKeys_of_conflict hrefs' rfl hc).1
    · exact (memberKeys_of_conflict hrefs' rfl hc).2

theorem mem_memberKeys_conflictStateOf (hrefs : scan.Refers) :
    k ∈ memberKeys m (Reconciler.conflictStateOf m scan).members ↔
      ((Reconciler.conflictStateOf m scan).conflicts ≠ [] ∧ (k = m.key ∨
        ∃ c ∈ (Reconciler.conflictStateOf m scan).conflicts, c.peerBindingRef = k)) ∨
      scan.blockedMembers ≠ [] ∧ (k = m.key ∨ k ∈ scan.blockedMembers.map Binding.key) := by
  rw [← mem_memberKeys_unblocked hrefs]
  have hfree : Reconciler.conflictStateOf m { scan with blockedMembers := [] } =
      currentBindingConflictState m scan.records scan.bindingsByRef := rfl
  rw [hfree, Reconciler.conflictStateOf, BindingConflictState.block]
  split_ifs with hnil
  · simp [hnil]
  · have hown : ∀ members, k ∈ memberKeys m (appendConflictMember m members .current) ↔
        k ∈ memberKeys m members ∨ k = m.key := fun members => by
      have happend : k ∈ memberKeys m ([.current].foldl (appendConflictMember m) members) ↔
          k ∈ memberKeys m members ∨ k ∈ [m.key] := mem_memberKeys_append
      rw [List.mem_singleton] at happend
      exact happend
    have hadded : memberKeys m (scan.blockedMembers.map ConflictMember.copy) =
        scan.blockedMembers.map Binding.key := by
      rw [memberKeys, List.map_map]
      rfl
    rw [mem_memberKeys_append, hown, hadded, or_assoc]
    simp [hnil]

end Members

/-- What an evaluation comes to that is not stopped. -/
structure Appraised (r : Reconciler) (m : Binding) (plan : Plan) (v v' : World)
    (state : BindingConflictState) : Prop where
  conflicts : ∀ k, (∃ c ∈ state.conflicts, c.peerBindingRef = k) ↔
    ∃ q, Competes r v m plan q ∧ q.key = k
  blocked : state.blocked = true ↔ ∃ q, Blocks r v m q
  readable : ∀ q err, ¬Stumps r v m q err
  stored : ∀ q, ConflictMember.copy q ∈ state.members → v'.bindings.get q.key = some q
  nodup : (memberKeys m state.members).Nodup
  members : ∀ k, k ∈ memberKeys m state.members ↔
    (state.conflicts ≠ [] ∨ state.blocked = true) ∧ (k = m.key ∨
      ∃ q, (Competes r v m plan q ∨ Blocks r v m q) ∧ q.key = k)

namespace Polled

variable {items : List Binding} {entries : List Entry} {scan : PeerScan}
  (h : Polled r m plan v items v' entries)
  (hscan : scan = entries.foldl PeerScan.enter ⟨[], [], []⟩)

omit h in
include hscan in
theorem refers : scan.Refers := by
  intro rec hrec
  rw [hscan, records_enter, List.nil_append] at hrec
  obtain ⟨⟨peer, _ | p | _⟩, he, hrec⟩ := List.mem_filterMap.mp hrec
  · cases hrec
  · cases hrec
    exact ⟨peer, by rw [hscan, mem_bindingsByRef_enter]; exact Or.inr ⟨p, he⟩, rfl⟩
  · cases hrec

include h hscan

/-- The copies that an evaluation goes on with are stored. -/
theorem stored_member (hq : .copy q ∈ (Reconciler.conflictStateOf m scan).members) :
    v'.bindings.get q.key = some q := by
  have hstored : ∀ e ∈ entries, v'.bindings.get e.peer.key = some e.peer := fun e he =>
    h.touched.stored e.peer (List.mem_map_of_mem he)
  rcases mem_conflictStateOf hq with hcurrent | ⟨x, hx, hmem⟩
  · cases hcurrent
  cases hx
  rcases hmem with hmem | hmem
  · rw [hscan, mem_bindingsByRef_enter] at hmem
    obtain hnil | ⟨p, he⟩ := hmem
    · cases hnil
    · exact hstored _ he
  · rw [hscan, blockedMembers_enter, List.nil_append] at hmem
    obtain ⟨⟨peer, _ | p | _⟩, he, hx⟩ := List.mem_filterMap.mp hmem
    · cases hx
    · cases hx
    · cases hx
      exact hstored _ he

theorem appraised (hroll : Roll m v items) :
    Appraised r m plan v v' (Reconciler.conflictStateOf m scan) := by
  have hconflicts : ∀ k, (∃ c ∈ (Reconciler.conflictStateOf m scan).conflicts,
      c.peerBindingRef = k) ↔ ∃ q, Competes r v m plan q ∧ q.key = k := by
    intro k
    rw [conflicts_conflictStateOf, hscan, records_enter, List.nil_append]
    exact h.conflicts_iff hroll
  have hmembers : ∀ k, k ∈ scan.blockedMembers.map Binding.key ↔
      ∃ q, Blocks r v m q ∧ q.key = k := by
    intro k
    rw [hscan, blockedMembers_enter, List.nil_append]
    exact h.mem_blocked hroll
  have hne : scan.blockedMembers ≠ [] ↔ ∃ q, Blocks r v m q := by
    constructor
    · intro hne
      obtain ⟨x, hx⟩ := List.exists_mem_of_ne_nil _ hne
      obtain ⟨q, hq, -⟩ := (hmembers x.key).mp (List.mem_map_of_mem hx)
      exact ⟨q, hq⟩
    · rintro ⟨q, hq⟩ hnil
      have hmem := (hmembers q.key).mpr ⟨q, hq, rfl⟩
      rw [hnil] at hmem
      cases hmem
  have hblocks : (Reconciler.conflictStateOf m scan).blocked = true ↔ ∃ q, Blocks r v m q := by
    rw [← hne, ← Bool.not_eq_false, blocked_conflictStateOf]
  refine ⟨hconflicts, hblocks, fun q err => h.not_stumps hroll, fun q => h.stored_member hscan,
    nodup_conflictStateOf m scan, fun k => ?_⟩
  rw [mem_memberKeys_conflictStateOf (refers hscan), hconflicts, hmembers, hne, hblocks]
  constructor
  · rintro (⟨hsome, rfl | ⟨q, hq, rfl⟩⟩ | ⟨hsome, rfl | ⟨q, hq, rfl⟩⟩)
    · exact ⟨Or.inl hsome, Or.inl rfl⟩
    · exact ⟨Or.inl hsome, Or.inr ⟨q, Or.inl hq, rfl⟩⟩
    · exact ⟨Or.inr hsome, Or.inl rfl⟩
    · exact ⟨Or.inr hsome, Or.inr ⟨q, Or.inr hq, rfl⟩⟩
  · rintro ⟨hsome, rfl | ⟨q, hq | hq, rfl⟩⟩
    · exact hsome.imp (fun h => ⟨h, Or.inl rfl⟩) fun h => ⟨h, Or.inl rfl⟩
    · obtain ⟨c, hc, -⟩ := (hconflicts q.key).mpr ⟨q, hq, rfl⟩
      exact Or.inl ⟨List.ne_nil_of_mem hc, Or.inr ⟨q, hq, rfl⟩⟩
    · exact Or.inr ⟨⟨q, hq⟩, Or.inr ⟨q, hq, rfl⟩⟩

end Polled

theorem smoothly_evaluate (hv : Orderly r S v) (hm : Mirrors False v m)
    (hpresent : m.deleting = false) :
    Smoothly r S (r.evaluateBindingConflicts m plan) (fun a v' => Unmoved m v v' ∧
      ((∃ state, a = .ok state ∧ Appraised r m plan v v' state) ∨
        ∃ err q, a = .error err ∧ Stumps r v m q err)) v := by
  refine (alone_perform (c := Call.listBindings m.key m.key.namespace_)
    (Q := fun a v' => v' = v ∧ ∃ items, a = .ok items ∧ items.Perm (neighbours m v))
    fun a v₁ hsmooth _ => hsmooth.kept.served.listBindings).bind hv ?_
  rintro a v₁ - ⟨rfl, items, rfl, hperm⟩
  have hroll : Roll m v₁ items := ⟨hperm, hm, hpresent⟩
  have hown : ∀ q ∈ items, q.key = m.key → q.deleting = false := by
    intro q hq hkey
    obtain ⟨status, rfl⟩ := hroll.eq_self hq hkey
    exact hpresent
  refine (smoothly_scan hv hroll.stored hroll.nodup hown).bind hv ?_
  rintro a v₂ - ⟨hunmoved, ⟨entries, rfl, hpolled⟩ | ⟨err, rfl, q, hq, hjudges⟩⟩
  · exact ⟨hunmoved, Or.inl ⟨_, rfl, hpolled.appraised rfl hroll⟩⟩
  · refine ⟨hunmoved, Or.inr ⟨err, q, rfl, ?_⟩⟩
    rcases hjudges with ⟨-, hself⟩ | ⟨hkey, hassessed⟩
    · cases hself
    · cases hassessed with
      | stumps hengaged hfails hplain => exact ⟨hroll.peer hq hkey, hengaged, hfails, hplain⟩

end Kleym
