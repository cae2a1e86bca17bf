import Kleym.Application
import Kleym.Members

/-!
# Evaluating the namespace of a binding

`evaluateBindingConflicts` lists the namespace and looks at every binding in it, its own
included. On the way it resolves the records of bindings that are being deleted or cannot
be rendered. What is known about the reconciled binding survives this, also when the
binding is being deleted by now and the listing has a second copy of it.
-/

namespace Kleym

open GoString Prog Protocol

variable {r : Reconciler} {S : Setting} {s s' : Scene} {m p : Binding}

/-! ## One peer -/

/-- What a verdict on a peer has established. -/
def Judged (r : Reconciler) (m : Binding) (identity : Plan) (p : Binding) : PeerVerdict → Prop
  | .irrelevant => p.record = unrecorded ∧ (p.key = m.key → p.deleting = true)
  | .relevant plan => (p.deleting = false ∨ p.record ≠ unrecorded) ∧
    ((p.key = m.key ∧ plan = identity) ∨ Rendered r p plan)
  | .blocksRecovery => p.record ≠ unrecorded ∧ p.key ≠ m.key

theorem Rendered.continues {p' : Binding} {plan : Plan} (h : Rendered r p plan)
    (hp : Continues p p') : Rendered r p' plan := by
  rw [hp]
  exact h

theorem Listed.record_ne {sharp firm : Prop} {o : ClusterSPIFFEID} {objects : List ClusterSPIFFEID}
    (h : Listed S s p sharp firm (o :: objects)) : p.record ≠ unrecorded := by
  rw [(h.some o List.mem_cons_self).record]
  simp [unrecorded]

theorem safe_renderPeer (hinv : Inv S s.world) (h : Held S s.world p True False)
    (hp : p.deleting = false ∨ p.record ≠ unrecorded) (identity : Plan) :
    (operatorProtocol r S).Safe (r.renderPeer m identity p)
      (Handing S p False fun p' verdict s' =>
        Held S s'.world p' True False ∧ Judged r m identity p' verdict) s := by
  rw [Reconciler.renderPeer]
  split_ifs with hkey
  · exact ⟨.refl p, h, hp, Or.inl ⟨hkey, rfl⟩⟩
  have hpools : Always PoolCall (fun _ => True) (r.renderIdentityForBinding p) :=
    always_renderIdentityForBinding fun gvk key _ => ⟨gvk, key, rfl⟩
  refine (frame_pools (F := fun w => Held S w p True False) stable_held hpools
    (safe_renderIdentityForBinding hinv) hinv h).bind hinv ?_
  rintro (err | plan) s₁ hinv₁ ⟨hplan, h₁⟩
  · dsimp only
    split
    · exact ⟨.refl p, h₁.mono False.elim id⟩
    · refine (safe_listManaged hinv₁ h₁).bind hinv₁ ?_
      rintro ⟨p', err | _ | ⟨o, objects⟩⟩ s₂ - ⟨hp', h₂⟩
      · exact ⟨hp', h₂⟩
      · exact ⟨hp', h₂.held.mono id False.elim, h₂.none rfl, fun hself => absurd hself (hp'.key ▸ hkey)⟩
      · exact ⟨hp', h₂.held.mono id False.elim, h₂.record_ne, hp'.key ▸ hkey⟩
  · exact ⟨.refl p, h₁, hp, Or.inr hplan⟩

theorem safe_identityForConflictEvaluation (hinv : Inv S s.world)
    (h : Held S s.world p True False) (identity : Plan) :
    (operatorProtocol r S).Safe (r.identityForConflictEvaluation m identity p)
      (Handing S p False fun p' verdict s' =>
        Held S s'.world p' True False ∧ Judged r m identity p' verdict) s := by
  rw [Reconciler.identityForConflictEvaluation]
  split_ifs with hdeleting
  · refine (safe_listManaged hinv h).bind hinv ?_
    rintro ⟨p₁, err | _ | ⟨o, objects⟩⟩ s₁ hinv₁ ⟨hp₁, h₁⟩
    · exact ⟨hp₁, h₁⟩
    · exact ⟨hp₁, h₁.held.mono id False.elim, h₁.none rfl, fun _ => hp₁.deleting.trans hdeleting⟩
    · refine (safe_renderPeer hinv₁ (h₁.held.mono id False.elim) (Or.inr h₁.record_ne)
        identity).mono hinv₁ ?_
      rintro ⟨p₂, err | verdict⟩ s₂ - ⟨hp₂, h₂⟩ <;> exact ⟨hp₁.trans hp₂, h₂⟩
  · exact safe_renderPeer hinv h (Or.inl (Bool.eq_false_iff.mpr hdeleting)) identity

/-! ## The reconciled binding meanwhile -/

/-- The binding is being deleted, and the object of a claim it has pending is there. -/
def Doomed (S : Setting) (w : World) (m : Binding) : Prop :=
  S.Tidy → (∀ b ∈ w.bindings.entries, b.uid = m.uid → b.deleting = true) ∧
    (S.Strict → Occupied w m)

theorem Doomed.spares {w w' : World} (h : Doomed S w m) (hspares : Spares S m.uid w w') :
    Doomed S w' m := by
  intro ht
  refine ⟨fun b' hb' huid' => ?_, fun hstrict => ?_⟩
  · obtain ⟨b, hb, huid, -, hdel⟩ := hspares.records ht b' hb' huid'
    exact hdel ((h ht).1 b hb huid)
  · exact ((h ht).2 hstrict).spares hstrict.closed hspares

/-- The calls that resolve the record of a binding. -/
def Resolves (u : GoString) : Call → Prop
  | .getPool _ _ => True
  | .getClusterSPIFFEID _ => True
  | .patchBindingStatus .ownership base status =>
    base.uid = u ∧ status.pendingClusterSPIFFEID = none
  | _ => False

theorem Resolves.callFor {u : GoString} {c : Call} (h : Resolves u c) : CallFor u c := by
  cases c with
  | patchBindingStatus kind base status => cases kind <;> exact h
  | getPool => trivial
  | getClusterSPIFFEID => trivial
  | _ => exact h.elim

/-- A second copy of a doomed binding resolves its record: what is known about the first copy
stays known. -/
theorem Held.resolvedBy (h : Held S s.world m True True) (hdoomed : Doomed S s.world m)
    (hinv : Inv S s.world) {c : Call} {a : Answer c} (hcall : Resolves m.uid c)
    (hguard : Guard r S s.log s.world c) (hapi : Answered S c s a s') :
    Held S s'.world m True True ∧ Doomed S s'.world m := by
  have hcalm := (hapi.calm hinv hguard hcall.callFor).1
  obtain ⟨fresh, -, heffect⟩ := hapi.effect
  generalize s'.world = w' at heffect hcalm ⊢
  cases heffect with
  | none => exact ⟨h, hdoomed⟩
  | @patchBindingStatus kind base stored status _ _ hstored hversion hadmitted =>
    cases kind with
    | ordinary => exact hcall.elim
    | ownership =>
      obtain ⟨hbased, htransfer⟩ := hguard
      obtain ⟨hmem, -⟩ := Store.get_eq_some.mp hstored
      obtain ⟨hcopy, hrecord, -⟩ := hbased.stored_eq hinv.history hstored hversion
      have huid : stored.uid = m.uid := by rw [hcopy]; exact hcall.1
      have hnew : (stored.patchedBy base status).record = status.record :=
        record_mergeStatus status hrecord
      have hpending : (stored.patchedBy base status).status.pendingClusterSPIFFEID = none :=
        (Prod.mk.inj hnew).1.trans hcall.2
      have habreast : S.Tidy → Abreast S (s.world.saveBinding (stored.patchedBy base status)) m := by
        intro ht b hb hbu
        rcases Store.mem_put.mp hb with rfl | ⟨hb, -⟩
        · have hne : m.record ≠ unrecorded := by
            rcases h.abreast ht trivial stored hmem huid with hsame | ⟨-, hne, -⟩
            · rw [← hsame, hrecord]
              exact htransfer.record_ne hcall.2
            · exact hne
          refine Or.inr ⟨(hdoomed ht).1 stored hmem huid, hne, hpending, fun hc => ?_⟩
          by_cases hstrict : S.Strict
          · exact Or.inr ((hdoomed ht).2 hstrict)
          · -- only a confirmation leaves a record behind, and its object is there to stay
            cases htransfer with
            | reserve => cases hcall.2
            | clear => exact Or.inl ⟨hstrict, hnew⟩
            | @confirm pending uid hbase _ _ hlive =>
              refine Or.inr ?_
              rcases h.abreast ht trivial stored hmem huid with hsame | ⟨-, -, hnone, -⟩
              · rw [hrecord, hbase] at hsame
                intro p hp
                have hp' : m.status.pendingClusterSPIFFEID = some pending :=
                  (Prod.mk.inj hsame).1.symm
                rw [hp', Option.mem_some_iff] at hp
                obtain ⟨o, ho, hname, -, hterm⟩ := hlive hc stored hmem (huid.trans hcall.1.symm) hrecord
                exact ⟨o, hcall.1 ▸ ho, hp ▸ hname, hterm⟩
              · have hsome := (Prod.mk.inj (hrecord.trans hbase)).1
                rw [hnone] at hsome
                cases hsome
        · exact h.abreast ht trivial b hb hbu
      refine ⟨⟨h.based.grows hcalm.toGrows, fun ht _ => habreast ht,
        fun ht => (habreast ht).resolved, h.covered, fun ht => (h.sole ht).calm ht hcalm⟩, ?_⟩
      intro ht
      refine ⟨fun b hb hbu => ?_, (hdoomed ht).2⟩
      rcases Store.mem_put.mp hb with rfl | ⟨hb, -⟩
      · exact (hdoomed ht).1 stored hmem huid
      · exact (hdoomed ht).1 b hb hbu
  | terminate => exact hcall.elim
  | remove => exact hcall.elim
  | updateBinding => exact hcall.elim
  | create => exact hcall.elim
  | updateObject => exact hcall.elim
  | issue => exact hcall.elim

/-! ## The survey -/

/-- The calls for one peer: none for the reconciled binding itself while it is not being
deleted. -/
def PeerResolves (m p : Binding) (c : Call) : Prop :=
  Resolves p.uid c ∧ (p.key = m.key → p.deleting = true)

theorem always_peerResolves (identity : Plan) :
    Always (PeerResolves m p) (ReturnsCopy p) (r.identityForConflictEvaluation m identity p) := by
  by_cases hself : p.key = m.key → p.deleting = true
  · have hallows : Allows (PeerResolves m p) p :=
      ⟨fun _ _ _ => ⟨trivial, hself⟩, fun _ => ⟨trivial, hself⟩,
        fun _ _ hm hstatus => ⟨⟨hm.uid, hstatus⟩, hself⟩⟩
    exact always_identityForConflictEvaluation hallows (.refl p) m identity
  · obtain ⟨hkey, hdeleting⟩ := Classical.not_imp.mp hself
    rw [Reconciler.identityForConflictEvaluation, if_neg hdeleting, Reconciler.renderPeer,
      if_pos hkey]
    exact Continues.refl p

/-- What is known about everybody else while one peer is looked at. -/
structure Bystanders (S : Setting) (s₀ : Scene) (m p : Binding) (others rest : List Binding)
    (s : Scene) : Prop where
  calm : Calm S s₀.world s.world
  peer : Based S s.world p
  others : ∀ q ∈ others, Held S s.world q True False
  main : Held S s.world m True True
  doomed : ∀ q ∈ p :: rest, q.uid = m.uid → q.deleting = true → Doomed S s.world m

theorem uid_eq_key {w : World} (hinv : Inv S w) (hp : Based S w p) (hm : Based S w m)
    (huid : p.uid = m.uid) : p.key = m.key := by
  obtain ⟨v, hv, hcopy, -⟩ := hp
  obtain ⟨v', hv', hcopy', -⟩ := hm
  have hkey := hinv.history.binding_key v hv v' hv' (by rw [hcopy, hcopy']; exact huid)
  rwa [hcopy, hcopy'] at hkey

/-- Looking at one peer does nothing to the others. -/
theorem frame_bystanders {α : Type} {prog : Op α} {Q : α → Scene → Prop} {V : α → Prop}
    {others rest : List Binding} (hapart : S.Tidy → ∀ q ∈ others, q.uid ≠ p.uid)
    (hprog : Always (PeerResolves m p) V prog)
    (h : (operatorProtocol r S).Safe prog Q s) (hinv : Inv S s.world)
    (hs : Bystanders S s m p others rest s) :
    (operatorProtocol r S).Safe prog
      (fun a s' => Q a s' ∧ Bystanders S s m p others rest s') s := by
  have hstable : (operatorProtocol r S).Stable (Bystanders S s m p others rest) := by
    intro s₁ s₂ hinv₁ h₁ henv
    have hspares := spares_of_env hinv₁ h₁.main.based henv
    exact ⟨h₁.calm.trans (henv.2 hinv₁).2.1, stable_based hinv₁ h₁.peer henv,
      fun q hq => stable_held hinv₁ (h₁.others q hq) henv, h₁.main.spares hspares,
      fun q hq hqu hqd => (h₁.doomed q hq hqu hqd).spares hspares⟩
  refine (Safe.frame hstable ?_ hprog h hinv hs).mono hinv fun _ _ _ h' => ⟨h'.1, h'.2.2⟩
  intro c s₁ a s₂ hcall hinv₁ hguard h₁ hapi _
  obtain ⟨hcalm, hspares⟩ := Answered.calm hapi hinv₁ hguard hcall.1.callFor
  have hmain : Held S s₂.world m True True ∧
      ∀ q ∈ p :: rest, q.uid = m.uid → q.deleting = true → Doomed S s₂.world m := by
    by_cases huid : p.uid = m.uid
    · -- a second copy of the binding itself
      have hdeleting := hcall.2 (uid_eq_key hinv₁ h₁.peer h₁.main.based huid)
      have hdoomed := h₁.doomed p List.mem_cons_self huid hdeleting
      have hnext := h₁.main.resolvedBy hdoomed hinv₁ (huid ▸ hcall.1) hguard hapi
      exact ⟨hnext.1, fun _ _ _ _ => hnext.2⟩
    · have hm := hspares m.uid (Ne.symm huid)
      exact ⟨h₁.main.spares hm, fun q hq hqu hqd => (h₁.doomed q hq hqu hqd).spares hm⟩
  refine ⟨h₁.calm.trans hcalm, h₁.peer.grows hcalm.toGrows, fun q hq => ?_, hmain.1, hmain.2⟩
  refine (h₁.others q hq).spares ?_
  by_cases ht : S.Tidy
  · exact hspares q.uid (hapart ht q hq)
  · exact Spares.of_grows hcalm.toGrows ht

/-- The scan has a record with what a binding declares. -/
def PeerScan.Records (scan : PeerScan) (b : Binding) : Prop :=
  ∃ rec ∈ scan.records, rec.bindingRef = b.key ∧
    rec.serviceAccountName = b.spec.serviceAccountName ∧ rec.variant = b.spec.variant

/-- The copies a scan has collected. -/
def PeerScan.copies (scan : PeerScan) : List Binding := scan.bindingsByRef ++ scan.blockedMembers

/-- What holds in the middle of the loop over what was listed in `w`, with `rest` to come. -/
structure Survey (S : Setting) (w : World) (m : Binding) (items rest : List Binding)
    (scan : PeerScan) (s : Scene) : Prop where
  calm : Calm S w s.world
  kept : ∀ q ∈ rest ++ scan.copies, Held S s.world q True False
  namespaced : ∀ q ∈ rest ++ scan.copies, q.key.namespace_ = m.key.namespace_
  apart : S.Tidy → ((rest ++ scan.copies).map Binding.uid).Nodup
  main : Held S s.world m True True
  doomed : ∀ q ∈ rest, q.uid = m.uid → q.deleting = true → Doomed S s.world m
  firm : ∀ q ∈ scan.copies, q.deleting = false ∨ q.record ≠ unrecorded
  refs : ∀ rec ∈ scan.records, ∃ q ∈ scan.bindingsByRef, q.key = rec.bindingRef
  own : S.Vetted → (∃ q ∈ rest, q.key = m.key ∧ q.deleting = false ∧ q.spec = m.spec) ∨
    scan.Records m
  peers : S.Vetted → ∀ q ∈ items, q ∈ rest ∨ q.key = m.key ∨ scan.Records q ∨
    scan.blockedMembers ≠ [] ∨ ∀ o, ¬s.world.Output q.uid o

section

variable {w : World} {items rest : List Binding} {scan scan' : PeerScan} {p' : Binding}

/-- One peer further: its copy, if it is kept, joins the others. -/
theorem Survey.advance (h : Survey S w m items (p :: rest) scan s)
    (hb : Bystanders S s m p (rest ++ scan.copies) rest s') (hp' : Continues p p')
    (hheld : Held S s'.world p' True False) {added : List Binding}
    (hadded : added = [] ∨ added = [p'] ∧ (p'.deleting = false ∨ p'.record ≠ unrecorded))
    (hperm : scan'.copies.Perm (added ++ scan.copies))
    (hrefs : ∀ rec ∈ scan'.records, ∃ q ∈ scan'.bindingsByRef, q.key = rec.bindingRef)
    (hown : S.Vetted → (∃ q ∈ rest, q.key = m.key ∧ q.deleting = false ∧ q.spec = m.spec) ∨
      scan'.Records m)
    (hpeers : S.Vetted → ∀ q ∈ items, q ∈ rest ∨ q.key = m.key ∨ scan'.Records q ∨
      scan'.blockedMembers ≠ [] ∨ ∀ o, ¬s'.world.Output q.uid o) :
    Survey S w m items rest scan' s' := by
  have hcopies : ∀ q ∈ scan'.copies, q ∈ scan.copies ∨
      q = p' ∧ (p'.deleting = false ∨ p'.record ≠ unrecorded) := by
    intro q hq
    rcases List.mem_append.mp (hperm.mem_iff.mp hq) with hq | hq
    · rcases hadded with rfl | ⟨rfl, hfirm⟩
      · cases hq
      · exact Or.inr ⟨List.mem_singleton.mp hq, hfirm⟩
    · exact Or.inl hq
  have hall : ∀ q ∈ rest ++ scan'.copies, q ∈ rest ++ scan.copies ∨ q = p' := by
    intro q hq
    rcases List.mem_append.mp hq with hq | hq
    · exact Or.inl (List.mem_append_left _ hq)
    · exact (hcopies q hq).imp (List.mem_append_right _) And.left
  refine ⟨h.calm.trans hb.calm, fun q hq => ?_, fun q hq => ?_, fun ht => ?_, hb.main,
    fun q hq => hb.doomed q (List.mem_cons_of_mem p hq), fun q hq => ?_, hrefs, hown, hpeers⟩
  · rcases hall q hq with hq | rfl
    · exact hb.others q hq
    · exact hheld
  · rcases hall q hq with hq | rfl
    · exact h.namespaced q (List.mem_cons_of_mem p hq)
    · rw [hp'.key]
      exact h.namespaced p List.mem_cons_self
  · have hnodup := h.apart ht
    have hshuffle : (rest ++ scan'.copies).Perm (added ++ (rest ++ scan.copies)) := by
      refine (hperm.append_left rest).trans ?_
      rw [← List.append_assoc, ← List.append_assoc]
      exact List.perm_append_comm.append_right _
    rw [(hshuffle.map Binding.uid).nodup_iff]
    rcases hadded with rfl | ⟨rfl, -⟩
    · exact (List.nodup_cons.mp hnodup).2
    · rw [List.singleton_append, List.map_cons, hp'.uid]
      exact hnodup
  · rcases hcopies q hq with hq | ⟨rfl, hfirm⟩
    · exact h.firm q hq
    · exact hfirm

/-- What was established about the peers before stays so. -/
theorem Survey.peers_before (h : Survey S w m items (p :: rest) scan s)
    (hcalm : Calm S s.world s'.world) (hrecords : scan.records ⊆ scan'.records)
    (hblocked : scan.blockedMembers ⊆ scan'.blockedMembers) (hv : S.Vetted)
    (hnow : p.key = m.key ∨ scan'.Records p ∨ scan'.blockedMembers ≠ [] ∨
      ∀ o, ¬s'.world.Output p.uid o) :
    ∀ q ∈ items, q ∈ rest ∨ q.key = m.key ∨ scan'.Records q ∨
      scan'.blockedMembers ≠ [] ∨ ∀ o, ¬s'.world.Output q.uid o := by
  intro q hq
  rcases h.peers hv q hq with hq | hkey | ⟨rec, hrec, hrest⟩ | hne | hfree
  · rcases List.mem_cons.mp hq with rfl | hq
    · exact Or.inr hnow
    · exact Or.inl hq
  · exact Or.inr (Or.inl hkey)
  · exact Or.inr (Or.inr (Or.inl ⟨rec, hrecords hrec, hrest⟩))
  · obtain ⟨b, hb⟩ := List.exists_mem_of_ne_nil _ hne
    exact Or.inr (Or.inr (Or.inr (Or.inl (List.ne_nil_of_mem (hblocked hb)))))
  · exact Or.inr (Or.inr (Or.inr (Or.inr (not_output_calm hfree hv.quiet.closed hcalm))))

/-- The record of the reconciled binding stays, or is that of the copy just looked at. -/
theorem Survey.own_before (h : Survey S w m items (p :: rest) scan s)
    (hrecords : scan.records ⊆ scan'.records) (hv : S.Vetted)
    (hnow : p.key = m.key → p.deleting = false → p.spec = m.spec → scan'.Records m) :
    (∃ q ∈ rest, q.key = m.key ∧ q.deleting = false ∧ q.spec = m.spec) ∨ scan'.Records m := by
  rcases h.own hv with ⟨q, hq, hkey, hdeleting, hspec⟩ | ⟨rec, hrec, hrest⟩
  · rcases List.mem_cons.mp hq with rfl | hq
    · exact Or.inr (hnow hkey hdeleting hspec)
    · exact Or.inl ⟨q, hq, hkey, hdeleting, hspec⟩
  · exact Or.inr ⟨rec, hrecords hrec, hrest⟩

/-- A copy without a record has no output, where records cover outputs. -/
theorem Held.no_output {w : World} {sharp firm : Prop} (h : Held S w p sharp firm)
    (hc : S.Closed) (hcase : firm ∨ S.Strict ∨ p.deleting = false) (hrecord : p.record = unrecorded)
    (o : ClusterSPIFFEID) : ¬w.Output p.uid o := by
  intro ho
  have hcovers := h.covered hc (hcase.imp_right (Or.imp_right Or.inl)) o ho
  rw [hrecord] at hcovers
  exact not_covers_unrecorded o hcovers

variable {identity : Plan} (hidentity : Rendered r m identity)
  (h : Survey S w m items (p :: rest) scan s)
  (hb : Bystanders S s m p (rest ++ scan.copies) rest s') (hp' : Continues p p')
  (hheld : Held S s'.world p' True False)

include h hb hp' hheld

theorem Survey.irrelevant (hverdict : Judged r m identity p' .irrelevant) :
    Survey S w m items rest scan s' := by
  refine h.advance hb hp' hheld (Or.inl rfl) (List.Perm.refl _) h.refs (fun hv => ?_) fun hv => ?_
  · refine h.own_before (List.Subset.refl _) hv fun hkey hdeleting _ => ?_
    have hdel := hverdict.2 (hp'.key.trans hkey)
    rw [hp'.deleting, hdeleting] at hdel
    cases hdel
  · refine h.peers_before hb.calm (List.Subset.refl _) (List.Subset.refl _) hv ?_
    refine Or.inr (Or.inr (Or.inr ?_))
    rw [← hp'.uid]
    exact hheld.no_output hv.quiet.closed (Or.inr (Or.inl hv.quiet.strict)) hverdict.1

theorem Survey.blocks (hverdict : Judged r m identity p' .blocksRecovery) :
    Survey S w m items rest { scan with blockedMembers := scan.blockedMembers ++ [p'] } s' := by
  have hperm : (PeerScan.copies { scan with blockedMembers := scan.blockedMembers ++ [p'] }).Perm
      ([p'] ++ scan.copies) := by
    rw [PeerScan.copies, PeerScan.copies, ← List.append_assoc]
    exact List.perm_append_comm
  refine h.advance hb hp' hheld (Or.inr ⟨rfl, Or.inr hverdict.1⟩) hperm h.refs (fun hv => ?_)
    fun hv => ?_
  · exact h.own_before (List.Subset.refl _) hv fun hkey _ _ =>
      absurd (hp'.key.trans hkey) hverdict.2
  · refine h.peers_before hb.calm (List.Subset.refl _) (List.subset_append_left _ _) hv ?_
    exact Or.inr (Or.inr (Or.inl (by simp)))

include hidentity

theorem Survey.relevant {plan : Plan} (hverdict : Judged r m identity p' (.relevant plan)) :
    Survey S w m items rest { scan with
      bindingsByRef := p' :: scan.bindingsByRef
      records := scan.records ++ [variantRecord p' plan] } s' := by
  have hmem : variantRecord p' plan ∈ scan.records ++ [variantRecord p' plan] := by simp
  refine h.advance hb hp' hheld (Or.inr ⟨rfl, hverdict.1⟩) (List.Perm.refl _) ?_ (fun hv => ?_)
    fun hv => ?_
  · intro rec hrec
    rcases List.mem_append.mp hrec with hrec | hrec
    · obtain ⟨q, hq, hkey⟩ := h.refs rec hrec
      exact ⟨q, List.mem_cons_of_mem p' hq, hkey⟩
    · rw [List.mem_singleton.mp hrec]
      exact ⟨p', List.mem_cons_self, rfl⟩
  · refine h.own_before (List.subset_append_left _ _) hv fun hkey _ hspec => ?_
    have hspec' : p'.spec = m.spec := hp'.boundary_spec.trans hspec
    refine ⟨_, hmem, hp'.key.trans hkey, congrArg BindingSpec.serviceAccountName hspec', ?_⟩
    rcases hverdict.2 with ⟨-, rfl⟩ | hplan
    · exact hidentity.variant
    · exact hplan.variant.trans (congrArg BindingSpec.variant hspec')
  · refine h.peers_before hb.calm (List.subset_append_left _ _) (List.Subset.refl _) hv ?_
    rcases hverdict.2 with ⟨hkey, -⟩ | hplan
    · exact Or.inl (hp'.key.symm.trans hkey)
    · refine Or.inr (Or.inl ⟨_, hmem, hp'.key, ?_, ?_⟩)
      · exact congrArg BindingSpec.serviceAccountName hp'.boundary_spec
      · exact hplan.variant.trans (congrArg BindingSpec.variant hp'.boundary_spec)

end

/-- **One round of the loop.** -/
theorem safe_scanPeer {identity : Plan} (hidentity : Rendered r m identity)
    {w : World} {items rest : List Binding} {scan : PeerScan} (hinv : Inv S s.world)
    (h : Survey S w m items (p :: rest) scan s) :
    (operatorProtocol r S).Safe (r.scanPeer m identity scan p)
      (Outcome (Survey S w m items rest) fun _ s' => Based S s'.world m) s := by
  have hpeer := h.kept p List.mem_cons_self
  have hapart : S.Tidy → ∀ q ∈ rest ++ scan.copies, q.uid ≠ p.uid := by
    intro ht q hq huid
    exact (List.nodup_cons.mp (h.apart ht)).1 (List.mem_map.mpr ⟨q, hq, huid⟩)
  have hstart : Bystanders S s m p (rest ++ scan.copies) rest s :=
    ⟨(Spares.refl S [] s.world).toCalm, hpeer.based,
      fun q hq => h.kept q (List.mem_cons_of_mem p hq), h.main, h.doomed⟩
  refine (frame_bystanders hapart (always_peerResolves identity)
    (safe_identityForConflictEvaluation hinv hpeer identity) hinv hstart).bind hinv ?_
  rintro ⟨p', err | verdict⟩ s₁ - ⟨⟨hp', h₁⟩, hb⟩
  · exact hb.main.based
  · obtain ⟨hheld, hverdict⟩ := h₁
    cases verdict with
    | irrelevant => exact h.irrelevant hb hp' hheld hverdict
    | relevant plan => exact h.relevant hidentity hb hp' hheld hverdict
    | blocksRecovery => exact h.blocks hb hp' hheld hverdict

/-! ## The listing -/

/-- In a quiet setting the binding that is stored is the one that was read. -/
def Steady (S : Setting) (w : World) (m : Binding) : Prop :=
  S.Quiet → ∃ b ∈ w.bindings.entries, b.uid = m.uid ∧ b.deleting = false ∧ b.spec = m.spec

theorem stable_steady : (operatorProtocol r S).Stable fun s => Steady S s.world m := by
  intro s s' hinv h henv hquiet
  rw [(henv.2 hinv).2.2.2 hquiet.closed.tidy hquiet.2]
  exact h hquiet

/-- UIDs are unique among what is stored. -/
theorem History.nodup_uids {w : World} (h : History w) :
    (w.bindings.entries.map Binding.uid).Nodup :=
  (List.Nodup.of_map _ w.bindings.nodup).map_on fun _ hb _ hb' => h.binding_eq hb hb'

/-- A binding that is being deleted when its own reconcile lists it. -/
theorem doomed_of_listed {w : World} (hinv : Inv S w) (hmain : Held S w m True True)
    (hsteady : Steady S w m) (hlisting : S.listing m.key w = true)
    (hstored : S.Tidy → p ∈ w.bindings.entries) (hkey : p.key = m.key) (huid : p.uid = m.uid)
    (hdeleting : p.deleting = true) : Doomed S w m := by
  intro ht
  refine ⟨fun b hb hbu => ?_, fun hstrict q hq => ?_⟩
  · rw [hinv.history.binding_eq hb (hstored ht) (hbu.trans huid.symm)]
    exact hdeleting
  have hc := hstrict.closed
  rcases hmain.abreast ht trivial p (hstored ht) huid with hsame | ⟨-, -, -, hcase⟩
  · rcases hstrict.2 with hoverlap | hsettled
    · -- nobody deletes bindings while a reconcile is under way
      obtain ⟨b, hb, hbu, hpresent, -⟩ := hsteady ⟨hc, hoverlap⟩
      rw [hinv.history.binding_eq hb (hstored ht) (hbu.trans huid.symm), hdeleting] at hpresent
      cases hpresent
    · have hself := of_decide_eq_true (hsettled m.key w hlisting)
      have hget : w.bindings.get m.key = some p := Store.get_eq_some.mpr ⟨hstored ht, hkey⟩
      have hq' : q ∈ p.status.pendingClusterSPIFFEID := by
        rw [(record_eq_iff.mp hsame).1]
        exact hq
      obtain ⟨o, ho, hclaim⟩ := hself p hget hdeleting q hq'
      obtain ⟨hmem, hname⟩ := Store.get_eq_some.mp ho
      have hissued := (hinv.authentic hc.honest).pending p
        (hinv.history.binding_mem p (hstored ht)) q hq'
      have hcreated := (hinv.authentic hc.honest).claimed o (hinv.history.object_mem o hmem) p.uid
        (hclaim ▸ hissued)
      refine ⟨o, ⟨hmem, huid ▸ hcreated⟩, hname, ?_⟩
      refine (hinv.accounted hc).alive p (hstored ht) ?_ o ⟨hmem, hcreated⟩
      exact Option.ne_none_iff_exists'.mpr ⟨q, hq'⟩
  · rcases hcase hc with ⟨hnot, -⟩ | hoccupied
    · exact absurd hstrict hnot
    · exact hoccupied q hq

/-- The loop starts with everything that was listed. -/
theorem Survey.start {w : World} {items : List Binding} (hs : s.world = w) (hinv : Inv S w)
    (hmain : Held S w m True True) (hsteady : Steady S w m) (hlisting : S.listing m.key w = true)
    (hitems : ∀ p ∈ items, p.key.namespace_ = m.key.namespace_ ∧ p ∈ w.bindingVersions)
    (hperm : S.Tidy → items.Perm (w.bindings.entries.filter fun b =>
      b.key.namespace_ = m.key.namespace_)) :
    Survey S w m items items ⟨[], [], []⟩ s := by
  subst hs
  have hstored : S.Tidy → ∀ p ∈ items, p ∈ s.world.bindings.entries := fun ht p hp =>
    (List.mem_filter.mp ((hperm ht).mem_iff.mp hp)).1
  have hcopies : items ++ PeerScan.copies ⟨[], [], []⟩ = items := List.append_nil items
  refine ⟨(Spares.refl S [] s.world).toCalm, ?_, ?_, fun ht => ?_, hmain, fun q hq huid hdel => ?_,
    by simp [PeerScan.copies], by simp, fun hv => ?_, fun _ q hq => Or.inl hq⟩
  · rw [hcopies]
    exact fun q hq => Held.of_read hinv (hitems q hq).2 fun ht => hstored ht q hq
  · rw [hcopies]
    exact fun q hq => (hitems q hq).1
  · rw [hcopies, ((hperm ht).map Binding.uid).nodup_iff]
    exact hinv.history.nodup_uids.sublist (List.Sublist.map _ List.filter_sublist)
  · have hbased : Based S s.world q :=
      (Held.of_read hinv (hitems q hq).2 fun ht => hstored ht q hq).based
    exact doomed_of_listed hinv hmain hsteady hlisting (fun ht => hstored ht q hq)
      (uid_eq_key hinv hbased hmain.based huid) huid hdel
  · obtain ⟨b, hb, huid, hpresent, hspec⟩ := hsteady hv.quiet
    have hkey : b.key = m.key := uid_eq_key hinv
      (Held.of_read hinv (hinv.history.binding_mem b hb) fun _ => hb).based hmain.based huid
    refine Or.inl ⟨b, (hperm hv.quiet.closed.tidy).mem_iff.mpr ?_, hkey, hpresent, hspec⟩
    exact List.mem_filter.mpr ⟨hb, by simp [hkey]⟩

/-! ## The evaluation -/

/-- The binding a member stands for. -/
def ConflictMember.binding (m : Binding) : ConflictMember → Binding
  | .current => m
  | .copy peer => peer

/-- What an evaluation has established. -/
structure Evaluated (S : Setting) (m : Binding) (state : BindingConflictState) (s : Scene) :
    Prop where
  main : Held S s.world m True True
  members : ∀ x ∈ state.members, Held S s.world (x.binding m) True True
  keys : (memberKeys m state.members).Nodup
  named : state.blocked = false → ∀ c ∈ state.conflicts, m.key ∈ memberKeys m state.members ∧
    c.peerBindingRef ∈ memberKeys m state.members ∧
    c.peerBindingRef.namespace_ = m.key.namespace_
  clear : state.conflicts = [] → state.blocked = false → S.Vetted →
    ∀ u o, s.world.Output u o → o.Renders m.boundary → u = m.uid

theorem Held.firm {w : World} (h : Held S w p True False)
    (hp : p.deleting = false ∨ p.record ≠ unrecorded) : Held S w p True True :=
  { h with covered := fun hc _ => h.covered hc (Or.inr (Or.inr hp)) }

/-- Without conflict, nobody else's output renders the boundary of the binding. -/
theorem Survey.clear {w : World} {items : List Binding} {scan : PeerScan}
    (h : Survey S w m items [] scan s) (hinv : Inv S w) (hsteady : Steady S w m)
    (hbased : Based S w m) (hlisting : S.listing m.key w = true)
    (hperm : S.Tidy → items.Perm (w.bindings.entries.filter fun b =>
      b.key.namespace_ = m.key.namespace_))
    (hnone : (Reconciler.conflictStateOf m scan).conflicts = []) (hblocked : scan.blockedMembers = [])
    (hv : S.Vetted) {u : GoString} {o : ClusterSPIFFEID} (ho : s.world.Output u o)
    (hrenders : o.Renders m.boundary) : u = m.uid := by
  have hc := hv.quiet.closed
  -- the output was there when the namespace was listed, and so was its binding
  obtain ⟨o₀, ho₀, -, -, -, hsel⟩ := h.calm.outputs hc u o ho
  obtain ⟨b, hb, rfl⟩ := (hinv.accounted hc).stored hv.quiet.strict u o₀ ho₀
  obtain ⟨t, ht, hns⟩ := (hinv.exclusive hv).rendered b.uid o₀ ho₀
  have hrenders₀ : o₀.Renders m.boundary := hrenders.congr hsel
  have hboundary : m.boundary = t := hrenders₀.1.eq_of_admits ht.2
  have hbns : b.key.namespace_ = m.key.namespace_ := by
    rw [hns b (hinv.history.binding_mem b hb) rfl, ← hboundary]
    rfl
  have hitem : b ∈ items :=
    (hperm hc.tidy).mem_iff.mpr (List.mem_filter.mpr ⟨hb, by simp [hbns]⟩)
  obtain ⟨b₀, hb₀, huid₀, -, hspec₀⟩ := hsteady hv.quiet
  have hkey₀ : b₀.key = m.key := by
    have hb₀' : Based S w b₀ :=
      (Held.of_read hinv (hinv.history.binding_mem b₀ hb₀) fun _ => hb₀).based
    exact uid_eq_key hinv hb₀' hbased huid₀
  have hboundary₀ : b₀.boundary = m.boundary := by rw [Binding.boundary, hkey₀, hspec₀]; rfl
  rcases h.peers hv b hitem with hb' | hkey | hrecords | hne | hfree
  · cases hb'
  · rw [w.bindings.eq_of_key_eq hb hb₀ (hkey.trans hkey₀.symm)]
    exact huid₀
  · -- a peer with a record: its output is not a stale one, so it declares the same boundary
    by_cases hkey : b.key = m.key
    · rw [w.bindings.eq_of_key_eq hb hb₀ (hkey.trans hkey₀.symm)]
      exact huid₀
    exfalso
    have hfresh := of_decide_eq_true (hv.2 m.key w hlisting) b₀
      (Store.get_eq_some.mpr ⟨hb₀, hkey₀⟩) b hb o₀ ho₀.1
    have hsame : b.boundary = m.boundary := by
      by_contra hdiffers
      rw [World.StaleOutput, hboundary₀, hkey₀] at hfresh
      exact hfresh ⟨hbns, hkey, hdiffers, ⟨_, ho₀.2, rfl, rfl⟩, hrenders₀.1⟩
    obtain ⟨rec', hrec', hkey', hsa', hvariant'⟩ := hrecords
    rcases h.own hv with ⟨q, hq, -⟩ | ⟨rec, hrec, hreckey, hsa, hvariant⟩
    · cases hq
    · refine conflict_of_records hrec hrec' hreckey (hkey'.trans_ne hkey) ?_ ?_ ?_ hnone
      · rw [hkey', hbns]
      · rw [hsa', hsa]
        exact congrArg Boundary.serviceAccountName hsame
      · rw [hvariant', hvariant]
        exact congrArg Boundary.variant hsame
  · exact absurd hblocked hne
  · exact absurd ho (hfree o)

theorem Survey.evaluated {w : World} {items : List Binding} {scan : PeerScan}
    (h : Survey S w m items [] scan s) (hinv : Inv S w) (hsteady : Steady S w m)
    (hbased : Based S w m) (hlisting : S.listing m.key w = true)
    (hperm : S.Tidy → items.Perm (w.bindings.entries.filter fun b =>
      b.key.namespace_ = m.key.namespace_)) :
    Evaluated S m (Reconciler.conflictStateOf m scan) s where
  main := h.main
  members := by
    intro x hx
    rcases mem_conflictStateOf hx with rfl | ⟨q, rfl, hq⟩
    · exact h.main
    · have hcopy : q ∈ scan.copies := List.mem_append.mpr hq
      exact (h.kept q hcopy).firm (h.firm q hcopy)
  keys := nodup_conflictStateOf m scan
  named := by
    intro hblocked c hc
    have hmembers := memberKeys_of_conflict h.refs ((blocked_conflictStateOf m scan).mp hblocked) hc
    obtain ⟨-, rec, hrec, hpeer⟩ := records_of_conflict hc
    obtain ⟨q, hq, hkey⟩ := h.refs rec hrec
    have hcopy : q ∈ scan.copies := List.mem_append_left _ hq
    refine ⟨hmembers.1, hmembers.2, ?_⟩
    rw [← hpeer, ← hkey]
    exact h.namespaced q hcopy
  clear := fun hnone hblocked hv _ _ ho hrenders => h.clear hinv hsteady hbased hlisting hperm hnone
    ((blocked_conflictStateOf m scan).mp hblocked) hv ho hrenders

/-- **The evaluation** of the namespace keeps what is known about the binding, and collects
the members of a conflict. -/
theorem safe_evaluateBindingConflicts {identity : Plan} (hidentity : Rendered r m identity)
    (hinv : Inv S s.world) (h : Held S s.world m True True) (hsteady : Steady S s.world m) :
    (operatorProtocol r S).Safe (r.evaluateBindingConflicts m identity)
      (Outcome (Evaluated S m) fun _ s' => Based S s'.world m) s := by
  have hstable : (operatorProtocol r S).Stable
      fun s => Held S s.world m True True ∧ Steady S s.world m :=
    stable_held.and stable_steady
  refine (Safe.perform (c := Call.listBindings m.key m.key.namespace_)
    (Q := fun a s' => Inv S s'.world ∧ Held S s'.world m True True ∧ Steady S s'.world m ∧
      S.listing m.key s'.world = true ∧ ∀ items, a = .ok items →
      (∀ p ∈ items, p.key.namespace_ = m.key.namespace_ ∧ p ∈ s'.world.bindingVersions) ∧
      (S.Tidy → items.Perm (s'.world.bindings.entries.filter fun b =>
        b.key.namespace_ = m.key.namespace_)))
    hstable hinv ⟨h, hsteady⟩ ?_).bind hinv ?_
  · intro s₁ hinv₁ ⟨h₁, hsteady₁⟩
    refine ⟨trivial, fun a s₂ hapi hinv₂ => ?_⟩
    obtain ⟨hworld, hlisting, hitems⟩ := hapi.listBindings hinv₁
    rw [hworld]
    exact ⟨hinv₁, h₁, hsteady₁, hlisting, hitems⟩
  · rintro (err | items) s₁ hinv₁ ⟨-, h₁, hsteady₁, hlisting, hitems⟩
    · exact h₁.based
    obtain ⟨hitems, hperm⟩ := hitems items rfl
    refine (Safe.foldM (I := fun rest scan s' => Survey S s₁.world m items rest scan s')
      (E := fun _ s' => Based S s'.world m) hinv₁
      (Survey.start rfl hinv₁ h₁ hsteady₁ hlisting hitems hperm) ?_).bind hinv₁ ?_
    · exact fun p rest scan s' hinv' h' => safe_scanPeer hidentity hinv' h'
    · rintro (err | scan) s₂ - h₂
      · exact h₂
      · exact Survey.evaluated h₂ hinv₁ hsteady₁ h₁.based hlisting hperm

theorem always_mild_evaluate (identity : Plan) :
    Always Call.Mild (fun _ => True) (r.evaluateBindingConflicts m identity) := by
  refine (Always.perform (c := Call.listBindings m.key m.key.namespace_) trivial).bind ?_
  rintro (err | items) -
  · trivial
  · refine (Always.foldM fun p _ scan => ?_).bind ?_
    · refine (always_identityForConflictEvaluation (allows_mild p) (.refl p) m identity).bind ?_
      rintro ⟨p', err | _ | _ | _⟩ - <;> trivial
    · rintro (err | scan) - <;> trivial

end Kleym
