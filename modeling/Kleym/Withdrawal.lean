import Kleym.Evaluation

/-!
# Withdrawing the outputs of a conflict

`withdrawConflictOutputs` cleans up every member of a conflict and then looks at each
once more. A member that has no record at the second look owns nothing, and nothing comes
back while the others are looked at. A status with Conflict is published only after all
of this.
-/

namespace Kleym

open GoString Prog Protocol

variable {r : Reconciler} {S : Setting} {s s' : Scene} {m m' p : Binding} {P : Platform}

/-! ## Calls for some bindings -/

/-- The calls the operator makes for bindings with these UIDs. -/
def CallForAny (uids : List GoString) (c : Call) : Prop := ∃ u ∈ uids, CallFor u c

/-- Calls for some bindings are calm, and leave what is known about the others. -/
theorem frame_members {α : Type} {prog : Op α} {V : α → Prop} {Q : α → Scene → Prop}
    (uids : List GoString) (copies : List Binding) (hapart : ∀ q ∈ copies, q.uid ∉ uids)
    (hprog : Always (CallForAny uids) V prog) (h : (operatorProtocol r S).Safe prog Q s)
    (hinv : Inv S s.world) (hcopies : ∀ q ∈ copies, Held S s.world q True True) :
    (operatorProtocol r S).Safe prog (fun a s' => Q a s' ∧ V a ∧ Calm S s.world s'.world ∧
      ∀ q ∈ copies, Held S s'.world q True True) s := by
  have hstable : (operatorProtocol r S).Stable fun s' => Calm S s.world s'.world ∧
      ∀ q ∈ copies, Held S s'.world q True True := by
    intro s₁ s₂ hinv₁ h₁ henv
    exact ⟨h₁.1.trans (henv.2 hinv₁).2.1, fun q hq => stable_held hinv₁ (h₁.2 q hq) henv⟩
  refine Safe.frame hstable ?_ hprog h hinv ⟨(Spares.refl S [] s.world).toCalm, hcopies⟩
  rintro c s₁ a s₂ ⟨u, hu, hcall⟩ hinv₁ hguard h₁ hapi -
  obtain ⟨hcalm, hspares⟩ := Answered.calm hapi hinv₁ hguard hcall
  refine ⟨h₁.1.trans hcalm, fun q hq => (h₁.2 q hq).spares (hspares q.uid ?_)⟩
  rintro rfl
  exact hapart q hq hu

theorem allows_callForAny {uids : List GoString} {b : Binding} (h : b.uid ∈ uids) :
    Allows (CallForAny uids) b :=
  ⟨fun _ _ _ => ⟨_, h, trivial⟩, fun _ => ⟨_, h, trivial⟩,
    fun _ _ hm hstatus => ⟨_, h, hm.uid, hstatus⟩⟩

/-! ## Members -/

/-- The UIDs of the bindings the members stand for. -/
def memberUIDs (m : Binding) (members : List ConflictMember) : List GoString :=
  members.map fun x => (x.binding m).uid

theorem binding_key (m : Binding) (x : ConflictMember) : (x.binding m).key = x.key m := by
  cases x <;> rfl

/-- The members of a conflict, each with its own key. -/
structure Gathered (S : Setting) (w : World) (m : Binding) (members : List ConflictMember) :
    Prop where
  held : ∀ x ∈ members, Held S w (x.binding m) True True
  keys : (memberKeys m members).Nodup

section

variable {w : World} {members : List ConflictMember} {x : ConflictMember}

theorem Gathered.tail (h : Gathered S w m (x :: members)) : Gathered S w m members :=
  ⟨fun y hy => h.held y (List.mem_cons_of_mem x hy), (List.nodup_cons.mp h.keys).2⟩

theorem Gathered.key_ne (h : Gathered S w m (x :: members)) {y : ConflictMember}
    (hy : y ∈ members) : y.key m ≠ x.key m := by
  intro hkey
  exact (List.nodup_cons.mp h.keys).1 (List.mem_map.mpr ⟨y, hy, hkey⟩)

/-- Different members stand for different bindings. -/
theorem Gathered.uid_ne (h : Gathered S w m (x :: members)) (hinv : Inv S w) {y : ConflictMember}
    (hy : y ∈ members) : (y.binding m).uid ≠ (x.binding m).uid := by
  intro huid
  have hkey := uid_eq_key hinv (h.held y (List.mem_cons_of_mem x hy)).based
    (h.held x List.mem_cons_self).based huid
  rw [binding_key, binding_key] at hkey
  exact h.key_ne hy hkey

theorem Gathered.uid_notMem (h : Gathered S w m (x :: members)) (hinv : Inv S w) :
    (x.binding m).uid ∉ memberUIDs m members := by
  intro hmem
  obtain ⟨y, hy, huid⟩ := List.mem_map.mp hmem
  exact h.uid_ne hinv hy huid

/-- Members other than the reconciled binding do not depend on its copy. -/
theorem Gathered.binding_eq (h : Gathered S w m (.current :: members)) (m' : Binding) :
    ∀ y ∈ members, y.binding m' = y.binding m := by
  intro y hy
  cases y with
  | current => exact absurd rfl (h.key_ne hy)
  | copy q => rfl

theorem key_continues (hm : Continues m m') (x : ConflictMember) : x.key m' = x.key m := by
  cases x with
  | current => exact hm.key
  | copy q => rfl

theorem memberKeys_continues (hm : Continues m m') (members : List ConflictMember) :
    memberKeys m' members = memberKeys m members :=
  List.map_congr_left fun x _ => key_continues hm x

/-- A binding without a record at the second look owns nothing. -/
theorem Held.withdrawn (h : Held S w p True True) (hc : S.Closed)
    (hrecord : p.record = unrecorded) : w.Withdrawn p.key := by
  intro b hb hkey
  by_cases huid : b.uid = p.uid
  · refine ⟨?_, ?_⟩
    · rcases h.abreast hc.tidy trivial b hb huid with hsame | ⟨-, hne, -⟩
      · exact hsame.trans hrecord
      · exact absurd hrecord hne
    · rw [huid]
      exact h.no_output hc (Or.inl trivial) hrecord
  · obtain ⟨hnone, hfree⟩ := h.sole hc.tidy b hb hkey huid
    exact ⟨hnone, hfree hc⟩

end

/-! ## Bounds -/

section

variable {A : Call → Prop} {b : Binding}

/-- The copy that comes back is a later one, and the same one where the binding is no member. -/
def ReturnsMain (b m : Binding) (members : List ConflictMember) {α : Type} (x : Binding × α) :
    Prop :=
  Continues b x.1 ∧ (.current ∉ members → x.1 = m)

theorem always_confirmMembersAbsent (members : List ConflictMember) (hm : Continues b m)
    (hA : ∀ x ∈ members, Allows A (x.binding b)) :
    Always A (ReturnsMain b m members) (confirmMembersAbsent P members m) := by
  induction members generalizing m with
  | nil => exact ⟨hm, fun _ => rfl⟩
  | cons x rest ih =>
    have hrest : ∀ y ∈ rest, Allows A (y.binding b) := fun y hy => hA y (List.mem_cons_of_mem x hy)
    cases x with
    | current =>
      have hself : .current ∉ (.current :: rest : List ConflictMember) → ∀ q : Binding, q = m :=
        fun h => absurd List.mem_cons_self h
      refine (always_listManaged (hA _ List.mem_cons_self) hm).bind ?_
      rintro ⟨m₁, err | _ | ⟨o, objects⟩⟩ hm₁
      · exact ⟨hm₁, fun h => hself h _⟩
      · refine (ih hm₁ hrest).weaken ?_
        exact fun a ha => ⟨ha.1, fun h => hself h _⟩
      · exact ⟨hm₁, fun h => hself h _⟩
    | copy peer =>
      refine (always_listManaged (hA _ List.mem_cons_self) (.refl peer)).bind ?_
      rintro ⟨p₁, err | _ | ⟨o, objects⟩⟩ -
      · exact ⟨hm, fun _ => rfl⟩
      · refine (ih hm hrest).weaken ?_
        exact fun a ha => ⟨ha.1, fun h => ha.2 fun hmem => h (List.mem_cons_of_mem _ hmem)⟩
      · exact ⟨hm, fun _ => rfl⟩

theorem always_cleanupMembers (members : List ConflictMember) (hm : Continues b m)
    (hA : ∀ x ∈ members, Allows A (x.binding b))
    (hdelete : ∀ x ∈ members, ∀ name uid, A (.deleteClusterSPIFFEID (x.binding b).uid name uid)) :
    Always A (ReturnsMain b m members) (cleanupMembers P members m) := by
  induction members generalizing m with
  | nil => exact ⟨hm, fun _ => rfl⟩
  | cons x rest ih =>
    have hrest : ∀ y ∈ rest, Allows A (y.binding b) := fun y hy => hA y (List.mem_cons_of_mem x hy)
    have hdrest : ∀ y ∈ rest, ∀ name uid, A (.deleteClusterSPIFFEID (y.binding b).uid name uid) :=
      fun y hy => hdelete y (List.mem_cons_of_mem x hy)
    cases x with
    | current =>
      have hself : .current ∉ (.current :: rest : List ConflictMember) → ∀ q : Binding, q = m :=
        fun h => absurd List.mem_cons_self h
      refine (always_cleanupManaged (hA _ List.mem_cons_self) (hdelete _ List.mem_cons_self)
        hm).bind ?_
      rintro ⟨m₁, err | ⟨⟩⟩ hm₁
      · exact ⟨hm₁, fun h => hself h _⟩
      · refine (ih hm₁ hrest hdrest).bind ?_
        rintro ⟨m₂, err | members⟩ hm₂ <;> exact ⟨hm₂.1, fun h => hself h _⟩
    | copy peer =>
      refine (always_cleanupManaged (hA _ List.mem_cons_self) (hdelete _ List.mem_cons_self)
        (.refl peer)).bind ?_
      rintro ⟨p₁, err | ⟨⟩⟩ -
      · exact ⟨hm, fun _ => rfl⟩
      · refine (ih hm hrest hdrest).bind ?_
        rintro ⟨m₂, err | members⟩ hm₂ <;>
          exact ⟨hm₂.1, fun h => hm₂.2 fun hmem => h (List.mem_cons_of_mem _ hmem)⟩

end

theorem allows_members {members : List ConflictMember} {uids : List GoString}
    (h : memberUIDs m members ⊆ uids) :
    ∀ x ∈ members, Allows (CallForAny uids) (x.binding m) :=
  fun _ hx => allows_callForAny (h (List.mem_map.mpr ⟨_, hx, rfl⟩))

theorem deletes_members {members : List ConflictMember} {uids : List GoString}
    (h : memberUIDs m members ⊆ uids) :
    ∀ x ∈ members, ∀ name uid,
      CallForAny uids (.deleteClusterSPIFFEID (x.binding m).uid name uid) :=
  fun _ hx _ _ => ⟨_, h (List.mem_map.mpr ⟨_, hx, rfl⟩), rfl⟩

/-! ## The first loop -/

/-- What the first loop leaves: later copies of the same members. -/
def Cleaned (S : Setting) (m : Binding) (members : List ConflictMember)
    (x : Binding × Except GoError (List ConflictMember)) (s : Scene) : Prop :=
  Continues m x.1 ∧ Based S s.world x.1 ∧ ∀ members', x.2 = .ok members' →
    Gathered S s.world x.1 members' ∧ memberKeys x.1 members' = memberKeys m members

section

variable {w : World} {rest members' : List ConflictMember}

/-- A member that has been cleaned up joins the rest again. -/
theorem Gathered.cons (h : Gathered S w m members') {x : ConflictMember}
    (hx : Held S w (x.binding m) True True) (hkey : x.key m ∉ memberKeys m members') :
    Gathered S w m (x :: members') := by
  refine ⟨fun y hy => ?_, List.nodup_cons.mpr ⟨hkey, h.keys⟩⟩
  rcases List.mem_cons.mp hy with rfl | hy
  · exact hx
  · exact h.held y hy

/-- The rest of the members as a list of copies. -/
theorem Gathered.held_copies {x : ConflictMember} (h : Gathered S w m (x :: rest)) :
    ∀ q ∈ rest.map fun y => y.binding m, Held S w q True True := by
  intro q hq
  obtain ⟨y, hy, rfl⟩ := List.mem_map.mp hq
  exact h.held y (List.mem_cons_of_mem x hy)

theorem Gathered.apart_copies {x : ConflictMember} (h : Gathered S w m (x :: rest))
    (hinv : Inv S w) : ∀ q ∈ rest.map fun y => y.binding m, q.uid ∉ [(x.binding m).uid] := by
  intro q hq
  obtain ⟨y, hy, rfl⟩ := List.mem_map.mp hq
  exact fun hmem => h.uid_ne hinv hy (List.mem_singleton.mp hmem)

end

theorem safe_cleanupMembers {members : List ConflictMember} (hinv : Inv S s.world)
    (hbased : Based S s.world m) (h : Gathered S s.world m members) :
    (operatorProtocol r S).Safe (cleanupMembers P members m) (Cleaned S m members) s := by
  induction members generalizing m s with
  | nil =>
    refine ⟨.refl m, hbased, ?_⟩
    rintro members' ⟨⟩
    exact ⟨h, rfl⟩
  | cons x rest ih =>
    have hx := h.held x List.mem_cons_self
    have hnotin := (List.nodup_cons.mp h.keys).1
    cases x with
    | current =>
      have hcall : Always (CallForAny [m.uid]) (ReturnsCopy m)
          (cleanupManagedClusterSPIFFEIDs P m) :=
        always_cleanupManaged (allows_callForAny List.mem_cons_self)
          (fun _ _ => ⟨m.uid, List.mem_cons_self, rfl⟩) (.refl m)
      refine (frame_members _ _ (h.apart_copies hinv) hcall (safe_cleanupManaged hinv hx) hinv
        h.held_copies).bind hinv ?_
      rintro ⟨m₁, err | ⟨⟩⟩ s₁ hinv₁ ⟨⟨hm₁, h₁⟩, -, -, hcopies⟩
      · exact ⟨hm₁, h₁.based, by simp⟩
      have hheld₁ : Held S s₁.world m₁ True True := h₁.mono id fun _ => Or.inl trivial
      have hrest : Gathered S s₁.world m₁ rest := by
        refine ⟨fun y hy => ?_, memberKeys_continues hm₁ rest ▸ h.tail.keys⟩
        rw [h.binding_eq m₁ y hy]
        exact hcopies _ (List.mem_map.mpr ⟨y, hy, rfl⟩)
      have hkey₁ : ConflictMember.current.key m₁ ∉ memberKeys m₁ rest := by
        rw [key_continues hm₁, memberKeys_continues hm₁]
        exact hnotin
      have hall := hrest.cons (x := .current) hheld₁ hkey₁
      refine (frame_members (memberUIDs m₁ rest) [m₁] ?_
        (always_cleanupMembers rest (.refl m₁) (allows_members (List.Subset.refl _))
          (deletes_members (List.Subset.refl _))) (ih hinv₁ hheld₁.based hrest) hinv₁ ?_).bind
        hinv₁ ?_
      · exact fun q hq => List.mem_singleton.mp hq ▸ hall.uid_notMem hinv₁
      · exact fun q hq => List.mem_singleton.mp hq ▸ hheld₁
      rintro ⟨m₂, err | members'⟩ s₂ - ⟨⟨hm₂, hbased₂, hok⟩, hmain, -, hheld₂⟩
      · exact ⟨hm₁.trans hm₂, hbased₂, by simp⟩
      -- the other members do not touch the copy of the binding itself
      have hsame : m₂ = m₁ := hmain.2 fun hmem => h.key_ne hmem rfl
      subst hsame
      obtain ⟨hgathered, hkeys⟩ := hok members' rfl
      refine ⟨hm₁, hbased₂, ?_⟩
      rintro members'' ⟨⟩
      refine ⟨hgathered.cons (hheld₂ m₂ List.mem_cons_self) (hkeys ▸ hkey₁), ?_⟩
      rw [memberKeys, List.map_cons, key_continues hm₁]
      exact congrArg _ (hkeys.trans (memberKeys_continues hm₁ rest))
    | copy peer =>
      have hcall : Always (CallForAny [peer.uid]) (ReturnsCopy peer)
          (cleanupManagedClusterSPIFFEIDs P peer) :=
        always_cleanupManaged (allows_callForAny List.mem_cons_self)
          (fun _ _ => ⟨peer.uid, List.mem_cons_self, rfl⟩) (.refl peer)
      refine (frame_members _ _ (h.apart_copies hinv) hcall (safe_cleanupManaged hinv hx) hinv
        h.held_copies).bind hinv ?_
      rintro ⟨p₁, err | ⟨⟩⟩ s₁ hinv₁ ⟨⟨hp₁, h₁⟩, -, hcalm, hcopies⟩
      · exact ⟨.refl m, hbased.grows hcalm.toGrows, by simp⟩
      have hheld₁ : Held S s₁.world p₁ True True := h₁.mono id fun _ => Or.inl trivial
      have hrest : Gathered S s₁.world m rest :=
        ⟨fun y hy => hcopies _ (List.mem_map.mpr ⟨y, hy, rfl⟩), h.tail.keys⟩
      have hkey₁ : (ConflictMember.copy p₁).key m ∉ memberKeys m rest := by
        rw [show (ConflictMember.copy p₁).key m = peer.key from hp₁.key]
        exact hnotin
      have hall := hrest.cons (x := .copy p₁) hheld₁ hkey₁
      refine (frame_members (memberUIDs m rest) [p₁] ?_
        (always_cleanupMembers rest (.refl m) (allows_members (List.Subset.refl _))
          (deletes_members (List.Subset.refl _)))
        (ih hinv₁ (hbased.grows hcalm.toGrows) hrest) hinv₁ ?_).bind hinv₁ ?_
      · exact fun q hq => List.mem_singleton.mp hq ▸ hall.uid_notMem hinv₁
      · exact fun q hq => List.mem_singleton.mp hq ▸ hheld₁
      rintro ⟨m₂, err | members'⟩ s₂ - ⟨⟨hm₂, hbased₂, hok⟩, -, -, hheld₂⟩
      · exact ⟨hm₂, hbased₂, by simp⟩
      obtain ⟨hgathered, hkeys⟩ := hok members' rfl
      have hkey₂ : (ConflictMember.copy p₁).key m₂ ∉ memberKeys m₂ members' := by
        rw [hkeys]
        exact hkey₁
      refine ⟨hm₂, hbased₂, ?_⟩
      rintro members'' ⟨⟩
      refine ⟨hgathered.cons (x := .copy p₁) (hheld₂ p₁ List.mem_cons_self) hkey₂, ?_⟩
      rw [memberKeys, List.map_cons]
      exact congrArg₂ List.cons hp₁.key hkeys

/-! ## The second look -/

/-- What the second look leaves: where it finds nothing, all members are withdrawn. -/
def Absent (S : Setting) (m : Binding) (members : List ConflictMember)
    (x : Binding × Except GoError Bool) (s : Scene) : Prop :=
  Continues m x.1 ∧ Based S s.world x.1 ∧
    (x.2 = .ok true → S.Closed → ∀ k ∈ memberKeys m members, s.world.Withdrawn k)

theorem safe_confirmMembersAbsent {members : List ConflictMember} (hinv : Inv S s.world)
    (hbased : Based S s.world m) (h : Gathered S s.world m members) :
    (operatorProtocol r S).Safe (confirmMembersAbsent P members m) (Absent S m members) s := by
  induction members generalizing m s with
  | nil => exact ⟨.refl m, hbased, by simp [memberKeys]⟩
  | cons x rest ih =>
    have hx := h.held x List.mem_cons_self
    cases x with
    | current =>
      have hcall : Always (CallForAny [m.uid]) (ReturnsCopy m) (listManagedClusterSPIFFEIDs P m) :=
        always_listManaged (allows_callForAny List.mem_cons_self) (.refl m)
      refine (frame_members _ _ (h.apart_copies hinv) hcall (safe_listManaged hinv hx) hinv
        h.held_copies).bind hinv ?_
      rintro ⟨m₁, err | _ | ⟨o, objects⟩⟩ s₁ hinv₁ ⟨⟨hm₁, h₁⟩, -, -, hcopies⟩
      · exact ⟨hm₁, h₁.based, by simp⟩
      · have hheld₁ : Held S s₁.world m₁ True True := h₁.held.mono id fun _ => Or.inl trivial
        have hrest : Gathered S s₁.world m₁ rest := by
          refine ⟨fun y hy => ?_, memberKeys_continues hm₁ rest ▸ h.tail.keys⟩
          rw [h.binding_eq m₁ y hy]
          exact hcopies _ (List.mem_map.mpr ⟨y, hy, rfl⟩)
        refine (frame_members (memberUIDs m₁ rest) [] (by simp)
          (always_confirmMembersAbsent rest (.refl m₁) (allows_members (List.Subset.refl _)))
          (ih hinv₁ hheld₁.based hrest) hinv₁ (by simp)).mono hinv₁ ?_
        rintro ⟨m₂, result⟩ s₂ - ⟨⟨hm₂, hbased₂, habsent⟩, -, hcalm, -⟩
        refine ⟨hm₁.trans hm₂, hbased₂, fun hok hc k hk => ?_⟩
        rcases List.mem_cons.mp hk with rfl | hk
        · have hwithdrawn := (hheld₁.withdrawn hc (h₁.none rfl)).calm hc hcalm
          rwa [hm₁.key] at hwithdrawn
        · exact habsent hok hc k (memberKeys_continues hm₁ rest ▸ hk)
      · exact ⟨hm₁, h₁.held.based, by simp⟩
    | copy peer =>
      have hcall : Always (CallForAny [peer.uid]) (ReturnsCopy peer)
          (listManagedClusterSPIFFEIDs P peer) :=
        always_listManaged (allows_callForAny List.mem_cons_self) (.refl peer)
      refine (frame_members _ _ (h.apart_copies hinv) hcall (safe_listManaged hinv hx) hinv
        h.held_copies).bind hinv ?_
      rintro ⟨p₁, err | _ | ⟨o, objects⟩⟩ s₁ hinv₁ ⟨⟨hp₁, h₁⟩, -, hcalm₁, hcopies⟩
      · exact ⟨.refl m, hbased.grows hcalm₁.toGrows, by simp⟩
      · have hheld₁ : Held S s₁.world p₁ True True := h₁.held.mono id fun _ => Or.inl trivial
        have hrest : Gathered S s₁.world m rest :=
          ⟨fun y hy => hcopies _ (List.mem_map.mpr ⟨y, hy, rfl⟩), h.tail.keys⟩
        refine (frame_members (memberUIDs m rest) [] (by simp)
          (always_confirmMembersAbsent rest (.refl m) (allows_members (List.Subset.refl _)))
          (ih hinv₁ (hbased.grows hcalm₁.toGrows) hrest) hinv₁ (by simp)).mono hinv₁ ?_
        rintro ⟨m₂, result⟩ s₂ - ⟨⟨hm₂, hbased₂, habsent⟩, -, hcalm, -⟩
        refine ⟨hm₂, hbased₂, fun hok hc k hk => ?_⟩
        rcases List.mem_cons.mp hk with rfl | hk
        · have hwithdrawn := (hheld₁.withdrawn hc (h₁.none rfl)).calm hc hcalm
          rwa [hp₁.key] at hwithdrawn
        · exact habsent hok hc k hk
      · exact ⟨.refl m, hbased.grows hcalm₁.toGrows, by simp⟩

/-- **The withdrawal.** Where it reports absence, every member is withdrawn. -/
theorem safe_withdrawConflictOutputs {members : List ConflictMember} (hinv : Inv S s.world)
    (hbased : Based S s.world m) (h : Gathered S s.world m members) :
    (operatorProtocol r S).Safe (withdrawConflictOutputs P members m) (Absent S m members) s := by
  refine (safe_cleanupMembers hinv hbased h).bind hinv ?_
  rintro ⟨m₁, err | members'⟩ s₁ hinv₁ ⟨hm₁, hbased₁, hok⟩
  · exact ⟨hm₁, hbased₁, by simp⟩
  obtain ⟨hgathered, hkeys⟩ := hok members' rfl
  refine (safe_confirmMembersAbsent hinv₁ hbased₁ hgathered).mono hinv₁ ?_
  rintro ⟨m₂, result⟩ s₂ - ⟨hm₂, hbased₂, habsent⟩
  exact ⟨hm₁.trans hm₂, hbased₂, fun hresult hc k hk => habsent hresult hc k (hkeys ▸ hk)⟩

/-! ## Conflicts as a whole -/

/-- A program leaves its trace in the log. -/
theorem safe_traced {α : Type} {prog : Op α} {Q : α → Scene → Prop}
    (h : (operatorProtocol r S).Safe prog Q s) :
    (operatorProtocol r S).Safe prog
      (fun a s' => Q a s' ∧ ∃ t, s'.log = s.log ++ t ∧ Runs prog t a) s := by
  refine Safe.traced (fun s t s' => s'.log = s.log ++ t) ?_ ?_ ?_ h
  · exact fun s => (List.append_nil s.log).symm
  · intro s₁ s₂ s₃ t henv hlog
    rw [hlog, henv.1]
  · intro c s₁ a s₂ s₃ t hapi hlog
    rw [hlog, Answered.log hapi, List.append_assoc]
    rfl

/-- A conflict can be published once all its members are withdrawn. -/
theorem publishable_conflict {state : BindingConflictState} (hbased : Based S s.world m)
    (hne : state.conflicts ≠ [])
    (hns : ∀ c ∈ state.conflicts, c.peerBindingRef.namespace_ = m.key.namespace_)
    (hwithdrawn : S.Closed → s.world.Withdrawn m.key ∧
      ∀ c ∈ state.conflicts, s.world.Withdrawn c.peerBindingRef)
    (hsettled : SettledConflict r s.log) :
    Publishable r S s m.key (applyConflictStatus m.status m.generation state.conflicts) where
  consistent := fun ht => consistent_applyConflictStatus (hbased.unique ht) hne
  ready := by
    intro _ hready
    rw [Status.Is, verdict_applyConflictStatus] at hready
    simp [failureVerdicts] at hready
  withdrawn := by
    intro hc _ k hk
    rcases List.mem_cons.mp hk with rfl | hk
    · exact (hwithdrawn hc).1
    · obtain ⟨item, hitem, rfl⟩ := List.mem_map.mp hk
      obtain ⟨c, hmem, rfl⟩ := List.mem_map.mp hitem
      rw [← hns c hmem]
      exact (hwithdrawn hc).2 c hmem
  settled := fun _ => hsettled

/-- **`reconcileConflictState`.** Where it finds nothing to do, the way is clear for the
output. -/
theorem safe_reconcileConflictState {identity : Plan} (hidentity : Rendered r m identity)
    (hinv : Inv S s.world) (h : Held S s.world m True True) (hpinned : Pinned S s.world m)
    (hsteady : Steady S s.world m) :
    (operatorProtocol r S).Safe (r.reconcileConflictState m identity)
      (fun x s' => x.2 = none →
        x.1 = m ∧ Held S s'.world m True True ∧ Prepared S s'.world m) s := by
  have hevaluate := frame_mild (F := fun w => Pinned S w m) Pinned.spares
    (fun h hc heffect => h.mild hc heffect) (always_mild_evaluate identity)
    (safe_evaluateBindingConflicts hidentity hinv h hsteady) hinv h.based hpinned
  refine (safe_traced hevaluate).bind hinv ?_
  rintro (err | state) s₁ hinv₁ ⟨⟨hev, hpinned₁⟩, evaluation, hlog, hruns⟩
  · refine (safe_reportApplyFailure hinv₁ hev err).bind hinv₁ ?_
    exact fun result s₂ _ _ => nofun
  have hev : Evaluated S m state s₁ := hev
  dsimp only
  split_ifs with hnone
  · exact fun _ => ⟨rfl, hev.main, hpinned₁, hev.clear hnone.1 hnone.2⟩
  refine (safe_traced (safe_withdrawConflictOutputs hinv₁ hev.main.based
    ⟨hev.members, hev.keys⟩)).bind hinv₁ ?_
  rintro ⟨m₁, err | absent⟩ s₂ hinv₂ ⟨⟨hm₁, hbased₁, habsent⟩, withdrawal, hlog', hruns'⟩
  · refine (safe_reportApplyFailure hinv₂ hbased₁ err).bind hinv₂ ?_
    exact fun result s₃ _ _ => nofun
  dsimp only
  split_ifs with hwait
  · refine (safe_patchStatus (m := { m₁ with
      status := applyPendingConflictStatus m₁.status m₁.generation }) hinv₂
      (publishable_pendingConflict hbased₁ m₁.key)).bind hinv₂ ?_
    rintro ⟨m₂, err | ⟨⟩⟩ s₃ - - <;> exact nofun
  · -- every output is absent and nobody blocks: the conflict is settled
    obtain ⟨habsent', hblocked⟩ := not_or.mp hwait
    have hblocked : state.blocked = false := Bool.eq_false_iff.mpr hblocked
    have hok : absent = true := Bool.eq_true_of_not_eq_false habsent'
    have hne : state.conflicts ≠ [] := fun hnil => hnone ⟨hnil, hblocked⟩
    have hsettled : SettledConflict r s₂.log :=
      ⟨s.log, evaluation, withdrawal, [], m, identity, state, m₁, by simp [hlog, hlog'], hruns,
        hblocked, hok ▸ hruns'⟩
    have hwithdrawn := habsent (congrArg Except.ok hok)
    obtain ⟨c, hc⟩ := List.exists_mem_of_ne_nil _ hne
    have hpublish : Publishable r S s₂ m₁.key
        (applyConflictStatus m₁.status m₁.generation state.conflicts) := by
      refine publishable_conflict hbased₁ hne (fun c hc => ?_) (fun hclosed => ?_) hsettled
      · rw [hm₁.key]
        exact (hev.named hblocked c hc).2.2
      · rw [hm₁.key]
        exact ⟨hwithdrawn hclosed _ (hev.named hblocked c hc).1,
          fun c hc => hwithdrawn hclosed _ (hev.named hblocked c hc).2.1⟩
    refine (safe_publishOutcome (m := { m₁ with
      status := applyConflictStatus m₁.status m₁.generation state.conflicts }) hinv₂
      hpublish).bind hinv₂ ?_
    rintro (err | ⟨⟩) s₃ - - <;> exact nofun

end Kleym
