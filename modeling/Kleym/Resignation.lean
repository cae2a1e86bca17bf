import Kleym.Assessment

/-!
# Withdrawing without faults

A withdrawal asks the outputs of all members to go, then looks at each of them again. When
nothing fails, every object that a member still holds afterwards is on its way out, and the
withdrawal reports that all are gone exactly when no member has a record left.

The members are worked on one after the other, the reconciled binding among them in its own copy
or in one from the listing. Their keys are distinct, so what is done for one member leaves the
copies of the others current.
-/

namespace Kleym

open GoString Prog Protocol

variable {r : Reconciler} {S : Setting} {v v' v'' : World} {m m' b : Binding}

/-! ## Members -/

/-- The reconciled binding and the member, once there is a new copy for it. -/
def ConflictMember.renew (m b : Binding) : ConflictMember → Binding × ConflictMember
  | .current => (b, .current)
  | .copy _ => (m, .copy b)

section Member

variable {x y : ConflictMember} {P : Platform} {members : List ConflictMember}

theorem ConflictMember.key_binding : (x.binding m).key = x.key m := by cases x <;> rfl

theorem ConflictMember.continues_renew (h : Continues (x.binding m) b) :
    Continues m (x.renew m b).1 := by
  cases x with
  | current => exact h
  | copy peer => exact .refl m

/-- A new copy for one member is no matter of the others. -/
theorem ConflictMember.binding_renew_other (h : y.key m ≠ x.key m) :
    y.binding (x.renew m b).1 = y.binding m := by
  cases x with
  | current =>
    cases y with
    | current => exact absurd rfl h
    | copy peer => rfl
  | copy peer => rfl

theorem cleanupMembers_cons : cleanupMembers P (x :: members) m =
    cleanupManagedClusterSPIFFEIDs P (x.binding m) >>= fun cleaned => match cleaned with
      | (b, .error err) => ret ((x.renew m b).1, .error err)
      | (b, .ok ()) => cleanupMembers P members (x.renew m b).1 >>= fun rest => match rest with
        | (m', .error err) => ret (m', .error err)
        | (m', .ok members') => ret (m', .ok ((x.renew m b).2 :: members')) := by
  cases x <;> rfl

theorem confirmMembersAbsent_cons : confirmMembersAbsent P (x :: members) m =
    listManagedClusterSPIFFEIDs P (x.binding m) >>= fun listed => match listed with
      | (b, .error err) => ret ((x.renew m b).1, .error err)
      | (b, .ok (_ :: _)) => ret ((x.renew m b).1, .ok false)
      | (b, .ok []) => confirmMembersAbsent P members (x.renew m b).1 := by
  cases x <;> rfl

end Member

theorem Mirrors.exists_stored {exact : Prop} (h : Mirrors exact v m) :
    ∃ b, v.bindings.get m.key = some b ∧ b.record = m.record := by
  obtain ⟨status, hget, hrecord, -⟩ := h
  exact ⟨_, hget, hrecord⟩

theorem Mirrors.congr {exact : Prop} (h : Mirrors exact v m)
    (hsame : v'.bindings.get m.key = v.bindings.get m.key) : Mirrors exact v' m := by
  obtain ⟨status, hget, hcopy⟩ := h
  exact ⟨status, hsame.trans hget, hcopy⟩

/-- The outputs of the members have been asked to go. -/
structure Recalled (v : World) (m : Binding) (members : List ConflictMember) (v' : World)
    (m' : Binding) (members' : List ConflictMember) : Prop where
  mirrors : ∀ x ∈ members', Mirrors False v' (x.binding m')
  continues : Continues m m'
  keys : memberKeys m' members' = memberKeys m members
  still : m.key ∉ memberKeys m members → m' = m
  copies : LaterCopies v v'
  others : ∀ k, k ∉ memberKeys m members → v'.bindings.get k = v.bindings.get k
  withers : ∀ n o, v'.objects.get n = some o → v.objects.get n = some o ∨ o.terminating = true
  remains : ∀ k ∈ memberKeys m members, ∀ b, v'.bindings.get k = some b →
    ∀ o, Holds v' b o → o.terminating = true

theorem laterCopies_refl (v : World) : LaterCopies v v := fun _ => continues_same _

theorem memberKeys_cons {x : ConflictMember} {members : List ConflictMember} :
    memberKeys m (x :: members) = x.key m :: memberKeys m members := rfl

theorem Recalled.cons {x : ConflictMember} {members members' : List ConflictMember}
    (hx : Mirrors False v (x.binding m)) (hdismissed : Dismissed False v (x.binding m) v' b)
    (hnew : x.key m ∉ memberKeys m members)
    (h : Recalled v' (x.renew m b).1 members v'' m' members') :
    Recalled v m (x :: members) v'' m' ((x.renew m b).2 :: members') := by
  have hkey : (x.binding m).key = x.key m := ConflictMember.key_binding
  have hb : b.key = x.key m := hdismissed.carried.continues.key.trans hkey
  have hrenewed : Continues m (x.renew m b).1 :=
    ConflictMember.continues_renew hdismissed.carried.continues
  have hkeys : memberKeys (x.renew m b).1 members = memberKeys m members :=
    memberKeys_continues hrenewed members
  have hown : v''.bindings.get (x.key m) = v'.bindings.get (x.key m) := h.others _ (hkeys ▸ hnew)
  have hself : (x.renew m b).2.binding m' = b := by
    cases x with
    | current => exact h.still (by rw [hkeys, hrenewed.key]; exact hnew)
    | copy peer => rfl
  refine ⟨?_, hrenewed.trans h.continues, ?_, ?_, ?_, ?_, ?_, ?_⟩
  · refine List.forall_mem_cons.mpr ⟨?_, h.mirrors⟩
    rw [hself]
    exact hdismissed.carried.mirrors.congr (hb ▸ hown)
  · have hsame : (x.renew m b).2.key m' = x.key m := by
      rw [← ConflictMember.key_binding, hself, hb]
    rw [memberKeys_cons, memberKeys_cons, h.keys, hkeys, hsame]
  · rw [memberKeys_cons, List.mem_cons, not_or]
    rintro ⟨hne, hnot⟩
    have hm : (x.renew m b).1 = m := by
      cases x with
      | current => exact absurd rfl hne
      | copy peer => rfl
    rw [h.still (by rwa [hkeys, hm]), hm]
  · exact (hdismissed.carried.laterCopies hx).trans h.copies
  · intro k
    rw [memberKeys_cons, List.mem_cons, not_or]
    rintro ⟨hne, hnot⟩
    rw [h.others k (hkeys ▸ hnot), hdismissed.carried.beside.others k (hkey ▸ hne)]
  · intro n o ho
    exact (h.withers n o ho).elim (hdismissed.withers n o) Or.inr
  · rw [memberKeys_cons]
    refine List.forall_mem_cons.mpr ⟨fun b' hb' o ho => ?_, hkeys ▸ h.remains⟩
    -- what the member held is still what it was, or has been asked to go since
    obtain ⟨stored, hstored, hrecord⟩ := hdismissed.carried.mirrors.exists_stored
    rw [hown, ← hb] at hb'
    obtain rfl := Option.some.inj (hstored.symm.trans hb')
    rcases h.withers o.name o ho.1 with hold | hterminating
    · exact (hdismissed.remains o ⟨hold, hrecord ▸ ho.2⟩).2
    · exact hterminating

/-- The members after the first are as they were. -/
theorem mirrors_rest {x : ConflictMember} {members : List ConflictMember}
    (hmembers : ∀ y ∈ members, Mirrors False v (y.binding m))
    (hnew : x.key m ∉ memberKeys m members) (hcarried : Carried False v (x.binding m) v' b) :
    ∀ y ∈ members, Mirrors False v' (y.binding (x.renew m b).1) := by
  intro y hy
  have hne : y.key m ≠ x.key m := fun heq => hnew (List.mem_map.mpr ⟨y, hy, heq⟩)
  rw [ConflictMember.binding_renew_other hne]
  refine (hmembers y hy).congr (hcarried.beside.others _ ?_)
  rw [ConflictMember.key_binding, ConflictMember.key_binding]
  exact hne

theorem smoothly_cleanupMembers {members : List ConflictMember} (hv : Orderly r S v)
    (hmembers : ∀ x ∈ members, Mirrors False v (x.binding m))
    (hnodup : (memberKeys m members).Nodup) :
    Smoothly r S (cleanupMembers r.platform members m) (fun z v' => ∃ members', z.2 = .ok members' ∧
      Recalled v m members v' z.1 members') v := by
  induction members generalizing v m with
  | nil =>
    exact ⟨[], rfl, List.forall_mem_nil _, .refl m, rfl, fun _ => rfl, laterCopies_refl v,
      fun _ _ => rfl, fun _ _ h => Or.inl h, List.forall_mem_nil _⟩
  | cons x members ih =>
    rw [memberKeys_cons, List.nodup_cons] at hnodup
    rw [List.forall_mem_cons] at hmembers
    rw [cleanupMembers_cons]
    refine (smoothly_cleanupManaged hv hmembers.1).bind hv ?_
    rintro ⟨b, a⟩ v₁ hv₁ ⟨rfl, hdismissed⟩
    have hkeys : memberKeys (x.renew m b).1 members = memberKeys m members :=
      memberKeys_continues (ConflictMember.continues_renew hdismissed.carried.continues) members
    have hrest := mirrors_rest hmembers.2 hnodup.1 hdismissed.carried
    refine (ih hv₁ hrest (hkeys ▸ hnodup.2)).bind hv₁ ?_
    rintro ⟨m₂, a⟩ v₂ - ⟨members', rfl, hrecalled⟩
    exact ⟨_, rfl, .cons hmembers.1 hdismissed hnodup.1 hrecalled⟩

/-- The second look at the members. -/
structure Confirmed (v : World) (m : Binding) (members : List ConflictMember) (v' : World)
    (m' : Binding) (absent : Bool) : Prop where
  continues : Continues m m'
  copies : LaterCopies v v'
  others : ∀ k, k ∉ memberKeys m members → v'.bindings.get k = v.bindings.get k
  holds : ∀ k b, v'.bindings.get k = some b → ∀ o, Holds v' b o →
    ∃ b₀, v.bindings.get k = some b₀ ∧ Holds v b₀ o
  gone : absent = true → ∀ k ∈ memberKeys m members, ∀ b, v'.bindings.get k = some b →
    b.record = unrecorded
  held : absent = false → ∃ k ∈ memberKeys m members, ∃ b o, v'.bindings.get k = some b ∧
    Holds v' b o

/-- What is stored holds what was held before its record was resolved. -/
theorem Enumerated.holds_stored {found : List ClusterSPIFFEID}
    (h : Enumerated False v m v' m' found) (hm : Mirrors False v m) {k : NamespacedName}
    (hb : v'.bindings.get k = some b) {o : ClusterSPIFFEID} (ho : Holds v' b o) :
    ∃ b₀, v.bindings.get k = some b₀ ∧ Holds v b₀ o := by
  by_cases hk : k = m.key
  · subst hk
    obtain ⟨stored, hstored, hrecord⟩ := hm.exists_stored
    obtain ⟨stored', hstored', hrecord'⟩ := h.carried.mirrors.exists_stored
    rw [h.carried.continues.key] at hstored'
    obtain rfl := Option.some.inj (hstored'.symm.trans hb)
    have hheld : Holds v' m' o := ⟨ho.1, hrecord' ▸ ho.2⟩
    have hmem : o ∈ found := by
      rcases h.settles with ⟨-, hnone⟩ | ⟨o', rfl, hlives⟩
      · exact absurd hheld (not_holds_unrecorded hnone)
      · obtain ⟨hget, -⟩ := (holds_confirmed hlives.record).mp hheld
        rw [h.objects, hlives.stored] at hget
        exact List.mem_singleton.mpr (Option.some.inj hget).symm
    obtain ⟨hget, hcovers⟩ := (h.holds o).mp hmem
    exact ⟨stored, hstored, hget, hrecord ▸ hcovers⟩
  · rw [h.carried.beside.others k hk] at hb
    exact ⟨b, hb, h.objects ▸ ho.1, ho.2⟩

theorem smoothly_confirmMembersAbsent {members : List ConflictMember} (hv : Orderly r S v)
    (hmembers : ∀ x ∈ members, Mirrors False v (x.binding m))
    (hnodup : (memberKeys m members).Nodup) :
    Smoothly r S (confirmMembersAbsent r.platform members m) (fun z v' => ∃ absent,
      z.2 = .ok absent ∧ Confirmed v m members v' z.1 absent) v := by
  induction members generalizing v m with
  | nil =>
    exact ⟨true, rfl, .refl m, laterCopies_refl v, fun _ _ => rfl, fun k b hb o ho => ⟨b, hb, ho⟩,
      fun _ => List.forall_mem_nil _, fun h => by cases h⟩
  | cons x members ih =>
    rw [memberKeys_cons, List.nodup_cons] at hnodup
    rw [List.forall_mem_cons] at hmembers
    rw [confirmMembersAbsent_cons]
    refine (smoothly_listManaged hv hmembers.1).bind hv ?_
    rintro ⟨b, a⟩ v₁ hv₁ ⟨found, rfl, hlisted⟩
    have hrenewed : Continues m (x.renew m b).1 :=
      ConflictMember.continues_renew hlisted.carried.continues
    have hkeys : memberKeys (x.renew m b).1 members = memberKeys m members :=
      memberKeys_continues hrenewed members
    have hkey : (x.binding m).key = x.key m := ConflictMember.key_binding
    obtain ⟨stored, hstored, hrecord⟩ := hlisted.carried.mirrors.exists_stored
    rw [hlisted.carried.continues.key, hkey] at hstored
    have hcopies : LaterCopies v v₁ := hlisted.carried.laterCopies hmembers.1
    have hothers : ∀ k, k ∉ memberKeys m (x :: members) → v₁.bindings.get k = v.bindings.get k := by
      intro k hk
      rw [memberKeys_cons, List.mem_cons, not_or] at hk
      exact hlisted.carried.beside.others k (hkey ▸ hk.1)
    rcases hlisted.settles with ⟨rfl, hnone⟩ | ⟨o, rfl, hlives⟩
    · have hrest := mirrors_rest hmembers.2 hnodup.1 hlisted.carried
      refine (ih hv₁ hrest (hkeys ▸ hnodup.2)).mono hv₁ ?_
      rintro ⟨m₂, a⟩ v₂ - ⟨absent, rfl, hconfirmed⟩
      refine ⟨absent, rfl, hrenewed.trans hconfirmed.continues, hcopies.trans hconfirmed.copies, ?_,
        ?_, ?_, ?_⟩
      · intro k hk
        have hk' := hk
        rw [memberKeys_cons, List.mem_cons, not_or] at hk'
        rw [hconfirmed.others k (hkeys ▸ hk'.2), hothers k hk]
      · intro k b' hb' o ho
        obtain ⟨b₁, hb₁, ho₁⟩ := hconfirmed.holds k b' hb' o ho
        exact hlisted.holds_stored hmembers.1 hb₁ ho₁
      · intro habsent
        rw [memberKeys_cons]
        refine List.forall_mem_cons.mpr ⟨fun b' hb' => ?_, hkeys ▸ hconfirmed.gone habsent⟩
        rw [hconfirmed.others _ (hkeys ▸ hnodup.1), hstored] at hb'
        exact Option.some.inj hb' ▸ hrecord.trans hnone
      · intro habsent
        obtain ⟨k, hk, hheld⟩ := hconfirmed.held habsent
        rw [hkeys] at hk
        exact ⟨k, List.mem_cons_of_mem _ hk, hheld⟩
    · refine ⟨false, rfl, hrenewed, hcopies, hothers, fun k b' hb' o ho =>
        hlisted.holds_stored hmembers.1 hb' ho, fun h => (by cases h), fun _ => ?_⟩
      have hheld := (hlives.objects hlisted.objects).holds
      exact ⟨x.key m, List.mem_cons_self, stored, o, hstored, hheld.1, hrecord ▸ hheld.2⟩

/-- What a withdrawal leaves: the members are rid of their outputs, or wait for them. -/
structure Resigned (v : World) (m : Binding) (members : List ConflictMember) (v' : World)
    (m' : Binding) (absent : Bool) : Prop where
  continues : Continues m m'
  copies : LaterCopies v v'
  others : ∀ k, k ∉ memberKeys m members → v'.bindings.get k = v.bindings.get k
  remains : ∀ k ∈ memberKeys m members, ∀ b, v'.bindings.get k = some b →
    ∀ o, Holds v' b o → o.terminating = true
  gone : absent = true → ∀ k ∈ memberKeys m members, ∀ b, v'.bindings.get k = some b →
    b.record = unrecorded
  waits : absent = false → ∃ k ∈ memberKeys m members, Waits v' k

theorem smoothly_withdraw {members : List ConflictMember} (hv : Orderly r S v)
    (hmembers : ∀ x ∈ members, Mirrors False v (x.binding m))
    (hnodup : (memberKeys m members).Nodup) :
    Smoothly r S (withdrawConflictOutputs r.platform members m) (fun z v' => ∃ absent,
      z.2 = .ok absent ∧ Resigned v m members v' z.1 absent) v := by
  refine (smoothly_cleanupMembers hv hmembers hnodup).bind hv ?_
  rintro ⟨m₁, a⟩ v₁ hv₁ ⟨members', rfl, hrecalled⟩
  have hkeys : memberKeys m₁ members' = memberKeys m members := hrecalled.keys
  refine (smoothly_confirmMembersAbsent hv₁ hrecalled.mirrors (hkeys ▸ hnodup)).mono hv₁ ?_
  rintro ⟨m₂, a⟩ v₂ - ⟨absent, rfl, hconfirmed⟩
  have hremains : ∀ k ∈ memberKeys m members, ∀ b, v₂.bindings.get k = some b →
      ∀ o, Holds v₂ b o → o.terminating = true := by
    intro k hk b hb o ho
    obtain ⟨b₁, hb₁, ho₁⟩ := hconfirmed.holds k b hb o ho
    exact hrecalled.remains k hk b₁ hb₁ o ho₁
  refine ⟨absent, rfl, hrecalled.continues.trans hconfirmed.continues,
    hrecalled.copies.trans hconfirmed.copies, fun k hk => ?_, hremains, hkeys ▸ hconfirmed.gone,
    fun habsent => ?_⟩
  · rw [hconfirmed.others k (hkeys ▸ hk), hrecalled.others k hk]
  · obtain ⟨k, hk, b, o, hb, ho⟩ := hconfirmed.held habsent
    rw [hkeys] at hk
    exact ⟨k, hk, b, o, hb, ho, hremains k hk b hb o ho⟩

end Kleym
