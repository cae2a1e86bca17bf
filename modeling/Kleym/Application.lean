import Kleym.Publication

/-!
# Applying the output of a binding

From the cleanup of an output under an old name to the create or update of the desired
object. All of it works on the copy of a binding that is not being deleted, holds the
finalizer, and has nobody in its way (`Prepared`).
-/

namespace Kleym

open GoString Prog Protocol

variable {r : Reconciler} {S : Setting} {s s' : Scene} {m m' : Binding}

/-! ## Preparation -/

/-- The finalizer holds the binding. -/
def Pinned (S : Setting) (w : World) (m : Binding) : Prop :=
  S.Closed → ∃ b ∈ w.bindings.entries, b.uid = m.uid ∧
    inferenceIdentityBindingFinalizer ∈ b.finalizers

/-- What the earlier phases have established for the output: the finalizer holds the
binding, and nobody else's output renders its boundary. -/
structure Prepared (S : Setting) (w : World) (m : Binding) : Prop where
  pinned : Pinned S w m
  clear : S.Vetted → ∀ u o, w.Output u o → o.Renders m.boundary → u = m.uid

theorem ClusterSPIFFEID.Renders.congr {o o' : ClusterSPIFFEID} {t : Boundary} (h : o'.Renders t)
    (hselectors : o.selectors = o'.selectors) : o.Renders t := by
  rwa [ClusterSPIFFEID.Renders, hselectors]

theorem Pinned.spares {w w' : World} (h : Pinned S w m) (hspares : Spares S m.uid w w') :
    Pinned S w' m := by
  intro hc
  obtain ⟨b, hb, huid, hfin⟩ := h hc
  exact hspares.pinned hc b hb huid hfin

theorem Prepared.spares {w w' : World} (h : Prepared S w m) (hspares : Spares S m.uid w w') :
    Prepared S w' m where
  pinned := h.pinned.spares hspares
  clear := by
    intro hv u o' ho' hrenders
    obtain ⟨o, ho, -, -, -, hsel⟩ := hspares.outputs hv.quiet.closed u o' ho'
    exact h.clear hv u o ho (hrenders.congr hsel)

theorem Prepared.continues {w : World} (h : Prepared S w m) (hm : Continues m m') :
    Prepared S w m' := by
  rw [hm]
  exact ⟨h.pinned, h.clear⟩

/-- A call that neither writes a binding's metadata nor puts an object. -/
def Call.Mild : Call → Prop
  | .updateBinding _ => False
  | .createClusterSPIFFEID _ _ => False
  | .updateClusterSPIFFEID _ _ => False
  | _ => True

theorem Pinned.mild {w w' : World} (h : Pinned S w m) {c : Call} (hc : c.Mild)
    {fresh : GoString} (heffect : Effect c w fresh w') : Pinned S w' m := by
  cases heffect with
  | @patchBindingStatus kind base stored status _ _ hstored hversion hadmitted =>
    obtain ⟨hmem, hkey⟩ := Store.get_eq_some.mp hstored
    intro hc
    obtain ⟨b, hb, huid, hfin⟩ := h hc
    by_cases hbk : b.key = stored.key
    · obtain rfl := w.bindings.eq_of_key_eq hb hmem hbk
      exact ⟨_, Store.mem_put.mpr (Or.inl rfl), huid, hfin⟩
    · exact ⟨b, Store.mem_put.mpr (Or.inr ⟨hb, hbk⟩), huid, hfin⟩
  | updateBinding => exact hc.elim
  | create => exact hc.elim
  | updateObject => exact hc.elim
  | _ => exact h

theorem Prepared.mild {w w' : World} (h : Prepared S w m) {c : Call} (hc : c.Mild)
    {fresh : GoString} (heffect : Effect c w fresh w') : Prepared S w' m := by
  refine ⟨h.pinned.mild hc heffect, fun hv u o ho hrenders => ?_⟩
  cases heffect with
  | none => exact h.clear hv u o ho hrenders
  | patchBindingStatus => exact h.clear hv u o ho hrenders
  | terminate hstored huid =>
    rcases output_saveObject ho with ⟨rfl, hcreated⟩ | ⟨ho, -⟩
    · exact h.clear hv u _ ⟨(Store.get_eq_some.mp hstored).1, hcreated⟩ (hrenders.congr rfl)
    · exact h.clear hv u o ho hrenders
  | remove hstored huid => exact h.clear hv u o (output_dropObject ho) hrenders
  | issue => exact h.clear hv u o ho hrenders
  | updateBinding => exact hc.elim
  | create => exact hc.elim
  | updateObject => exact hc.elim

/-- What others and mild calls leave alone, a program of mild calls leaves alone. -/
theorem frame_mild {α : Type} {p : Op α} {V : α → Prop} {Q : α → Scene → Prop} {F : World → Prop}
    (hspares : ∀ {w w'}, F w → Spares S m.uid w w' → F w')
    (hmild : ∀ {c w w' fresh}, F w → Call.Mild c → Effect c w fresh w' → F w')
    (hp : Always Call.Mild V p) (h : (operatorProtocol r S).Safe p Q s) (hinv : Inv S s.world)
    (hbased : Based S s.world m) (hF : F s.world) :
    (operatorProtocol r S).Safe p (fun a s' => Q a s' ∧ F s'.world) s := by
  have hstable : (operatorProtocol r S).Stable fun s => Based S s.world m ∧ F s.world := by
    intro s s' hinv h henv
    exact ⟨stable_based hinv h.1 henv, hspares h.2 (spares_of_env hinv h.1 henv)⟩
  refine (Safe.frame hstable ?_ hp h hinv ⟨hbased, hF⟩).mono hinv fun _ _ _ h' => ⟨h'.1, h'.2.2.2⟩
  intro c s₁ a s₂ hcall _ _ hF hapi _
  obtain ⟨fresh, -, heffect⟩ := Answered.effect hapi
  exact ⟨hF.1.grows (Answered.grows hapi), hmild hF.2 hcall heffect⟩

/-- Mild calls leave a binding prepared. -/
theorem frame_prepared {α : Type} {p : Op α} {V : α → Prop} {Q : α → Scene → Prop}
    (hp : Always Call.Mild V p) (h : (operatorProtocol r S).Safe p Q s) (hinv : Inv S s.world)
    (hbased : Based S s.world m) (hm : Prepared S s.world m) :
    (operatorProtocol r S).Safe p (fun a s' => Q a s' ∧ Prepared S s'.world m) s :=
  frame_mild Prepared.spares (fun h hc heffect => h.mild hc heffect) hp h hinv hbased hm

theorem allows_mild (b : Binding) : Allows Call.Mild b :=
  ⟨fun _ _ _ => trivial, fun _ => trivial, fun _ _ _ _ => trivial⟩

theorem always_mild_clear : Always Call.Mild (ReturnsCopy m) (clearClusterSPIFFEIDOwnership m) :=
  always_clear (allows_mild m) (.refl m)

theorem always_mild_confirm (P : Platform) (name uid : GoString) :
    Always Call.Mild (ReturnsCopy m) (confirmClusterSPIFFEIDOwnership P m name uid) :=
  always_confirm (allows_mild m) (.refl m) name uid

/-! ## Changed names -/

section

variable {P : Platform}

theorem always_mild_cleanupChanged (name : GoString) :
    Always Call.Mild (fun _ => True) (cleanupChangedClusterSPIFFEIDName P m name) := by
  rw [cleanupChangedClusterSPIFFEIDName]
  split_ifs
  · trivial
  refine (always_cleanupManaged (allows_mild m) (fun _ _ => trivial) (.refl m)).bind ?_
  rintro ⟨m₁, err | ⟨⟩⟩ -
  · trivial
  refine (always_listManaged (allows_mild m₁) (.refl m₁)).bind ?_
  rintro ⟨m₂, err | _ | ⟨o, objects⟩⟩ -
  · trivial
  · dsimp only
    split_ifs
    · refine always_mild_clear.bind ?_
      rintro ⟨m₃, err | ⟨⟩⟩ - <;> trivial
    · trivial
  · trivial

/-- When the cleanup does not ask to wait, the record is empty or under the desired name. -/
theorem safe_cleanupChanged (hinv : Inv S s.world) (h : Held S s.world m True True)
    (name : GoString) :
    (operatorProtocol r S).Safe (cleanupChangedClusterSPIFFEIDName P m name)
      (Handing S m True fun m' waiting s' => Held S s'.world m' True True ∧
        (waiting = false → recordedClusterSPIFFEIDName m'.status = [] ∨
          recordedClusterSPIFFEIDName m'.status = name)) s := by
  rw [cleanupChangedClusterSPIFFEIDName]
  split_ifs with hname
  · exact ⟨.refl m, h, fun _ => hname⟩
  refine (safe_cleanupManaged hinv h).bind hinv ?_
  rintro ⟨m₁, err | ⟨⟩⟩ s₁ hinv₁ ⟨hm₁, h₁⟩
  · exact ⟨hm₁, h₁⟩
  refine (safe_listManaged hinv₁ h₁).bind hinv₁ ?_
  rintro ⟨m₂, err | _ | ⟨o, objects⟩⟩ s₂ hinv₂ ⟨hm₂, h₂⟩
  · exact ⟨hm₁.trans hm₂, h₂.mono id Or.inl⟩
  · have hnil := recordedName_unrecorded (h₂.none rfl)
    dsimp only
    rw [if_neg (not_not_intro hnil)]
    exact ⟨hm₁.trans hm₂, h₂.held.mono id fun _ => Or.inl (Or.inl trivial), fun _ => Or.inl hnil⟩
  · exact ⟨hm₁.trans hm₂, h₂.held.mono id fun _ => Or.inl (Or.inl trivial), by simp⟩

/-! ## Authorization -/

theorem always_mild_authorize (desired : ClusterSPIFFEID) (obs : ManagedOutputObservation) :
    Always Call.Mild (fun _ => True) (authorizeManagedOutputApply P m desired obs) := by
  cases obs with
  | unclaimedOutputAbsent => trivial
  | unclaimedOutputForeign o => trivial
  | pendingOutputAbsent claim => trivial
  | confirmedOutputMatched o => trivial
  | pendingOutputMatched o =>
    refine (always_mild_confirm P o.name o.uid).bind ?_
    rintro ⟨m', err | ⟨⟩⟩ - <;> trivial
  | _ =>
    refine always_mild_clear.bind ?_
    rintro ⟨m', err | ⟨⟩⟩ - <;> trivial

/-- What an authorization has established: an absent slot, with the pending claim for it or
without a record, or the binding's own object. -/
def Authorized (S : Setting) (s : Scene) (m : Binding) (name : GoString)
    (obs : ManagedOutputObservation) : Option ClusterSPIFFEID → Prop
  | some o => Owned S s m o
  | none =>
    (∃ claim, obs = .pendingOutputAbsent claim ∧ m.record = (some ⟨name, claim⟩, none)) ∨
    ((∀ claim, obs ≠ .pendingOutputAbsent claim) ∧ m.record = unrecorded ∧ ReadAbsent s.log name)

theorem safe_authorize (hinv : Inv S s.world) (h : Held S s.world m True True)
    {desired : ClusterSPIFFEID} (hdesired : desired.name ≠ [])
    (hname : recordedClusterSPIFFEIDName m.status = [] ∨
      recordedClusterSPIFFEIDName m.status = desired.name)
    {obs : ManagedOutputObservation} (hobs : Observed S s m desired.name obs) :
    (operatorProtocol r S).Safe (authorizeManagedOutputApply P m desired obs)
      (Handing S m True fun m' found s' =>
        Held S s'.world m' True True ∧ Authorized S s' m' desired.name obs found) s := by
  cases obs with
  | unclaimedOutputAbsent =>
    exact ⟨.refl m, h, Or.inr ⟨by simp, hobs.1, hobs.2 hdesired⟩⟩
  | unclaimedOutputForeign o => exact ⟨.refl m, h.mono False.elim id⟩
  | pendingOutputAbsent claim =>
    obtain ⟨-, p, rfl, hne, hrecord⟩ := hobs
    have hpname : p.name = desired.name := by
      rw [recordedName_pending hrecord] at hname
      exact hname.resolve_left hne
    exact ⟨.refl m, h, Or.inl ⟨_, rfl, by rw [hrecord, ← hpname]⟩⟩
  | confirmedOutputMatched o => exact ⟨.refl m, h, hobs⟩
  | pendingOutputMatched o =>
    obtain ⟨hversion, p, hpname, hconfirm⟩ := hobs
    refine (safe_grows (safe_confirm hinv h hpname hconfirm) hinv).bind hinv ?_
    rintro ⟨m₁, err | ⟨⟩⟩ s₁ - ⟨⟨hm₁, h₁⟩, hgrows, -⟩
    · exact ⟨hm₁, h₁⟩
    · refine ⟨hm₁, h₁.1, h₁.2, hgrows.objectVersions hversion, fun hh => ?_⟩
      rw [hm₁.uid]
      exact hgrows.created (hconfirm.created hh)
  | confirmedOutputAbsent =>
    obtain ⟨hgone, hne, hread⟩ := hobs
    refine (safe_grows (safe_clear hinv h fun _ => hgone) hinv).bind hinv ?_
    rintro ⟨m₁, err | ⟨⟩⟩ s₁ - ⟨⟨hm₁, h₁⟩, -, hlog⟩
    · exact ⟨hm₁, h₁⟩
    · refine ⟨hm₁, h₁.1.mono id fun _ => Or.inl trivial, Or.inr ⟨by simp, h₁.2, ?_⟩⟩
      rw [hname.resolve_left hne] at hread
      exact hread.mono hlog
  | _ =>
    -- a foreign object under the recorded name: the record goes, and nothing is applied
    refine (safe_clear hinv h fun _ => hobs).bind hinv ?_
    rintro ⟨m₁, err | ⟨⟩⟩ s₁ - ⟨hm₁, h₁⟩
    · exact ⟨hm₁, h₁⟩
    · exact ⟨hm₁, h₁.1.mono False.elim Or.inl⟩

/-! ## Reservation -/

theorem always_mild_reserve (name : GoString) :
    Always Call.Mild (fun _ => True) (reserveClusterSPIFFEIDClaim P m name) := by
  rw [reserveClusterSPIFFEIDClaim]
  split
  · trivial
  · refine (Always.perform (c := Call.newUUID m.uid) trivial).bind ?_
    intro claim _
    refine Always.bind (Q := fun _ => True) ?_ ?_
    · refine (Always.perform (c := Call.patchBindingStatus .ownership m _) trivial).bind ?_
      rintro (err | target) - <;> trivial
    · rintro ⟨m', err | ⟨⟩⟩ - <;> trivial
  · trivial

/-- What a reservation rests on. -/
structure Reservable (S : Setting) (s : Scene) (m : Binding) (name : GoString) : Prop where
  held : Held S s.world m True True
  prepared : Prepared S s.world m
  record : m.record = unrecorded
  read : ReadAbsent s.log name

theorem Reservable.carry {name : GoString} (h : Reservable S s m name) (hlog : s.log ⊆ s'.log)
    (hspares : Spares S m.uid s.world s'.world) : Reservable S s' m name :=
  ⟨h.held.spares hspares, h.prepared.spares hspares, h.record, h.read.mono hlog⟩

theorem Reservable.transfer {name claim : GoString} (h : Reservable S s m name)
    (hinv : Inv S s.world) (hgenerated : Generated s.log m.uid claim)
    (hclaim : (claim, m.uid) ∈ s.world.claims) :
    Transfer S s.log s.world m (reservedStatus m name claim) := by
  refine .reserve h.record h.read hgenerated hclaim (fun hc o ho => ?_) fun hc b hb huid => ?_
  · have hcovers := h.held.covered hc (Or.inl trivial) o ho
    rw [h.record] at hcovers
    exact not_covers_unrecorded o hcovers
  · obtain ⟨b', hb', huid', hfin⟩ := h.prepared.pinned hc
    rwa [hinv.history.binding_eq hb hb' (huid.trans huid'.symm)]

theorem safe_reserve (hinv : Inv S s.world) {name : GoString} (h : Reservable S s m name) :
    (operatorProtocol r S).Safe (reserveClusterSPIFFEIDClaim P m name)
      (Handing S m True fun m' claim s' =>
        Held S s'.world m' True True ∧ m'.record = (some ⟨name, claim⟩, none)) s := by
  have hlag : Continues m m ∧ Held S s.world m False True := ⟨.refl m, h.held.mono False.elim id⟩
  rw [reserveClusterSPIFFEIDClaim]
  split
  · exact hlag
  · have hstable : (operatorProtocol r S).Stable fun s => Reservable S s m name := fun hinv h henv =>
      h.carry (subset_of_env henv) (spares_of_env hinv h.held.based henv)
    refine (Safe.perform (c := Call.newUUID m.uid)
      (Q := fun (claim : GoString) s' => Reservable S s' m name ∧
        Generated s'.log m.uid claim ∧ (claim, m.uid) ∈ s'.world.claims) hstable hinv h ?_).bind hinv ?_
    · intro s₁ hinv₁ (h₁ : Reservable S s₁ m name)
      refine ⟨h₁.held.based.known hinv₁.history, fun claim s₂ hapi _ => ?_⟩
      obtain ⟨hworld, -⟩ := hapi.newUUID
      refine ⟨h₁.carry hapi.log_subset ?_, hapi.mem_log, ?_⟩ <;> rw [hworld]
      · exact Spares.issueClaim S m.uid s₁.world claim m.uid
      · exact List.mem_cons_self
    · intro claim s₁ hinv₁ h₁
      have hstable' : (operatorProtocol r S).Stable fun s => Inv S s.world ∧
          Reservable S s m name ∧ Generated s.log m.uid claim ∧ (claim, m.uid) ∈ s.world.claims := by
        intro s s' hinv h henv
        exact ⟨(henv.2 hinv).1, hstable hinv h.2.1 henv, subset_of_env henv h.2.2.1,
          (henv.2 hinv).2.1.claims h.2.2.2⟩
      refine (safe_patchOwnershipStatus True True hstable' hinv₁ ⟨hinv₁, h₁⟩ ?_).bind hinv₁ ?_
      · exact fun ⟨hinv, h, hgenerated, hclaim⟩ => ⟨h.held, h.transfer hinv hgenerated hclaim⟩
      · rintro ⟨m', err | ⟨⟩⟩ s₂ - ⟨hm', h₂⟩
        · exact ⟨hm', h₂⟩
        · refine ⟨hm', h₂.1, ?_⟩
          rw [Binding.record, h₂.2]
          rfl
  · exact hlag

end

/-! ## Creation -/

section

variable {o : ClusterSPIFFEID}

/-- The contract of a create, from a pending record for the object. -/
theorem Held.creation (h : Held S s.world m True True) (hinv : Inv S s.world)
    (hprepared : Prepared S s.world m)
    (hrecord : m.record = (some ⟨o.name, clusterSPIFFEIDOwnershipClaim o⟩, none))
    (hrenders : o.Renders m.boundary) : Creation S s.world m.uid o where
  known := h.based.known hinv.history
  claimed := fun hh => (h.based.authentic hinv hh).1 _ (Prod.mk.inj hrecord).1
  covered := by
    intro hc o' ho'
    have hcovers := h.covered hc (Or.inl trivial) o' ho'
    rw [hrecord, covers_pending] at hcovers
    exact hcovers.1
  recorded := by
    intro hc b hb huid
    rcases h.abreast hc.tidy trivial b hb huid with hsame | ⟨hdeleting, -, -, hcase⟩
    · exact Or.inl (hsame.trans hrecord)
    · rcases hcase hc with ⟨hstrict, hnone⟩ | hoccupied
      · exact Or.inr (Or.inl ⟨hstrict, hdeleting, hnone⟩)
      · obtain ⟨x, hx, hname, -⟩ := hoccupied _ (Prod.mk.inj hrecord).1
        exact Or.inr (Or.inr ⟨x, hx.1, hname⟩)
  stored := by
    intro hstrict
    obtain ⟨b, hb, huid, -⟩ := hprepared.pinned hstrict.closed
    exact ⟨b, hb, huid⟩
  cleared := by
    intro hv
    obtain ⟨v, hversion, hcopy, -⟩ := h.based
    have hvu : v.uid = m.uid := by rw [hcopy]
    have hvk : v.key = m.key := by rw [hcopy]
    refine ⟨m.boundary, hrenders, fun b hb huid => ?_, hprepared.clear hv⟩
    rw [hinv.history.binding_key b hb v hversion (huid.trans hvu.symm), hvk]
    rfl

/-- A create for a copy with the pending record takes nothing from it. -/
theorem Held.created {sharp firm : Prop} (h : Held S s.world m sharp firm) (hinv : Inv S s.world)
    (hrecord : m.record = (some ⟨o.name, clusterSPIFFEIDOwnershipClaim o⟩, none))
    {a : Except GoError ClusterSPIFFEID}
    (hapi : Answered S (.createClusterSPIFFEID m.uid o) s a s') :
    Held S s'.world m sharp firm := by
  obtain ⟨fresh, hfresh, heffect⟩ := hapi.effect
  have hgrows := hapi.grows
  generalize s'.world = w' at heffect hgrows ⊢
  cases heffect with
  | none => exact h
  | create habsent =>
    have hfree := Store.get_eq_none.mp habsent
    refine ⟨h.based.grows hgrows, fun ht hs b hb huid => ?_, h.resolved, fun hc hcase x hx => ?_,
      fun ht b hb hkey huid => ?_⟩
    · rcases h.abreast ht hs b hb huid with hsame | ⟨hdel, hne, hnone, hcase⟩
      · exact Or.inl hsame
      · refine Or.inr ⟨hdel, hne, hnone, fun hc => (hcase hc).imp id fun hoccupied p hp => ?_⟩
        obtain ⟨x, hx, hname, hterm⟩ := hoccupied p hp
        exact ⟨x, ⟨Store.mem_put.mpr (Or.inr ⟨hx.1, hfree x hx.1⟩),
          List.mem_cons_of_mem _ hx.2⟩, hname, hterm⟩
    · rcases output_create hinv.history hfresh.2 hx with ⟨rfl, -⟩ | hx
      · rw [hrecord]
        exact covers_pending.mpr ⟨rfl, rfl⟩
      · exact h.covered hc hcase x hx
    · obtain ⟨hnone, hfree⟩ := h.sole ht b hb hkey huid
      refine ⟨hnone, fun hc x hx => ?_⟩
      rcases output_create hinv.history hfresh.2 hx with ⟨-, hu⟩ | hx
      · exact huid hu
      · exact hfree hc x hx

/-- The object that was just created can be confirmed. -/
theorem confirmable_created {created : ClusterSPIFFEID}
    (hrecord : m.record = (some ⟨o.name, clusterSPIFFEIDOwnershipClaim o⟩, none))
    (hapi : Answered S (.createClusterSPIFFEID m.uid o) s
      (.ok created : Except GoError ClusterSPIFFEID) s') :
    created.name = o.name ∧
      Confirmable S s' m ⟨o.name, clusterSPIFFEIDOwnershipClaim o⟩ created.uid := by
  obtain ⟨fresh, -, -, hcreated, hworld⟩ := hapi.createClusterSPIFFEID
  have hcredited : (created.uid, m.uid) ∈ s'.world.created := by
    rw [hworld, hcreated]
    exact List.mem_cons_self
  have hname : created.name = o.name := by rw [hcreated]; rfl
  refine ⟨hname, hrecord, ⟨created, hname, ?_, rfl, Or.inr ⟨o, hapi.mem_log⟩⟩,
    fun _ => hcredited, fun _ _ _ _ _ => ⟨created, ⟨?_, hcredited⟩, hname, rfl, ?_⟩⟩
  · rw [hcreated]
    rfl
  · rw [hworld, hcreated]
    exact Store.mem_put.mpr (Or.inl rfl)
  · rw [hcreated]
    rfl

end

/-- What an applied output leaves: the binding owns it, and the status shows its identity. -/
def Applied (S : Setting) (identity : Plan) (m : Binding) (status : RenderedClusterSPIFFEIDStatus)
    (s : Scene) : Prop :=
  Held S s.world m True True ∧ m.status.pendingClusterSPIFFEID = none ∧ m.record ≠ unrecorded ∧
    status.spiffeID = identity.spiffeID

section

variable {P : Platform} {identity : Plan} {desired : ClusterSPIFFEID}

theorem safe_submit (hinv : Inv S s.world) (h : Held S s.world m True True)
    (hprepared : Prepared S s.world m) {claim : GoString}
    (hrecord : m.record = (some ⟨desired.name, claim⟩, none))
    (hrenders : desired.Renders m.boundary) :
    (operatorProtocol r S).Safe (submitManagedClusterSPIFFEID P m identity desired claim)
      (Handing S m True fun m' status s' => Applied S identity m' status s') s := by
  have hclaimed : m.record = (some ⟨(setClusterSPIFFEIDOwnershipClaim desired claim).name,
      clusterSPIFFEIDOwnershipClaim (setClusterSPIFFEIDOwnershipClaim desired claim)⟩, none) := by
    rw [clusterSPIFFEIDOwnershipClaim_set]
    exact hrecord
  have hstable : (operatorProtocol r S).Stable
      fun s => Held S s.world m True True ∧ Prepared S s.world m := by
    intro s s' hinv h henv
    have hspares := spares_of_env hinv h.1.based henv
    exact ⟨h.1.spares hspares, h.2.spares hspares⟩
  refine (Safe.perform (c := Call.createClusterSPIFFEID m.uid
      (setClusterSPIFFEIDOwnershipClaim desired claim))
    (Q := fun a s' => Held S s'.world m True True ∧ ∀ created, a = .ok created →
      created.name = desired.name ∧ Confirmable S s' m ⟨desired.name, claim⟩ created.uid)
    hstable hinv ⟨h, hprepared⟩ ?_).bind hinv ?_
  · intro s₁ hinv₁ ⟨h₁, hprepared₁⟩
    refine ⟨h₁.creation hinv₁ hprepared₁ hclaimed hrenders, fun a s₂ hapi _ => ?_⟩
    refine ⟨h₁.created hinv₁ hclaimed hapi, ?_⟩
    rintro created rfl
    have hconfirmable := confirmable_created hclaimed hapi
    rwa [clusterSPIFFEIDOwnershipClaim_set] at hconfirmable
  · rintro (err | object) s₁ hinv₁ ⟨h₁, hcreated⟩
    · dsimp only
      split_ifs <;> exact ⟨.refl m, h₁.mono False.elim id⟩
    · dsimp only
      split_ifs
      · exact ⟨.refl m, h₁.mono False.elim id⟩
      · obtain ⟨hname, hconfirmable⟩ := hcreated object rfl
        refine (safe_confirm hinv₁ h₁ hname hconfirmable).bind hinv₁ ?_
        rintro ⟨m', err | ⟨⟩⟩ s₂ - ⟨hm', h₂⟩
        · exact ⟨hm', h₂⟩
        · refine ⟨hm', h₂.1, (Prod.mk.inj h₂.2).1, ?_, rfl⟩
          simp [h₂.2, unrecorded]

theorem safe_createManaged (hinv : Inv S s.world) (h : Held S s.world m True True)
    (hprepared : Prepared S s.world m) (hrenders : desired.Renders m.boundary)
    {obs : ManagedOutputObservation} (hauthorized : Authorized S s m desired.name obs none) :
    (operatorProtocol r S).Safe (createManagedClusterSPIFFEID P m identity desired obs)
      (Handing S m True fun m' status s' => Applied S identity m' status s') s := by
  rcases hauthorized with ⟨claim, rfl, hrecord⟩ | ⟨hobs, hrecord, hread⟩
  · exact safe_submit hinv h hprepared hrecord hrenders
  · have hreserve := frame_prepared (always_mild_reserve desired.name)
      (safe_reserve (r := r) (P := P) hinv ⟨h, hprepared, hrecord, hread⟩) hinv h.based hprepared
    cases obs with
    | pendingOutputAbsent claim => exact absurd rfl (hobs claim)
    | _ =>
      refine hreserve.bind hinv ?_
      rintro ⟨m₁, err | claim⟩ s₁ hinv₁ ⟨⟨hm₁, h₁⟩, hprepared₁⟩
      · exact ⟨hm₁, h₁⟩
      · have hboundary : m₁.boundary = m.boundary := by rw [hm₁]; rfl
        refine (safe_submit hinv₁ h₁.1 (hprepared₁.continues hm₁) h₁.2
          (hboundary ▸ hrenders)).mono hinv₁ ?_
        rintro ⟨m₂, err | status⟩ s₂ - ⟨hm₂, h₂⟩ <;> exact ⟨hm₁.trans hm₂, h₂⟩

/-! ## Updates -/

/-- The contract of an update of the binding's own object. -/
theorem Owned.objectUpdate {current : ClusterSPIFFEID} (P : Platform) (key : NamespacedName)
    (className : GoString) (h : Owned S s m current) (hheld : Held S s.world m True True)
    (hinv : Inv S s.world)
    (hprepared : Prepared S s.world m) (hrendered : Rendered r m identity) :
    ObjectUpdate S s.world m.uid (mergeDesiredClusterSPIFFEID current
      (desiredClusterSPIFFEID P key identity className)) where
  version := ⟨current, h.version, rfl, rfl, rfl⟩
  created := h.created
  cleared := by
    intro hv
    obtain ⟨v, hversion, hcopy, -⟩ := hheld.based
    have hvu : v.uid = m.uid := by rw [hcopy]
    have hvk : v.key = m.key := by rw [hcopy]
    refine ⟨m.boundary, hrendered.renders (mergeDesired_spec current P key className),
      fun b hb huid => ?_, hprepared.clear hv⟩
    rw [hinv.history.binding_key b hb v hversion (huid.trans hvu.symm), hvk]
    rfl

/-- An update leaves what records name. -/
theorem Held.updated {object : ClusterSPIFFEID} {owner : GoString}
    (h : Held S s.world m True True) (hinv : Inv S s.world)
    (hpending : m.status.pendingClusterSPIFFEID = none)
    (hguard : ObjectUpdate S s.world owner object) {a : Except GoError ClusterSPIFFEID}
    (hapi : Answered S (.updateClusterSPIFFEID owner object) s a s') :
    Held S s'.world m True True := by
  obtain ⟨fresh, -, heffect⟩ := hapi.effect
  have hgrows := hapi.grows
  generalize s'.world = w' at heffect hgrows ⊢
  cases heffect with
  | none => exact h
  | @updateObject _ _ _ stored _ hstored hversion huid =>
    obtain ⟨hmem, hname⟩ := Store.get_eq_some.mp hstored
    refine h.of_bindings hgrows rfl hpending fun _ u x hx => ?_
    rcases output_saveObject hx with ⟨rfl, hcreated⟩ | ⟨hx, -⟩
    · obtain ⟨v, hv, hvv, -, hclaim⟩ := hguard.version
      obtain rfl := hinv.history.object_inj v hv stored (hinv.history.object_mem stored hmem)
        (hvv.trans hversion.symm)
      refine ⟨v, ⟨hmem, ?_⟩, hname, huid, hclaim⟩
      rw [huid]
      exact hcreated
    · exact ⟨x, hx, rfl, rfl, rfl⟩

theorem safe_updateManaged (hinv : Inv S s.world) (h : Held S s.world m True True)
    (hprepared : Prepared S s.world m) (hrendered : Rendered r m identity)
    {current : ClusterSPIFFEID} (howned : Owned S s m current) (key : NamespacedName)
    (className : GoString) :
    (operatorProtocol r S).Safe (updateManagedClusterSPIFFEID P m.uid identity current
        (desiredClusterSPIFFEID P key identity className))
      (fun result s' => Held S s'.world m True True ∧
        ∀ status, result = .ok status → status.spiffeID = identity.spiffeID) s := by
  have hstable : (operatorProtocol r S).Stable fun s =>
      Held S s.world m True True ∧ Prepared S s.world m ∧ Owned S s m current := by
    intro s s' hinv h henv
    have hspares := spares_of_env hinv h.1.based henv
    exact ⟨h.1.spares hspares, h.2.1.spares hspares, h.2.2.carry hspares⟩
  rw [updateManagedClusterSPIFFEID]
  split_ifs
  · refine ⟨h, ?_⟩
    rintro status ⟨⟩
    rfl
  · refine (Safe.perform (c := Call.updateClusterSPIFFEID m.uid (mergeDesiredClusterSPIFFEID current
        (desiredClusterSPIFFEID P key identity className)))
      (Q := fun _ s' => Held S s'.world m True True) hstable hinv ⟨h, hprepared, howned⟩ ?_).bind
      hinv ?_
    · intro s₁ hinv₁ ⟨h₁, hprepared₁, howned₁⟩
      have hguard := howned₁.objectUpdate P key className h₁ hinv₁ hprepared₁ hrendered
      exact ⟨hguard, fun a s₂ hapi _ =>
        h₁.updated hinv₁ (Prod.mk.inj howned.record).1 hguard hapi⟩
    · rintro (err | updated) s₁ - h₁
      · exact ⟨h₁, by simp⟩
      · refine ⟨h₁, ?_⟩
        rintro status ⟨⟩
        rfl

/-! ## The whole of it -/

theorem safe_reconcileClusterSPIFFEID (hinv : Inv S s.world) (h : Held S s.world m True True)
    (hprepared : Prepared S s.world m) (hrendered : Rendered r m identity) (className : GoString)
    (hname : recordedClusterSPIFFEIDName m.status = [] ∨
      recordedClusterSPIFFEIDName m.status = desiredName P m.key identity) :
    (operatorProtocol r S).Safe (reconcileClusterSPIFFEID P m identity
        (desiredClusterSPIFFEID P m.key identity className))
      (Handing S m True fun m' status s' => Applied S identity m' status s') s := by
  have hobserve : Always Call.Mild (fun _ => True)
      (observeManagedClusterSPIFFEID m (desiredName P m.key identity)) :=
    always_observe (allows_mild m) _
  refine (frame_prepared hobserve (safe_observe hinv h _) hinv h.based hprepared).bind hinv ?_
  rintro (err | obs) s₁ hinv₁ ⟨hobs, hprepared₁⟩
  · exact ⟨.refl m, Held.mono hobs False.elim id⟩
  obtain ⟨h₁, hobs⟩ := hobs
  refine (frame_prepared (always_mild_authorize _ obs) (safe_authorize hinv₁ h₁
    (desiredName_ne_nil P m.key identity) hname hobs) hinv₁ h₁.based hprepared₁).bind hinv₁ ?_
  rintro ⟨m₂, err | _ | current⟩ s₂ hinv₂ ⟨⟨hm₂, h₂⟩, hprepared₂⟩
  · exact ⟨hm₂, h₂⟩
  · have hboundary : m₂.boundary = m.boundary := by rw [hm₂]; rfl
    refine (safe_createManaged hinv₂ h₂.1 (hprepared₂.continues hm₂) ?_ h₂.2).mono hinv₂ ?_
    · rw [hboundary]
      exact hrendered.renders rfl
    · rintro ⟨m₃, err | status⟩ s₃ - ⟨hm₃, h₃⟩ <;> exact ⟨hm₂.trans hm₃, h₃⟩
  · have hrendered₂ : Rendered r m₂ identity := by rw [hm₂]; exact hrendered
    have howned : Owned S s₂ m₂ current := h₂.2
    refine (safe_updateManaged hinv₂ h₂.1 (hprepared₂.continues hm₂) hrendered₂ howned _ _).bind
      hinv₂ ?_
    rintro (err | status) s₃ - ⟨h₃, hstatus⟩
    · exact ⟨hm₂, h₃.mono False.elim id⟩
    · refine ⟨hm₂, h₃, (Prod.mk.inj howned.record).1, ?_, hstatus status rfl⟩
      simp [howned.record, unrecorded]

/-- A binding has one identity, and so one output. -/
theorem safe_reconcileClusterSPIFFEIDs (hinv : Inv S s.world) (h : Held S s.world m True True)
    (hprepared : Prepared S s.world m) (hrendered : Rendered r m identity) (className : GoString)
    (hname : recordedClusterSPIFFEIDName m.status = [] ∨
      recordedClusterSPIFFEIDName m.status = desiredName P m.key identity) :
    (operatorProtocol r S).Safe (reconcileClusterSPIFFEIDs P className [identity] m)
      (Handing S m True fun m' statuses s' =>
        ∃ status, statuses = [status] ∧ Applied S identity m' status s') s := by
  refine (safe_reconcileClusterSPIFFEID hinv h hprepared hrendered className hname).bind hinv ?_
  rintro ⟨m₁, err | status⟩ s₁ - ⟨hm₁, h₁⟩
  · exact ⟨hm₁, h₁⟩
  · exact ⟨hm₁, status, rfl, h₁⟩

end

end Kleym
