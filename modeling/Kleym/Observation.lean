import Kleym.Answers
import Kleym.Bounds

/-!
# Observing what a binding owns

`observeManagedClusterSPIFFEID` reads the object a record names. What follows from its
verdict, `Observed`, is what every later step on the record rests on: which record the
binding has, what was read, and in a closed setting whether the binding has an output.
-/

namespace Kleym

open GoString Prog Protocol

variable {r : Reconciler} {S : Setting} {s s' : Scene} {m : Binding} {sharp firm : Prop}

/-! ## Stability -/

/-- Others spare every binding a reconcile holds a copy of. -/
theorem spares_of_env (hinv : Inv S s.world) (hm : Based S s.world m)
    (henv : (operatorProtocol r S).env s s') : Spares S m.uid s.world s'.world :=
  (henv.2 hinv).2.2.1 m.uid (hm.known hinv.history)

theorem stable_held : (operatorProtocol r S).Stable fun s => Held S s.world m sharp firm :=
  fun hinv h henv => h.spares (spares_of_env hinv h.based henv)

theorem stable_based : (operatorProtocol r S).Stable fun s => Based S s.world m :=
  fun hinv h henv => h.grows (henv.2 hinv).2.1.toGrows

/-! ## Records -/

/-- What a record that is well formed stands for. -/
theorem managedOutputRecord_ok {status : Status} {record : ManagedOutputRecord}
    (h : managedOutputRecordFromStatus status = .ok record) :
    (record = .unclaimed ∧ status.record = unrecorded) ∨
    (∃ p, record = .pending p.name p.claimID ∧ status.record = (some p, none) ∧ p.name ≠ []) ∨
    ∃ q, record = .confirmed q.name q.uid ∧ status.record = (none, some q) ∧ q.name ≠ [] := by
  rw [Status.record]
  unfold managedOutputRecordFromStatus at h
  rcases hp : status.pendingClusterSPIFFEID with _ | p <;>
    rcases ho : status.ownedClusterSPIFFEID with _ | q <;> simp only [hp, ho] at h
  · cases h
    exact Or.inl ⟨rfl, rfl⟩
  · split_ifs at h with hblank
    cases h
    refine Or.inr (Or.inr ⟨q, rfl, rfl, fun hnil => hblank (Or.inl ?_)⟩)
    rw [hnil]
    rfl
  · split_ifs at h with hblank
    cases h
    refine Or.inr (Or.inl ⟨p, rfl, rfl, fun hnil => hblank (Or.inl ?_)⟩)
    rw [hnil]
    rfl
  · cases h

theorem recordedName_pending {status : Status} {p : PendingClusterSPIFFEIDStatus}
    (h : status.record = (some p, none)) : recordedClusterSPIFFEIDName status = p.name := by
  rw [Status.record, Prod.mk.injEq] at h
  simp [recordedClusterSPIFFEIDName, h.1, h.2]

theorem recordedName_owned {status : Status} {q : OwnedClusterSPIFFEIDStatus}
    (h : status.record = (none, some q)) : recordedClusterSPIFFEIDName status = q.name := by
  rw [Status.record, Prod.mk.injEq] at h
  simp [recordedClusterSPIFFEIDName, h.1, h.2]

theorem recordedName_unrecorded {status : Status} (h : status.record = unrecorded) :
    recordedClusterSPIFFEIDName status = [] := by
  rw [Status.record, unrecorded, Prod.mk.injEq] at h
  simp [recordedClusterSPIFFEIDName, h.1, h.2]

/-- What an authentic record names was generated or created for the binding. -/
theorem Based.authentic (h : Based S s.world m) (hinv : Inv S s.world) (hh : S.Honest) :
    (∀ p ∈ m.status.pendingClusterSPIFFEID, (p.claimID, m.uid) ∈ s.world.claims) ∧
      ∀ q ∈ m.status.ownedClusterSPIFFEID, (q.uid, m.uid) ∈ s.world.created := by
  obtain ⟨v, hv, hcopy, hrecord, -⟩ := h
  have huid : v.uid = m.uid := by rw [hcopy]
  obtain ⟨hp, ho⟩ := record_eq_iff.mp hrecord
  rw [← hp, ← ho, ← huid]
  exact ⟨(hinv.authentic hh).pending v hv, (hinv.authentic hh).owned v hv⟩

/-! ## Observations -/

/-- The recorded incarnation is gone. -/
structure Gone (S : Setting) (s : Scene) (m : Binding) : Prop where
  record : m.record ≠ unrecorded
  vanished : Vanished s.log m.status
  free : S.Closed → ∀ o, ¬s.world.Output m.uid o

/-- The object of a pending claim is there, with this UID. -/
structure Confirmable (S : Setting) (s : Scene) (m : Binding)
    (p : PendingClusterSPIFFEIDStatus) (uid : GoString) : Prop where
  record : m.record = (some p, none)
  sighted : Sighted s.log m.uid p uid
  created : S.Honest → (uid, m.uid) ∈ s.world.created
  live : S.Closed → ∀ b ∈ s.world.bindings.entries, b.uid = m.uid → b.record = m.record →
    ∃ o, s.world.Output m.uid o ∧ o.name = p.name ∧ o.uid = uid ∧ o.terminating = false

/-- The confirmed object is there. -/
structure Owned (S : Setting) (s : Scene) (m : Binding) (o : ClusterSPIFFEID) : Prop where
  record : m.record = (none, some ⟨o.name, o.uid⟩)
  version : o ∈ s.world.objectVersions
  created : S.Honest → (o.uid, m.uid) ∈ s.world.created

/-- What follows from an observation, with `name` looked up for a binding without record. -/
def Observed (S : Setting) (s : Scene) (m : Binding) (name : GoString) :
    ManagedOutputObservation → Prop
  | .unclaimedOutputAbsent => m.record = unrecorded ∧ (name ≠ [] → ReadAbsent s.log name)
  | .unclaimedOutputForeign _ => m.record = unrecorded
  | .pendingOutputAbsent claim =>
    Gone S s m ∧ ∃ p, p.claimID = claim ∧ p.name ≠ [] ∧ m.record = (some p, none)
  | .pendingOutputMatched o =>
    o ∈ s.world.objectVersions ∧ ∃ p, o.name = p.name ∧ Confirmable S s m p o.uid
  | .pendingOutputForeign _ => Gone S s m
  | .confirmedOutputAbsent =>
    Gone S s m ∧ recordedClusterSPIFFEIDName m.status ≠ [] ∧
      ReadAbsent s.log (recordedClusterSPIFFEIDName m.status)
  | .confirmedOutputMatched o => Owned S s m o
  | .confirmedOutputForeign _ _ => Gone S s m

section

variable (hlog : s.log ⊆ s'.log) (hspares : Spares S m.uid s.world s'.world)

include hspares

theorem Owned.carry {o : ClusterSPIFFEID} (h : Owned S s m o) : Owned S s' m o :=
  ⟨h.record, hspares.objectVersions h.version, fun hh => hspares.created (h.created hh)⟩

include hlog

theorem Gone.carry (h : Gone S s m) : Gone S s' m :=
  ⟨h.record, h.vanished.mono hlog, fun hc => not_output_calm (h.free hc) hc hspares.toCalm⟩

theorem Confirmable.carry {p : PendingClusterSPIFFEIDStatus} {uid : GoString}
    (h : Confirmable S s m p uid) : Confirmable S s' m p uid := by
  refine ⟨h.record, h.sighted.mono hlog, fun hh => hspares.created (h.created hh), ?_⟩
  intro hc b' hb' huid' hrecord'
  obtain ⟨b, hb, huid, hrecord, -⟩ := hspares.records hc.tidy b' hb' huid'
  obtain ⟨o, ho, hname, hu, hterm⟩ := h.live hc b hb huid (hrecord.trans hrecord')
  exact ⟨o, hspares.alive hc o ho hterm, hname, hu, hterm⟩

end

/-! ## The observation itself -/

theorem covers_pending {p : PendingClusterSPIFFEIDStatus} {o : ClusterSPIFFEID} :
    Covers (some p, none) o ↔
      o.name = p.name ∧ clusterSPIFFEIDOwnershipClaim o = p.claimID := by
  simp [Covers]

theorem covers_owned {q : OwnedClusterSPIFFEIDStatus} {o : ClusterSPIFFEID} :
    Covers (none, some q) o ↔ o.name = q.name ∧ o.uid = q.uid := by
  simp [Covers]

section

variable {p : PendingClusterSPIFFEIDStatus} {q : OwnedClusterSPIFFEIDStatus} {o : ClusterSPIFFEID}

theorem Held.covers (h : Held S s.world m sharp firm) (hc : S.Closed) (hrecord : m.record ≠ unrecorded)
    (ho : s.world.Output m.uid o) : Covers m.record o :=
  (h.firm_of_record hrecord).covered hc (Or.inl trivial) o ho

theorem Held.gone_pending_absent (h : Held S s.world m sharp firm) (hrecord : m.record = (some p, none))
    (hread : ReadAbsent s.log p.name)
    (habsent : S.Tidy → ∀ o ∈ s.world.objects.entries, o.name ≠ p.name) : Gone S s m := by
  have hne : m.record ≠ unrecorded := by simp [hrecord, unrecorded]
  refine ⟨hne, Or.inl (recordedName_pending hrecord ▸ hread), fun hc o ho => ?_⟩
  have hcovers := h.covers hc hne ho
  rw [hrecord, covers_pending] at hcovers
  exact habsent hc.tidy o ho.1 hcovers.1

theorem Held.gone_owned_absent (h : Held S s.world m sharp firm) (hrecord : m.record = (none, some q))
    (hread : ReadAbsent s.log q.name)
    (habsent : S.Tidy → ∀ o ∈ s.world.objects.entries, o.name ≠ q.name) : Gone S s m := by
  have hne : m.record ≠ unrecorded := by simp [hrecord, unrecorded]
  refine ⟨hne, Or.inl (recordedName_owned hrecord ▸ hread), fun hc o ho => ?_⟩
  have hcovers := h.covers hc hne ho
  rw [hrecord, covers_owned] at hcovers
  exact habsent hc.tidy o ho.1 hcovers.1

theorem Held.gone_pending_foreign (h : Held S s.world m sharp firm) (hrecord : m.record = (some p, none))
    (hread : ReadObject s.log p.name o) (hname : o.name = p.name)
    (hclaim : clusterSPIFFEIDOwnershipClaim o ≠ p.claimID)
    (hlive : S.Tidy → o ∈ s.world.objects.entries) : Gone S s m := by
  have hne : m.record ≠ unrecorded := by simp [hrecord, unrecorded]
  have hfields : m.status.pendingClusterSPIFFEID = some p ∧ m.status.ownedClusterSPIFFEID = none :=
    Prod.mk.inj hrecord
  refine ⟨hne, Or.inr ⟨o, recordedName_pending hrecord ▸ hread, ?_, ?_⟩, fun hc x hx => ?_⟩
  · rw [hfields.1]
    rintro p' hp'
    cases hp'
    exact hclaim
  · simp [hfields.2]
  · have hcovers := h.covers hc hne hx
    rw [hrecord, covers_pending] at hcovers
    rw [s.world.objects.eq_of_key_eq hx.1 (hlive hc.tidy) (hcovers.1.trans hname.symm)] at hcovers
    exact hclaim hcovers.2

theorem Held.gone_owned_foreign (h : Held S s.world m sharp firm) (hrecord : m.record = (none, some q))
    (hread : ReadObject s.log q.name o) (hname : o.name = q.name) (huid : o.uid ≠ q.uid)
    (hlive : S.Tidy → o ∈ s.world.objects.entries) : Gone S s m := by
  have hne : m.record ≠ unrecorded := by simp [hrecord, unrecorded]
  have hfields : m.status.pendingClusterSPIFFEID = none ∧ m.status.ownedClusterSPIFFEID = some q :=
    Prod.mk.inj hrecord
  refine ⟨hne, Or.inr ⟨o, recordedName_owned hrecord ▸ hread, ?_, ?_⟩, fun hc x hx => ?_⟩
  · simp [hfields.1]
  · rw [hfields.2]
    rintro q' hq'
    cases hq'
    exact huid
  · have hcovers := h.covers hc hne hx
    rw [hrecord, covers_owned] at hcovers
    rw [s.world.objects.eq_of_key_eq hx.1 (hlive hc.tidy) (hcovers.1.trans hname.symm)] at hcovers
    exact huid hcovers.2

/-- An object that carries the pending claim under the pending name is the binding's. -/
theorem Held.confirmable (h : Held S s.world m sharp firm) (hinv : Inv S s.world)
    (hrecord : m.record = (some p, none)) (hread : ReadObject s.log p.name o)
    (hname : o.name = p.name) (hclaim : clusterSPIFFEIDOwnershipClaim o = p.claimID)
    (hversion : o ∈ s.world.objectVersions) (hlive : S.Tidy → o ∈ s.world.objects.entries) :
    Confirmable S s m p o.uid := by
  have hpending : m.status.pendingClusterSPIFFEID = some p := (Prod.mk.inj hrecord).1
  have hcreated : S.Honest → (o.uid, m.uid) ∈ s.world.created := by
    intro hh
    refine (hinv.authentic hh).claimed o hversion m.uid ?_
    rw [hclaim]
    exact (h.based.authentic hinv hh).1 p hpending
  refine ⟨hrecord, ⟨o, hname, hclaim, rfl, Or.inl hread⟩, hcreated, ?_⟩
  intro hc b hb huid hbrecord
  have hout : s.world.Output m.uid o := ⟨hlive hc.tidy, hcreated hc.honest⟩
  refine ⟨o, hout, hname, rfl, (hinv.accounted hc).alive b hb ?_ o (huid ▸ hout)⟩
  rw [(record_eq_iff.mp hbrecord).1, hpending]
  simp

/-- The object of a confirmed record. -/
theorem Held.owned (h : Held S s.world m sharp firm) (hinv : Inv S s.world)
    (hrecord : m.record = (none, some q)) (hname : o.name = q.name) (huid : o.uid = q.uid)
    (hversion : o ∈ s.world.objectVersions) : Owned S s m o := by
  have howned : m.status.ownedClusterSPIFFEID = some q := (Prod.mk.inj hrecord).2
  refine ⟨by rw [hrecord, hname, huid], hversion, fun hh => ?_⟩
  rw [huid]
  exact (h.based.authentic hinv hh).2 q howned

end

/-- What the verdict on a read of the recorded name stands for. -/
theorem observed_classify (h : Held S s.world m sharp firm) (hinv : Inv S s.world)
    (name : GoString) {record : ManagedOutputRecord}
    (hrecord : managedOutputRecordFromStatus m.status = .ok record) :
    (ReadAbsent s.log (lookupName record name) →
      (S.Tidy → ∀ o ∈ s.world.objects.entries, o.name ≠ lookupName record name) →
      Observed S s m name (classifyManagedClusterSPIFFEID record none)) ∧
    ∀ o, ReadObject s.log (lookupName record name) o → o.name = lookupName record name →
      o ∈ s.world.objectVersions → (S.Tidy → o ∈ s.world.objects.entries) →
      Observed S s m name (classifyManagedClusterSPIFFEID record (some o)) := by
  rcases managedOutputRecord_ok hrecord with
    ⟨rfl, hm⟩ | ⟨p, rfl, hm, hne⟩ | ⟨q, rfl, hm, hne⟩
  · exact ⟨fun hread _ => ⟨hm, fun _ => hread⟩, fun o _ _ _ _ => hm⟩
  · refine ⟨fun hread habsent => ⟨h.gone_pending_absent hm hread habsent, p, rfl, hne, hm⟩, ?_⟩
    intro o hread hname hversion hlive
    rw [classifyManagedClusterSPIFFEID]
    split_ifs with hmatch
    · exact ⟨hversion, _, hname, h.confirmable hinv hm hread hname hmatch.2 hversion hlive⟩
    · exact h.gone_pending_foreign hm hread hname (fun hclaim => hmatch ⟨hname, hclaim⟩) hlive
  · have hname := recordedName_owned hm
    refine ⟨fun hread habsent =>
      ⟨h.gone_owned_absent hm hread habsent, hname ▸ hne, hname ▸ hread⟩, ?_⟩
    intro o hread hname hversion hlive
    rw [classifyManagedClusterSPIFFEID]
    split_ifs with hmatch
    · exact h.owned hinv hm hname hmatch.2 hversion
    · exact h.gone_owned_foreign hm hread hname (fun huid => hmatch ⟨hname, huid⟩) hlive

theorem safe_observe (hinv : Inv S s.world) (h : Held S s.world m sharp firm) (name : GoString) :
    (operatorProtocol r S).Safe (observeManagedClusterSPIFFEID m name)
      (Outcome (fun obs s' => Held S s'.world m sharp firm ∧ Observed S s' m name obs)
        fun _ s' => Held S s'.world m sharp firm) s := by
  rw [observeManagedClusterSPIFFEID]
  split
  · exact h
  · rename_i record hrecord
    split_ifs with hname
    · -- nothing is looked up: there is no record and no name
      rcases managedOutputRecord_ok hrecord with
        ⟨rfl, hm⟩ | ⟨p, rfl, -, hne⟩ | ⟨q, rfl, -, hne⟩
      · exact ⟨h, hm, fun hne => absurd hname hne⟩
      · exact absurd hname hne
      · exact absurd hname hne
    · refine (Safe.perform (c := Call.getClusterSPIFFEID (lookupName record name))
        (Q := fun a s' => Held S s'.world m sharp firm ∧ Inv S s'.world ∧
          (∀ err, a = .error err → err.kind = .notFound →
            Observed S s' m name (classifyManagedClusterSPIFFEID record none)) ∧
          ∀ o, a = .ok o → Observed S s' m name (classifyManagedClusterSPIFFEID record (some o)))
        stable_held hinv h ?_).bind hinv ?_
      · intro s₁ hinv₁ (h₁ : Held S s₁.world m sharp firm)
        refine ⟨trivial, fun a s₂ hapi hinv₂ => ?_⟩
        obtain ⟨hworld, hok, herror⟩ := hapi.getClusterSPIFFEID hinv₁
        rw [← hworld] at h₁ hok herror
        have hobserved := observed_classify h₁ hinv₂ name hrecord
        refine ⟨h₁, hinv₂, ?_, ?_⟩
        · rintro err rfl hkind
          exact hobserved.1 ⟨err, hapi.mem_log, hkind⟩ (herror err rfl hkind)
        · rintro o rfl
          obtain ⟨hoName, hversion, hlive⟩ := hok o rfl
          exact hobserved.2 o hapi.mem_log hoName hversion hlive
      · rintro (err | o) s₁ - ⟨h₁, -, herror, hok⟩
        · dsimp only
          split_ifs with hkind
          · exact ⟨h₁, herror err rfl hkind⟩
          · exact h₁
        · exact ⟨h₁, hok o rfl⟩

end Kleym
