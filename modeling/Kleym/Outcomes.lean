import Kleym.Metrics
import Kleym.Trial

/-!
# Every outcome counts once

A persisted status is classed in every run in which only the operator writes statuses: reads may
be old, reconciles may overlap, calls may fail after they took effect. The status functions set
all five conditions, so all it takes of the copy they start from is that no condition is in it
twice; and the copy came from a read, or from an earlier status function.

No state of the cluster is needed to follow this through a reconcile, only what it has been
answered so far. `outcomeProtocol` therefore has the log of a reconcile for its state. It also
has the terminal outcomes: what is recorded is the status of the binding that the call before was
answered with.
-/

namespace Kleym

open GoString Prog Protocol

variable {r : Reconciler} {S : Setting} {P : Platform} {m : Binding} {log : Log}

/-! ## The protocol -/

/-- The stored binding that a call is answered with. -/
def Call.persisted : (c : Call) → Answer c → Option Binding
  | .getBinding _, a => Except.toOption (a : Except GoError Binding)
  | .patchBindingStatus _ _ _, a => Except.toOption (a : Except GoError Binding)
  | _, _ => none

/-- The last call was answered with this binding. -/
def LastAnswer (log : Log) (b : Binding) : Prop :=
  ∃ e, log.getLast? = some e ∧ e.call.persisted e.answer = some b

/-- What a reconcile may expect of an answer. -/
def Trusted : (c : Call) → Answer c → Prop
  | .getBinding _, a => ∀ b, a = (.ok b : Except GoError Binding) → b.status.Classed
  | .updateBinding _, a => ∀ b, a = (.ok b : Except GoError Binding) → b.status.Classed
  | .patchBindingStatus .ordinary _ status, a =>
    ∀ b, a = (.ok b : Except GoError Binding) → b.status = status
  | .getPool gvk key, a => PoolAnswered gvk key a
  | _, _ => True

/-- What is asked of a call. -/
def Fit (log : Log) : Call → Prop
  | .patchBindingStatus .ordinary _ status => status.Classed
  | .patchBindingStatus .ownership base status =>
    status.Classed ∨ status.conditions = base.status.conditions
  | .recordTerminalOutcome status =>
    status.Classed ∧ status.Terminal ∧ ∃ b, LastAnswer log b ∧ b.status = status
  | _ => True

/-- A reconcile, as far as it can be followed by its log. -/
def outcomeProtocol : Protocol Call Answer Log where
  env log log' := log' = log
  api c log a log' := Trusted c a ∧ log' = log ++ [⟨c, a⟩]
  inv _ := True
  guard c log := Fit log c
  env_refl _ := rfl
  env_trans h h' := h'.trans h
  inv_env _ _ := trivial
  inv_api _ _ _ := trivial

theorem safe_answered {c : Call} {Q : Answer c → Log → Prop} (hc : Fit log c)
    (h : ∀ a, Trusted c a → Q a (log ++ [⟨c, a⟩])) :
    outcomeProtocol.Safe (perform c) Q log := by
  rintro _ rfl -
  refine ⟨hc, ?_⟩
  rintro a _ ⟨htrusted, rfl⟩ -
  exact h a htrusted

theorem lastAnswer_append (log : Log) {c : Call} {a : Answer c} {b : Binding}
    (h : c.persisted a = some b) : LastAnswer (log ++ [⟨c, a⟩]) b :=
  ⟨⟨c, a⟩, List.getLast?_concat, h⟩

/-- A program whose calls are fit and whose results are in `Q`, whatever came before. -/
def Says {α : Type} (Q : α → Prop) (p : Op α) : Prop :=
  ∀ log, outcomeProtocol.Safe p (fun a _ => Q a) log

namespace Says

variable {α β : Type} {Q : α → Prop} {Q' : β → Prop}

theorem ret {a : α} (h : Q a) : Says Q (.ret a : Op α) := fun _ => h

theorem bind {p : Op α} {f : α → Op β} (h : Says Q p) (hf : ∀ a, Q a → Says Q' (f a)) :
    Says Q' (p >>= f) :=
  fun log => (h log).bind trivial fun a log' _ ha => hf a ha log'

theorem mono {p : Op α} {V : α → Prop} (h : Says Q p) (hQ : ∀ a, Q a → V a) : Says V p :=
  fun log => (h log).mono trivial fun a _ _ => hQ a

theorem perform {c : Call} {Q : Answer c → Prop} (hc : ∀ log, Fit log c)
    (h : ∀ a, Trusted c a → Q a) : Says Q (Prog.perform c) := by
  intro log
  exact safe_answered (hc log) h

/-- A call that asks for nothing and of whose answer nothing is needed. -/
theorem plain {c : Call} (hc : ∀ log, Fit log c) : Says (fun _ => True) (Prog.perform c) :=
  perform hc fun _ _ => trivial

theorem of_always {p : Op α} (hp : Always (fun c => ∀ log, Fit log c) Q p) : Says Q p := by
  induction p with
  | ret a => exact ret hp
  | call c k ih =>
    rintro _ log rfl -
    exact ⟨hp.1 log, fun a log' _ _ => ih a (hp.2 a) log'⟩

theorem foldM {ε τ : Type} {step : τ → α → Op (Except ε τ)} (items : List α) (acc : τ)
    (h : ∀ a acc, Says (fun _ => True) (step acc a)) :
    Says (fun _ => True) (Prog.foldM step items acc) := by
  induction items generalizing acc with
  | nil => exact ret trivial
  | cons a items ih =>
    refine (h a acc).bind ?_
    rintro (e | acc') -
    · exact ret trivial
    · exact ih acc'

end Says

/-! ## Ownership -/

/-- The copy that comes back has the conditions it had. -/
def Keeps (m : Binding) {α : Type} (x : Binding × α) : Prop :=
  x.1.status.conditions = m.status.conditions

/-- No condition of the copy that comes back is in it twice. -/
def Unique {α : Type} (x : Binding × α) : Prop := x.1.status.UniqueTypes

theorem Keeps.unique {α : Type} {x : Binding × α} (h : Keeps m x) (hm : m.status.UniqueTypes) :
    Unique x := by
  rw [Unique, Status.UniqueTypes, h]
  exact hm

theorem says_patchOwnershipStatus {status : Status}
    (h : status.conditions = m.status.conditions) :
    Says (Keeps m) (patchOwnershipStatus m status) := by
  refine (Says.plain (c := .patchBindingStatus .ownership m status) fun _ => Or.inr h).bind ?_
  rintro (err | target) -
  · exact .ret rfl
  · exact .ret h

theorem says_confirm (name uid : GoString) :
    Says (Keeps m) (confirmClusterSPIFFEIDOwnership P m name uid) := by
  rw [confirmClusterSPIFFEIDOwnership]
  split_ifs
  · exact .ret rfl
  · exact says_patchOwnershipStatus rfl

theorem says_clear : Says (Keeps m) (clearClusterSPIFFEIDOwnership m) := by
  rw [clearClusterSPIFFEIDOwnership]
  split_ifs
  · exact .ret rfl
  · exact says_patchOwnershipStatus rfl

theorem says_observe (name : GoString) :
    Says (fun _ => True) (observeManagedClusterSPIFFEID m name) := by
  rw [observeManagedClusterSPIFFEID]
  split
  · exact .ret trivial
  · split_ifs
    · exact .ret trivial
    · refine (Says.plain (c := .getClusterSPIFFEID _) fun _ => trivial).bind ?_
      rintro (err | object) -
      · dsimp only
        split_ifs <;> exact .ret trivial
      · exact .ret trivial

theorem says_listManaged : Says (Keeps m) (listManagedClusterSPIFFEIDs P m) := by
  refine (says_observe []).bind ?_
  rintro (err | obs) -
  · exact .ret rfl
  cases obs with
  | pendingOutputMatched object =>
    refine (says_confirm object.name object.uid).bind ?_
    rintro ⟨m', err | ⟨⟩⟩ hm' <;> exact .ret hm'
  | confirmedOutputMatched object => exact .ret rfl
  | unclaimedOutputAbsent => exact .ret rfl
  | unclaimedOutputForeign object => exact .ret rfl
  | _ =>
    refine says_clear.bind ?_
    rintro ⟨m', err | ⟨⟩⟩ hm' <;> exact .ret hm'

theorem says_cleanupManaged : Says (Keeps m) (cleanupManagedClusterSPIFFEIDs P m) := by
  refine says_listManaged.bind ?_
  rintro ⟨m', err | objects⟩ hm'
  · exact .ret hm'
  · refine (Says.of_always (always_deleteManagedObjects (fun _ _ _ => trivial) objects)).bind ?_
    exact fun result _ => .ret hm'

theorem says_cleanupChanged (name : GoString) :
    Says (Keeps m) (cleanupChangedClusterSPIFFEIDName P m name) := by
  rw [cleanupChangedClusterSPIFFEIDName]
  split_ifs
  · exact .ret rfl
  refine says_cleanupManaged.bind ?_
  rintro ⟨m₁, err | ⟨⟩⟩ h₁
  · exact .ret h₁
  refine says_listManaged.bind ?_
  rintro ⟨m₂, err | _ | ⟨o, objects⟩⟩ h₂
  · exact .ret (h₂.trans h₁)
  · dsimp only
    split_ifs
    · refine says_clear.bind ?_
      rintro ⟨m₃, err | ⟨⟩⟩ h₃ <;> exact .ret (h₃.trans (h₂.trans h₁))
    · exact .ret (h₂.trans h₁)
  · exact .ret (h₂.trans h₁)

/-! ## Applying the output -/

theorem says_authorize (desired : ClusterSPIFFEID) (obs : ManagedOutputObservation) :
    Says (Keeps m) (authorizeManagedOutputApply P m desired obs) := by
  cases obs with
  | unclaimedOutputAbsent => exact .ret rfl
  | unclaimedOutputForeign o => exact .ret rfl
  | pendingOutputAbsent claim => exact .ret rfl
  | confirmedOutputMatched o => exact .ret rfl
  | pendingOutputMatched o =>
    refine (says_confirm o.name o.uid).bind ?_
    rintro ⟨m', err | ⟨⟩⟩ hm' <;> exact .ret hm'
  | _ =>
    refine says_clear.bind ?_
    rintro ⟨m', err | ⟨⟩⟩ hm' <;> exact .ret hm'

theorem says_submit (identity : Plan) (desired : ClusterSPIFFEID) (claim : GoString) :
    Says (Keeps m) (submitManagedClusterSPIFFEID P m identity desired claim) := by
  refine (Says.plain (c := .createClusterSPIFFEID _ _) fun _ => trivial).bind ?_
  rintro (err | object) -
  · dsimp only
    split_ifs <;> exact .ret rfl
  dsimp only
  split_ifs
  · exact .ret rfl
  · refine (says_confirm _ _).bind ?_
    rintro ⟨m₁, err | ⟨⟩⟩ h₁ <;> exact .ret h₁

/-- A reservation is the one ownership patch that sets conditions. -/
theorem says_reserve (h : m.status.UniqueTypes) (name : GoString) :
    Says Unique (reserveClusterSPIFFEIDClaim P m name) := by
  rw [reserveClusterSPIFFEIDClaim]
  split
  · exact .ret h
  · refine (Says.plain (c := .newUUID m.uid) fun _ => trivial).bind fun claim _ => ?_
    have hclassed : (reservedStatus m name claim).Classed :=
      ((consistent_applyWaiting h _).withRecord _ _).classed
    have hpatch : Says Unique (patchOwnershipStatus m (reservedStatus m name claim)) := by
      refine (Says.plain (c := .patchBindingStatus .ownership m _) fun _ => Or.inl hclassed).bind ?_
      rintro (err | target) -
      · exact .ret h
      · exact .ret hclassed.nodup
    refine hpatch.bind ?_
    rintro ⟨m₁, err | ⟨⟩⟩ h₁ <;> exact .ret h₁
  · exact .ret h

theorem says_create (h : m.status.UniqueTypes) (identity : Plan) (desired : ClusterSPIFFEID)
    (obs : ManagedOutputObservation) :
    Says Unique (createManagedClusterSPIFFEID P m identity desired obs) := by
  rw [createManagedClusterSPIFFEID.eq_def]
  split
  · exact (says_submit identity desired _).mono fun _ hx => hx.unique h
  · refine (says_reserve h desired.name).bind ?_
    rintro ⟨m₁, err | claim⟩ h₁
    · exact .ret h₁
    · exact (says_submit identity desired claim).mono fun _ hx => hx.unique h₁

theorem says_reconcileClusterSPIFFEID (h : m.status.UniqueTypes) (identity : Plan)
    (desired : ClusterSPIFFEID) :
    Says Unique (reconcileClusterSPIFFEID P m identity desired) := by
  refine (says_observe desired.name).bind ?_
  rintro (err | obs) -
  · exact .ret h
  refine (says_authorize desired obs).bind ?_
  rintro ⟨m₁, err | _ | current⟩ h₁
  · exact .ret (h₁.unique h)
  · exact says_create (h₁.unique h) identity desired obs
  · have hupdate : Says (fun _ => True)
        (updateManagedClusterSPIFFEID P m₁.uid identity current desired) := by
      rw [updateManagedClusterSPIFFEID]
      split_ifs
      · exact .ret trivial
      · refine (Says.plain (c := .updateClusterSPIFFEID _ _) fun _ => trivial).bind ?_
        rintro (err | updated) - <;> exact .ret trivial
    exact hupdate.bind fun _ _ => .ret (h₁.unique h)

theorem says_reconcileClusterSPIFFEIDs (className : GoString) (plans : List Plan)
    (h : m.status.UniqueTypes) : Says Unique (reconcileClusterSPIFFEIDs P className plans m) := by
  induction plans generalizing m with
  | nil => exact .ret h
  | cons plan plans ih =>
    refine (says_reconcileClusterSPIFFEID h plan _).bind ?_
    rintro ⟨m₁, err | status⟩ h₁
    · exact .ret h₁
    refine (ih h₁).bind ?_
    rintro ⟨m₂, err | statuses⟩ h₂ <;> exact .ret h₂

/-! ## Publishing -/

theorem Status.Is.congr {status status' : Status} {t : ConditionType} {value : ConditionStatus}
    (h : status.Is t value) (heq : status'.conditions = status.conditions) : status'.Is t value := by
  rw [Status.Is, Status.verdict, heq]
  exact h

/-- The status that a patch leaves in memory is that of the binding the call before was answered
with. -/
def Published (status : Status) (x : Binding × Except GoError Unit) (log : Log) : Prop :=
  x.2 = .ok () → x.1.status.conditions = status.conditions ∧
    ∃ b, LastAnswer log b ∧ b.status = x.1.status

theorem safe_patchStatusOnce_published {status : Status} (h : status.Classed) (log : Log) :
    outcomeProtocol.Safe (patchStatusOnce m status) (Published status) log := by
  refine (safe_answered (c := .getBinding m.key)
    (Q := fun a log' => ∀ latest, a = .ok latest → LastAnswer log' latest) trivial ?_).bind trivial ?_
  · rintro _ - latest rfl
    exact lastAnswer_append log rfl
  rintro (err | latest) log₁ - hlast
  · exact nofun
  dsimp only
  split_ifs with heq
  · exact fun _ => ⟨rfl, latest, hlast latest rfl, heq⟩
  · refine (safe_answered (c := .patchBindingStatus .ordinary latest (rebased latest status))
      (Q := fun a log' => ∀ updated, a = .ok updated →
        LastAnswer log' updated ∧ updated.status = rebased latest status)
      (h.congr rfl) ?_).bind trivial ?_
    · rintro _ htrusted updated rfl
      exact ⟨lastAnswer_append log₁ rfl, htrusted updated rfl⟩
    · rintro (err | updated) log₂ - hupdated
      · exact nofun
      · obtain ⟨hanswer, hstatus⟩ := hupdated updated rfl
        have hconditions : updated.status.conditions = status.conditions := by rw [hstatus]; rfl
        exact fun _ => ⟨hconditions, updated, hanswer, rfl⟩

theorem safe_patchStatusRetrying_published {status : Status} (h : status.Classed) (retries : ℕ)
    (log : Log) :
    outcomeProtocol.Safe (patchStatusRetrying m status retries) (Published status) log := by
  induction retries generalizing log with
  | zero => exact safe_patchStatusOnce_published h log
  | succ retries ih =>
    refine (safe_patchStatusOnce_published h log).bind trivial ?_
    rintro ⟨m', err | ⟨⟩⟩ log' - hpublished
    · dsimp only
      split_ifs
      · exact ih log'
      · exact nofun
    · exact hpublished

theorem says_patchStatus (h : m.status.Classed) : Says (fun _ => True) (patchStatus m) :=
  fun log => (safe_patchStatusRetrying_published h 4 log).mono trivial fun _ _ _ _ => trivial

/-- A terminal outcome is recorded with the status that was just answered. -/
theorem says_publishOutcome (h : m.status.Classed) (hterminal : m.status.Terminal) :
    Says (fun _ => True) (publishOutcome m) := by
  intro log
  refine (safe_patchStatusRetrying_published h 4 log).bind trivial ?_
  rintro ⟨m', err | ⟨⟩⟩ log' - hpublished
  · trivial
  obtain ⟨hconditions, hlast⟩ := hpublished rfl
  rintro _ rfl -
  refine ⟨⟨h.congr hconditions, ?_, hlast⟩, fun _ _ _ _ => trivial⟩
  exact hterminal.imp (·.congr hconditions) (·.congr hconditions)

theorem terminal_applyFailureStatus {status : Status} {generation : ℕ} {err : StateError}
    (h : err.Reportable) : (applyFailureStatus status generation err).Terminal := by
  have htype : err.conditionType ≠ .ready := by
    intro htype
    have := h.2
    rw [htype] at this
    cases this
  refine Or.inr ?_
  rw [Status.Is, verdict_applyFailureStatus status generation err htype, failureVerdicts,
    Function.update_of_ne htype.symm, Function.update_self]
  rfl

theorem says_reportApplyFailure {α : Type} (h : m.status.UniqueTypes) (err : GoError) :
    Says (fun _ => True) (reportApplyFailure m err : Op (Except GoError α)) := by
  have hreportable : (newManagedOutputApplyFailedStateError err).Reportable :=
    ⟨by simp [newManagedOutputApplyFailedStateError],
      by simp [newManagedOutputApplyFailedStateError, failureReasons]⟩
  refine (says_publishOutcome (consistent_applyFailureStatus h hreportable).classed
    (terminal_applyFailureStatus hreportable)).bind ?_
  rintro (statusErr | ⟨⟩) -
  · exact .ret trivial
  · exact (Says.plain (c := .recordEvent true _ _) fun _ => trivial).bind fun _ _ => .ret trivial

theorem says_settleStateError (h : m.status.UniqueTypes) {err : StateError}
    (herr : err.Reportable) : Says (fun _ => True) (r.settleStateError m err) := by
  have hcleanup : Says (Keeps m) (cleanupAfterStateError r.platform m) := by
    refine says_cleanupManaged.bind ?_
    rintro ⟨m₁, err | ⟨⟩⟩ h₁
    · exact .ret h₁
    refine says_listManaged.bind ?_
    rintro ⟨m₂, err | _ | ⟨o, objects⟩⟩ h₂
    · exact .ret (h₂.trans h₁)
    · exact says_clear.mono fun x hx => hx.trans (h₂.trans h₁)
    · exact .ret (h₂.trans h₁)
  have happly : Says (fun x => Unique x ∧ (x.2 = .ok () →
      x.1.status.Classed ∧ x.1.status.Terminal)) (applyStateError r.platform m err) := by
    have hfailure : ∀ {b : Binding}, b.status.UniqueTypes →
        (applyFailureStatus b.status b.generation err).Classed ∧
          (applyFailureStatus b.status b.generation err).Terminal :=
      fun hb => ⟨(consistent_applyFailureStatus hb herr).classed, terminal_applyFailureStatus herr⟩
    rw [applyStateError]
    split_ifs
    · refine hcleanup.bind ?_
      rintro ⟨m₁, err' | ⟨⟩⟩ h₁
      · exact .ret ⟨h₁.unique h, by rintro ⟨⟩⟩
      · exact .ret ⟨(hfailure (h₁.unique h)).1.nodup, fun _ => hfailure (h₁.unique h)⟩
    · exact .ret ⟨(hfailure h).1.nodup, fun _ => hfailure h⟩
  refine happly.bind ?_
  rintro ⟨m₁, err' | ⟨⟩⟩ ⟨hunique, hok⟩
  · exact says_reportApplyFailure hunique err'
  refine (says_publishOutcome (hok rfl).1 (hok rfl).2).bind ?_
  rintro (err' | ⟨⟩) -
  · exact .ret trivial
  · refine (Says.plain (c := .recordEvent true _ _) fun _ => trivial).bind fun _ _ => ?_
    split_ifs <;> exact .ret trivial

/-! ## Conflicts -/

theorem says_renderPeer (current : Binding) (identity : Plan) (peer : Binding) :
    Says (fun _ => True) (r.renderPeer current identity peer) := by
  rw [Reconciler.renderPeer]
  split_ifs
  · exact .ret trivial
  · refine (Says.of_always (always_renderIdentityForBinding fun _ _ _ _ => trivial)).bind ?_
    rintro (err | plan) -
    · dsimp only
      split
      · exact .ret trivial
      · refine says_listManaged.bind ?_
        rintro ⟨peer', err | _ | _⟩ - <;> exact .ret trivial
    · exact .ret trivial

theorem says_identityForConflictEvaluation (current : Binding) (identity : Plan) (peer : Binding) :
    Says (fun _ => True) (r.identityForConflictEvaluation current identity peer) := by
  rw [Reconciler.identityForConflictEvaluation]
  split_ifs
  · refine says_listManaged.bind ?_
    rintro ⟨peer', err | _ | _⟩ -
    · exact .ret trivial
    · exact .ret trivial
    · exact says_renderPeer current identity peer'
  · exact says_renderPeer current identity peer

theorem says_evaluateBindingConflicts (identity : Plan) :
    Says (fun _ => True) (r.evaluateBindingConflicts m identity) := by
  refine (Says.plain (c := .listBindings m.key m.key.namespace_) fun _ => trivial).bind ?_
  rintro (err | items) -
  · exact .ret trivial
  refine (Says.foldM items _ fun peer scan => ?_).bind ?_
  · refine (says_identityForConflictEvaluation m identity peer).bind ?_
    rintro ⟨peer', err | _ | _ | _⟩ - <;> exact .ret trivial
  · rintro (err | scan) - <;> exact .ret trivial

/-- What is done for others does not show in the copy of the binding itself. -/
theorem says_cleanupMembers (members : List ConflictMember) :
    Says (Keeps m) (cleanupMembers P members m) := by
  induction members generalizing m with
  | nil => exact .ret rfl
  | cons member rest ih =>
    cases member with
    | current =>
      refine says_cleanupManaged.bind ?_
      rintro ⟨m₁, err | ⟨⟩⟩ h₁
      · exact .ret h₁
      refine ih.bind ?_
      rintro ⟨m₂, err | members⟩ h₂ <;> exact .ret (h₂.trans h₁)
    | copy peer =>
      refine says_cleanupManaged.bind ?_
      rintro ⟨peer', err | ⟨⟩⟩ -
      · exact .ret rfl
      refine ih.bind ?_
      rintro ⟨m₂, err | members⟩ h₂ <;> exact .ret h₂

theorem says_confirmMembersAbsent (members : List ConflictMember) :
    Says (Keeps m) (confirmMembersAbsent P members m) := by
  induction members generalizing m with
  | nil => exact .ret rfl
  | cons member rest ih =>
    cases member with
    | current =>
      refine says_listManaged.bind ?_
      rintro ⟨m₁, err | _ | ⟨o, objects⟩⟩ h₁
      · exact .ret h₁
      · exact ih.mono fun x hx => hx.trans h₁
      · exact .ret h₁
    | copy peer =>
      refine says_listManaged.bind ?_
      rintro ⟨peer', err | _ | ⟨o, objects⟩⟩ -
      · exact .ret rfl
      · exact ih
      · exact .ret rfl

theorem says_withdraw (members : List ConflictMember) :
    Says (Keeps m) (withdrawConflictOutputs P members m) := by
  refine (says_cleanupMembers members).bind ?_
  rintro ⟨m₁, err | members₁⟩ h₁
  · exact .ret h₁
  · exact (says_confirmMembersAbsent members₁).mono fun x hx => hx.trans h₁

theorem says_reconcileConflictState (h : m.status.UniqueTypes) (identity : Plan) :
    Says (fun x => x.2 = none → Keeps m x) (r.reconcileConflictState m identity) := by
  refine (says_evaluateBindingConflicts identity).bind ?_
  rintro (err | state) -
  · exact (says_reportApplyFailure h err).bind fun _ _ => .ret (by rintro ⟨⟩)
  dsimp only
  split_ifs with hclear
  · exact .ret fun _ => rfl
  refine (says_withdraw state.members).bind ?_
  rintro ⟨m₁, err | absent⟩ h₁
  · exact (says_reportApplyFailure (h₁.unique h) err).bind fun _ _ => .ret (by rintro ⟨⟩)
  dsimp only
  split_ifs with hpending
  · refine (says_patchStatus
      (consistent_applyPendingConflictStatus (h₁.unique h)).classed).bind ?_
    rintro ⟨m₂, err | ⟨⟩⟩ - <;> exact .ret (by rintro ⟨⟩)
  · -- nobody is in the way, so it is a conflict that brought us here
    have hconflicts : state.conflicts ≠ [] := by
      intro hnone
      rw [not_or, Bool.not_eq_true] at hpending
      exact hclear ⟨hnone, hpending.2⟩
    have hterminal : (applyConflictStatus m₁.status m₁.generation state.conflicts).Terminal := by
      refine Or.inr ?_
      rw [Status.Is, verdict_applyConflictStatus]
      rfl
    refine (says_publishOutcome
      (consistent_applyConflictStatus (h₁.unique h) hconflicts).classed hterminal).bind ?_
    rintro (err | ⟨⟩) - <;> exact .ret (by rintro ⟨⟩)

/-! ## The phases -/

theorem says_reconcileDelete (h : m.status.UniqueTypes) :
    Says (fun _ => True) (r.reconcileDelete m) := by
  rw [Reconciler.reconcileDelete]
  split_ifs
  swap
  · exact .ret trivial
  refine says_cleanupManaged.bind ?_
  rintro ⟨m₁, err | ⟨⟩⟩ h₁
  · exact says_reportApplyFailure (h₁.unique h) err
  refine says_listManaged.bind ?_
  rintro ⟨m₂, err | _ | ⟨o, objects⟩⟩ h₂
  · exact says_reportApplyFailure (h₂.unique (h₁.unique h)) err
  · have hclear : Says (fun _ => True) (if recordedClusterSPIFFEIDName m₂.status ≠ [] then
        clearClusterSPIFFEIDOwnership m₂ else .ret (m₂, .ok ())) := by
      split_ifs
      · exact says_clear.mono fun _ _ => trivial
      · exact .ret trivial
    refine hclear.bind ?_
    rintro ⟨m₃, err | ⟨⟩⟩ -
    · exact .ret trivial
    · refine (Says.plain (c := .updateBinding _) fun _ => trivial).bind ?_
      rintro (err | b) - <;> exact .ret trivial
  · exact .ret trivial

theorem says_ensureFinalizer (h : m.status.UniqueTypes) :
    Says (fun a => ∀ b, a = .ok b → b.status.UniqueTypes) (Reconciler.ensureFinalizer m) := by
  rw [Reconciler.ensureFinalizer]
  split_ifs
  · refine .ret ?_
    rintro b ⟨⟩
    exact h
  · refine Says.perform (c := .updateBinding _) (fun _ => trivial) ?_
    exact fun a htrusted b hb => (htrusted b hb).nodup

theorem says_applyOutput (h : m.status.UniqueTypes) (identity : Plan) :
    Says (fun _ => True) (r.applyOutput m identity) := by
  refine (says_reconcileClusterSPIFFEIDs _ [identity] h).bind ?_
  rintro ⟨m₁, err | statuses⟩ h₁
  · dsimp only
    split_ifs
    · exact says_settleStateError h₁ ⟨by simp [newClusterSPIFFEIDCRDMissingStateError],
        by simp [newClusterSPIFFEIDCRDMissingStateError, failureReasons]⟩
    · exact says_reportApplyFailure h₁ err
  · obtain ⟨hclassed, hready, -⟩ := classed_of_success
      (h₁.applySuccessStatus m₁.generation [identity] statuses)
      (verdict_applySuccessStatus m₁.status m₁.generation [identity] statuses)
    refine (says_publishOutcome hclassed (Or.inl hready)).bind ?_
    rintro (err | ⟨⟩) -
    · exact .ret trivial
    · exact (Says.plain (c := .recordEvent false _ _) fun _ => trivial).bind fun _ _ => .ret trivial

theorem says_reconcileIdentity (h : m.status.UniqueTypes) (identity : Plan) :
    Says (fun _ => True) (r.reconcileIdentity m identity) := by
  refine (says_reconcileConflictState h identity).bind ?_
  rintro ⟨m₁, _ | result⟩ hkeeps
  swap
  · exact .ret trivial
  have h₁ := (hkeeps rfl).unique h
  refine (says_cleanupChanged _).bind ?_
  rintro ⟨m₂, err | _ | _⟩ hkeeps₂
  · exact says_reportApplyFailure (hkeeps₂.unique h₁) err
  · exact says_applyOutput (hkeeps₂.unique h₁) identity
  · refine (says_patchStatus (consistent_applyWaiting (hkeeps₂.unique h₁) _).classed).bind ?_
    rintro ⟨m₃, err | ⟨⟩⟩ - <;> exact .ret trivial

theorem plainPools_outcome : PlainPools outcomeProtocol :=
  fun _ _ _ => ⟨trivial, fun _ _ hapi => hapi.1⟩

theorem says_reconcilePresent (h : m.status.UniqueTypes) :
    Says (fun _ => True) (r.reconcilePresent m) := by
  have hrender : Says (Outlined r m) (r.renderDesired m) :=
    fun log => plainPools_outcome.renderDesired trivial
  refine hrender.bind ?_
  rintro (err | identity) houtlined
  · dsimp only
    split
    · exact .ret trivial
    · rename_i stateErr hstate
      exact says_settleStateError h (houtlined stateErr hstate)
  · exact says_reconcileIdentity h identity

/-- Every call of a reconcile is fit. -/
theorem says_reconcile (key : NamespacedName) : Says (fun _ => True) (r.reconcile key) := by
  refine (Says.perform (c := .getBinding key)
    (Q := fun a => ∀ b, a = .ok b → b.status.Classed) (fun _ => trivial) fun a h => h).bind ?_
  rintro (err | b) hclassed
  · dsimp only
    split_ifs <;> exact .ret trivial
  have hunique := (hclassed b rfl).nodup
  dsimp only
  split_ifs
  · exact says_reconcileDelete hunique
  refine (says_ensureFinalizer hunique).bind ?_
  rintro (err | b') hb'
  · exact .ret trivial
  · exact says_reconcilePresent (tracks_prepareStatus r (hb' b' rfl)).unique

/-! ## Runs -/

/-- Every status that was ever persisted is classed. -/
def AllClassed (w : World) : Prop := ∀ b ∈ w.bindingVersions, b.status.Classed

section AllClassed

variable {w w' : World} (h : AllClassed w)

include h

theorem AllClassed.saveBinding {b : Binding} (hb : b.status.Classed) :
    AllClassed (w.saveBinding b) := by
  intro v hv
  rcases List.mem_cons.mp hv with rfl | hv
  · exact hb
  · exact h v hv

theorem AllClassed.settleBinding {b : Binding} (hb : b.status.Classed) :
    AllClassed (w.settleBinding b) := by
  rw [World.settleBinding]
  split_ifs
  · exact h
  · exact h.saveBinding hb

/-- Others write no status but the empty one. -/
theorem AllClassed.user (hhistory : History w) (hS : S.Honest) {op : UserOp}
    (hop : op.Permitted S w) : AllClassed (op.apply w) := by
  have hstored : ∀ {key : NamespacedName} {b : Binding}, w.bindings.get key = some b →
      b.status.Classed := fun hget =>
    h _ (hhistory.binding_mem _ (Store.get_eq_some.mp hget).1)
  cases op with
  | createBinding key uid finalizers spec =>
    exact h.saveBinding taxonomic_empty.toConsistent.classed
  | editBinding key spec =>
    rw [UserOp.apply]
    split
    · exact h
    · rename_i b hget
      have hb := hstored hget
      exact h.saveBinding hb
  | deleteBinding key =>
    rw [UserOp.apply]
    split
    · exact h
    · rename_i b hget
      have hb := hstored hget
      exact h.settleBinding hb
  | writeBinding key finalizers status =>
    rw [Setting.Honest] at hS
    rw [UserOp.Permitted, hS] at hop
    cases hop.1
  | modifyObject object =>
    rw [UserOp.apply]
    split <;> exact h
  | terminateObject name =>
    rw [UserOp.apply]
    split <;> exact h
  | _ => exact h

/-- A merge has the conditions of one side. -/
theorem AllClassed.effect (hhistory : History w) {c : Call} {fresh : GoString}
    (hfit : Fit log c) (heffect : Effect c w fresh w') : AllClassed w' := by
  have hstored : ∀ {key : NamespacedName} {b : Binding}, w.bindings.get key = some b →
      b.status.Classed := fun hget =>
    h _ (hhistory.binding_mem _ (Store.get_eq_some.mp hget).1)
  cases heffect with
  | updateBinding hget =>
    have hb := hstored hget
    exact h.settleBinding hb
  | @patchBindingStatus kind base stored status _ _ hget hversion hadmitted =>
    have hmerged : (mergeStatus base.status status stored.status).conditions =
        mergeField base.status.conditions status.conditions stored.status.conditions := rfl
    have hcase : status.Classed ∨ status.conditions = base.status.conditions := by
      cases kind with
      | ordinary => exact Or.inl hfit
      | ownership => exact hfit
    refine h.saveBinding ?_
    rw [mergeField] at hmerged
    split_ifs at hmerged with hsame
    · exact (hstored hget).congr hmerged
    · exact (hcase.resolve_right fun heq => hsame heq.symm).congr hmerged
  | _ => exact h

end AllClassed

/-- What holds in every state of every run, besides the invariant of the cluster. -/
structure OutcomeInv (s : SystemState) : Prop where
  classed : AllClassed s.world
  sound : ∀ t ∈ s.threads, outcomeProtocol.Safe t.prog (fun _ _ => True) t.log
  logged : ∀ t ∈ s.threads, ∀ e ∈ t.log, ∀ b, e.call.persisted e.answer = some b →
    b ∈ s.world.bindingVersions

/-- The server's answers can be trusted, and what they hand out is stored. -/
theorem trusted_of_answered {w w' : World} {log' : Log} {c : Call} {a : Answer c}
    (h : Answered S c ⟨w, log⟩ a ⟨w', log'⟩) (hinv : Inv S w) (hclassed : AllClassed w)
    (hguard : Guard r S log w c) :
    Trusted c a ∧ ∀ b, c.persisted a = some b → b ∈ w'.bindingVersions := by
  cases c with
  | getBinding key =>
    obtain ⟨hworld, hread⟩ := h.getBinding hinv
    rcases a with err | b
    · exact ⟨nofun, nofun⟩
    · obtain ⟨-, hmem, -⟩ := hread b rfl
      refine ⟨fun _ heq => ?_, fun _ heq => ?_⟩
      · cases heq
        exact hclassed b hmem
      · cases heq
        exact (congrArg World.bindingVersions hworld) ▸ hmem
  | updateBinding b =>
    rcases a with err | target
    · exact ⟨nofun, nofun⟩
    · obtain ⟨stored, hget, -, -, rfl, -⟩ := h.updateBinding
      refine ⟨fun _ heq => ?_, nofun⟩
      cases heq
      exact hclassed stored (hinv.history.binding_mem stored (Store.get_eq_some.mp hget).1)
  | patchBindingStatus kind base status =>
    rcases a with err | target
    · cases kind with
      | ordinary => exact ⟨nofun, nofun⟩
      | ownership => exact ⟨trivial, nofun⟩
    · obtain ⟨stored, hget, hversion, rfl, hworld⟩ := h.patchBindingStatus
      refine ⟨?_, fun _ heq => ?_⟩
      · cases kind with
        | ownership => trivial
        | ordinary =>
          rintro _ ⟨⟩
          -- the patch was computed from the version that is stored, so it arrives as it is
          obtain rfl := hinv.history.binding_inj base (OrdinaryPatch.base_mem hguard) stored
            (hinv.history.binding_mem stored (Store.get_eq_some.mp hget).1) hversion.symm
          exact mergeStatus_current base.status status
      · cases heq
        rw [show w' = _ from hworld]
        exact List.mem_cons_self
  | getPool gvk key => exact ⟨h.getPool.2.1, nofun⟩
  | _ => exact ⟨trivial, nofun⟩

theorem OutcomeInv.initial : OutcomeInv .initial :=
  ⟨List.forall_mem_nil _, List.forall_mem_nil _, List.forall_mem_nil _⟩

section OutcomeInv

variable {w : World} {before after : List Thread} {c : Call}
  {k : Answer c → Op (Except GoError ReconcileResult)}

theorem OutcomeInv.answer {choice : Choice}
    (h : OutcomeInv ⟨w, before ++ ⟨.call c k, log⟩ :: after⟩) (hinv : Inv S w)
    (hguard : Guard r S log w c) (hchoice : Admissible S choice c w) :
    OutcomeInv ⟨(respond choice c w).2,
      before ++ ⟨k (respond choice c w).1, log ++ [⟨c, (respond choice c w).1⟩]⟩ :: after⟩ := by
  have hmem : ⟨.call c k, log⟩ ∈ before ++ ⟨.call c k, log⟩ :: after :=
    List.mem_append_right _ List.mem_cons_self
  have hother : before ++ after ⊆ before ++ ⟨.call c k, log⟩ :: after :=
    ((List.sublist_cons_self _ after).append_left before).subset
  have hsafe : outcomeProtocol.Safe (.call c k) (fun _ _ => True) log := h.sound _ hmem
  have hanswered : Answered S c ⟨w, log⟩ (respond choice c w).1
      ⟨(respond choice c w).2, log ++ [⟨c, (respond choice c w).1⟩]⟩ :=
    ⟨⟨choice, hchoice, rfl⟩, rfl⟩
  obtain ⟨htrusted, hpersisted⟩ := trusted_of_answered hanswered hinv h.classed hguard
  have hgrows := (grows_respond choice c w).bindingVersions
  -- a thread that is not the one under way is as it was
  have hcases : ∀ t ∈ before ++
      ⟨k (respond choice c w).1, log ++ [⟨c, (respond choice c w).1⟩]⟩ :: after,
      t = ⟨k (respond choice c w).1, log ++ [⟨c, (respond choice c w).1⟩]⟩ ∨
        t ∈ before ++ after := by
    intro t ht
    rcases List.mem_append.mp ht with ht | ht
    · exact Or.inr (List.mem_append_left _ ht)
    · exact (List.mem_cons.mp ht).imp_right (List.mem_append_right _)
  refine ⟨h.classed.effect hinv.history (hsafe.guarded trivial) (respond_effect choice c w), ?_, ?_⟩
  · intro t ht
    rcases hcases t ht with rfl | ht
    · exact (hsafe.answer trivial ⟨htrusted, rfl⟩).2
    · exact h.sound t (hother ht)
  · intro t ht e he b hb
    rcases hcases t ht with rfl | ht
    · rcases List.mem_append.mp he with he | he
      · exact hgrows (h.logged _ hmem e he b hb)
      · cases List.mem_singleton.mp he
        exact hpersisted b hb
    · exact hgrows (h.logged t (hother ht) e he b hb)

end OutcomeInv

theorem OutcomeInv.step {s s' : SystemState} (h : OutcomeInv s) (hS : S.Honest)
    (hreach : Reachable r S s) (hstep : Step r S s s') : OutcomeInv s' := by
  cases hstep with
  | user op hop _ =>
    obtain ⟨u, hu⟩ := op.exists_other
    have hgrows := (spares_user hreach.inv hop hu).toGrows.bindingVersions
    exact ⟨h.classed.user hreach.inv.history hS hop, h.sound,
      fun t ht e he b hb => hgrows (h.logged t ht e he b hb)⟩
  | start key _ =>
    refine ⟨h.classed, ?_, ?_⟩
    · exact List.forall_mem_cons.mpr ⟨says_reconcile key [], h.sound⟩
    · exact List.forall_mem_cons.mpr ⟨List.forall_mem_nil _, h.logged⟩
  | answer choice hchoice =>
    exact h.answer hreach.inv (hreach.guarded (List.mem_append_right _ List.mem_cons_self)) hchoice
  | @stop _ before after t =>
    have hother := ((List.sublist_cons_self t after).append_left before).subset
    exact ⟨h.classed, fun t ht => h.sound t (hother ht), fun t ht => h.logged t (hother ht)⟩

theorem Reachable.outcomeInv {s : SystemState} (hS : S.Honest) (h : Reachable r S s) :
    OutcomeInv s := by
  induction h with
  | refl => exact OutcomeInv.initial
  | tail hreach hstep ih => exact ih.step hS hreach hstep

/-! ## The metrics -/

/-- The metrics classify every status. Where statuses are the operator's, each that was ever
persisted has labels exactly if it has a Ready condition, and they say which outcome it is; the
gauges over any bindings sum to those that have the condition; and a reconcile that records a
terminal outcome increments one counter, under the labels of the status that its last call was
answered with. -/
theorem metrics_classify_reachable {s : SystemState} (hS : S.Honest) (h : Reachable r S s) :
    (∀ b ∈ s.world.bindingVersions, b.status.Counted) ∧
    (∀ bindings : List Binding, (∀ b ∈ bindings, b ∈ s.world.bindingVersions) →
      ((collect (some (.ok bindings))).map Prod.snd).sum =
        bindings.countP fun b => (findStatusCondition b.status.conditions .ready).isSome) ∧
    ∀ status k log, ⟨.call (.recordTerminalOutcome status) k, log⟩ ∈ s.threads →
      ∃ b labels, LastAnswer log b ∧ b ∈ s.world.bindingVersions ∧ b.status = status ∧
        deriveBindingOutcomeLabels b.status true = some labels ∧
        ∀ counter, countTerminalOutcome counter status =
          Function.update counter labels (counter labels + 1) := by
  have hinv := h.outcomeInv hS
  have hcounted : ∀ b ∈ s.world.bindingVersions, b.status.Counted :=
    fun b hb => (hinv.classed b hb).counted
  refine ⟨hcounted, ?_, ?_⟩
  · intro bindings hbindings
    rw [sum_collect]
    refine List.countP_congr fun b hb => ?_
    exact (hcounted b (hbindings b hb)).isSome_iff
  · intro status k log ht
    have hfit : Fit log (.recordTerminalOutcome status) := (hinv.sound _ ht).guarded trivial
    obtain ⟨hclassed, hterminal, b, hlast, rfl⟩ := hfit
    obtain ⟨labels, htrue, hfalse⟩ := hclassed.labels_terminal hterminal
    have hstored : b ∈ s.world.bindingVersions := by
      obtain ⟨e, he, hpersisted⟩ := hlast
      exact hinv.logged _ ht e (List.mem_of_getLast? he) b hpersisted
    refine ⟨b, labels, hlast, hstored, rfl, htrue, fun counter => ?_⟩
    rw [countTerminalOutcome, hfalse]

/-- The outcome that is about to be recorded is Ready. -/
def SystemState.recordsReady (s : SystemState) : Bool :=
  match s.nextCall with
  | some (.recordTerminalOutcome status) => status.Is .ready .true_
  | _ => false

theorem metrics_classify_reachable_recording :
    ∃ s status k log b, Reachable trialReconciler busySetting s ∧
      ⟨.call (.recordTerminalOutcome status) k, log⟩ ∈ s.threads ∧ LastAnswer log b ∧
      b.status = status ∧
      deriveBindingOutcomeLabels status true = some ⟨.ready, str "Reconciled"⟩ := by
  obtain ⟨s, hs, htest⟩ := exists_reachable (r := trialReconciler) (S := busySetting)
    (trialPrelude ++ [.start (trialKey "x"), .proceed 11]) SystemState.recordsReady
    (by decide +kernel)
  rw [SystemState.recordsReady] at htest
  split at htest
  · rename_i status hnext
    obtain ⟨k, log, ht⟩ := s.exists_thread hnext
    obtain ⟨hcounted, -, hrecorded⟩ := metrics_classify_reachable (S := busySetting) rfl hs
    obtain ⟨b, -, hlast, hb, rfl, -⟩ := hrecorded status k log ht
    exact ⟨s, _, k, log, b, hs, ht, hlast, rfl, (hcounted b hb).ready (of_decide_eq_true htest)⟩
  · cases htest

end Kleym
