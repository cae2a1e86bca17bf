import Kleym.Records
import Kleym.Settlement
import Kleym.Watch

/-!
# Which changes wake a reconcile

A watch reports what happened to an object as an event, and `reconcileWatchPredicate` decides
which updates are worth a reconcile: those that change the generation of the object, or begin its
deletion. That is a guess at what matters, and two things can go wrong with it. It could drop a
change that a reconcile depends on; and it could let through the operator's own writes, so that
every reconcile would cause the next.

Neither happens to bindings. Between two moments of a run the spec of a binding and its mark for
deletion stay the same where the generation does, however many changes a watch has folded into one
update, and the generation moves only where a user has changed one of the two; so no write of the
operator passes, but for the last one, by which a binding that is being deleted goes.

For a `ClusterSPIFFEID` the question is whom its events reach. The index that answers it is
computed from trimmed status fields; the records of every run without forged statuses have names
that trimming leaves alone.
-/

namespace Kleym

open GoString Prog

/-! ## Events -/

/-- What the predicate reads of an object. -/
structure ObjectMeta where
  generation : ℕ
  /-- a deletion timestamp is set -/
  deleting : Bool

/-- The metadata of a binding. -/
def Binding.objectMeta (b : Binding) : ObjectMeta := ⟨b.generation, b.deleting⟩

/-- An event of a watch. Either object of an update may be missing. -/
inductive WatchEvent : Type where
  | create (object : ObjectMeta)
  | update (objectOld objectNew : Option ObjectMeta)
  | delete (object : ObjectMeta)
  | generic (object : ObjectMeta)

/-- `deletionTimestampChanged`. -/
def deletionTimestampChanged (oldObject newObject : ObjectMeta) : Bool :=
  oldObject.deleting != newObject.deleting

/-- `reconcileWatchPredicate`. -/
def reconcileWatchPredicate : WatchEvent → Bool
  | .create _ => true
  | .delete _ => true
  | .update (some objectOld) (some objectNew) =>
    if objectOld.generation ≠ objectNew.generation then true
    else deletionTimestampChanged objectOld objectNew
  | .update _ _ => true
  | .generic _ => true

/-- The event a watch reports for a key, given what is stored under it before and after. -/
def watchEvent : Option Binding → Option Binding → Option WatchEvent
  | none, none => none
  | none, some new => some (.create new.objectMeta)
  | some old, none => some (.delete old.objectMeta)
  | some old, some new =>
    if old = new then none else some (.update (some old.objectMeta) (some new.objectMeta))

/-- An event is reported, and passes. -/
def Wakes (old new : Option Binding) : Prop :=
  ∃ event ∈ watchEvent old new, reconcileWatchPredicate event = true

theorem not_wakes_self (b : Option Binding) : ¬Wakes b b := by
  rintro ⟨event, hevent, -⟩
  cases b with
  | none => cases hevent
  | some b =>
    rw [watchEvent, if_pos rfl] at hevent
    cases hevent

theorem wakes_update {old new : Binding} :
    Wakes (some old) (some new) ↔ old.generation ≠ new.generation ∨ old.deleting ≠ new.deleting := by
  by_cases hsame : old = new
  · subst hsame
    simp [not_wakes_self]
  · by_cases hgeneration : old.generation = new.generation <;>
      simp [Wakes, watchEvent, hsame, reconcileWatchPredicate, deletionTimestampChanged,
        Binding.objectMeta, hgeneration]

/-- What passes: a binding that is new or gone, and a move of the generation or of the mark. -/
theorem wakes_iff {old new : Option Binding} : Wakes old new ↔
    old.isSome ≠ new.isSome ∨ ∃ b ∈ old, ∃ b' ∈ new,
      b.generation ≠ b'.generation ∨ b.deleting ≠ b'.deleting := by
  rcases old with _ | old <;> rcases new with _ | new
  · simp [not_wakes_self]
  · simp [Wakes, watchEvent, reconcileWatchPredicate]
  · simp [Wakes, watchEvent, reconcileWatchPredicate]
  · simp [wakes_update]

/-! ## What moves the generation -/

/-- The same generation, with the same spec and the same mark. -/
structure Binding.Unrevised (old new : Binding) : Prop where
  generation : new.generation = old.generation
  spec : new.spec = old.spec
  deleting : new.deleting = old.deleting

/-- One change: the generation moves exactly when the spec or the mark for deletion does. -/
structure Binding.Advances (old new : Binding) : Prop where
  generation : old.generation ≤ new.generation
  moved : new.generation = old.generation ↔ new.spec = old.spec ∧ new.deleting = old.deleting

/-- A later state of a binding: a generation stands for one spec and one mark. -/
structure Binding.Precedes (old new : Binding) : Prop where
  generation : old.generation ≤ new.generation
  unmoved : new.generation = old.generation → new.spec = old.spec ∧ new.deleting = old.deleting

namespace Binding

theorem Unrevised.refl (b : Binding) : b.Unrevised b := ⟨rfl, rfl, rfl⟩

theorem Unrevised.advances {old new : Binding} (h : old.Unrevised new) : old.Advances new :=
  ⟨h.generation.ge, fun _ => ⟨h.spec, h.deleting⟩, fun _ => h.generation⟩

theorem Advances.precedes {old new : Binding} (h : old.Advances new) : old.Precedes new :=
  ⟨h.generation, h.moved.mp⟩

theorem Precedes.trans {a b c : Binding} (h : a.Precedes b) (h' : b.Precedes c) :
    a.Precedes c := by
  refine ⟨h.generation.trans h'.generation, fun heq => ?_⟩
  have hmiddle : b.generation = a.generation :=
    le_antisymm (heq ▸ h'.generation) h.generation
  obtain ⟨hspec, hdeleting⟩ := h.unmoved hmiddle
  obtain ⟨hspec', hdeleting'⟩ := h'.unmoved (heq.trans hmiddle.symm)
  exact ⟨hspec'.trans hspec, hdeleting'.trans hdeleting⟩

/-- A later state with another spec or another mark has a later generation. -/
theorem Precedes.lt {old new : Binding} (h : old.Precedes new)
    (hdiffers : new.spec ≠ old.spec ∨ new.deleting ≠ old.deleting) :
    old.generation < new.generation := by
  refine lt_of_le_of_ne h.generation fun heq => ?_
  obtain ⟨hspec, hdeleting⟩ := h.unmoved heq.symm
  rcases hdiffers with hne | hne
  · exact hne hspec
  · exact hne hdeleting

/-- An update moves the generation with the spec. -/
theorem advances_replacedBy (stored b : Binding) : stored.Advances (stored.replacedBy b) := by
  by_cases hspec : stored.spec = b.spec
  · have hsame : stored.Unrevised (stored.replacedBy b) := ⟨if_pos hspec, hspec.symm, rfl⟩
    exact hsame.advances
  · have hgeneration : (stored.replacedBy b).generation = stored.generation + 1 := if_neg hspec
    refine ⟨by omega, fun heq => ?_, fun hsame => ?_⟩
    · omega
    · exact absurd hsame.1.symm hspec

/-- The first mark for deletion moves it as well. -/
theorem advances_markedDeleted (stored : Binding) : stored.Advances stored.markedDeleted := by
  by_cases hmarked : stored.deleting = true
  · have hsame : stored.Unrevised stored.markedDeleted := ⟨if_pos hmarked, rfl, hmarked.symm⟩
    exact hsame.advances
  · have hgeneration : stored.markedDeleted.generation = stored.generation + 1 := if_neg hmarked
    refine ⟨by omega, fun heq => ?_, fun hsame => ?_⟩
    · omega
    · exact absurd hsame.2.symm hmarked

end Binding

/-- What becomes of the bindings: whoever has an identifier that is in use goes back to a binding
with that identifier, and the two are related. -/
structure World.Evolves (R : Binding → Binding → Prop) (w w' : World) : Prop where
  identifiers : w.identifiers ⊆ w'.identifiers
  bindings : ∀ new ∈ w'.bindings.entries, new.uid ∈ w.identifiers →
    ∃ old ∈ w.bindings.entries, old.uid = new.uid ∧ R old new

namespace World.Evolves

variable {R R' : Binding → Binding → Prop} {w w' w'' : World}

theorem mono (h : w.Evolves R w') (hR : ∀ old new, R old new → R' old new) : w.Evolves R' w' := by
  refine ⟨h.identifiers, fun new hnew hknown => ?_⟩
  obtain ⟨old, hold, huid, hrelated⟩ := h.bindings new hnew hknown
  exact ⟨old, hold, huid, hR old new hrelated⟩

theorem trans (h : w.Evolves R w') (hR : ∀ a b c, R a b → R b c → R a c) (h' : w'.Evolves R w'') :
    w.Evolves R w'' := by
  refine ⟨fun _ hid => h'.identifiers (h.identifiers hid), fun new hnew hknown => ?_⟩
  obtain ⟨middle, hmiddle, huid, hrelated⟩ := h'.bindings new hnew (h.identifiers hknown)
  obtain ⟨old, hold, huid', hrelated'⟩ := h.bindings middle hmiddle (huid ▸ hknown)
  exact ⟨old, hold, huid'.trans huid, hR old middle new hrelated' hrelated⟩

/-- The bindings before and after a change, paired by their UID. -/
theorem pair (h : w.Evolves R w') (hhistory : History w) {old new : Binding}
    (hold : old ∈ w.bindings.entries) (hnew : new ∈ w'.bindings.entries)
    (huid : new.uid = old.uid) : R old new := by
  have hknown : new.uid ∈ w.identifiers :=
    huid ▸ hhistory.binding_known old (hhistory.binding_mem old hold)
  obtain ⟨old', hold', huid', hrelated⟩ := h.bindings new hnew hknown
  obtain rfl := hhistory.binding_eq hold hold' (huid.symm.trans huid'.symm)
  exact hrelated

theorem of_same (hidentifiers : w.identifiers ⊆ w'.identifiers)
    (hbindings : w'.bindings = w.bindings) : w.Evolves Binding.Unrevised w' :=
  ⟨hidentifiers, fun new hnew _ => ⟨new, hbindings ▸ hnew, rfl, .refl new⟩⟩

section Saving

variable (hR : ∀ b, R b b)

include hR

theorem saveBinding {key : NamespacedName} {stored b : Binding}
    (hstored : w.bindings.get key = some stored) (huid : b.uid = stored.uid)
    (hrelated : R stored { b with resourceVersion := w.revision + 1 }) :
    w.Evolves R (w.saveBinding b) := by
  refine ⟨List.Subset.refl _, fun new hnew _ => ?_⟩
  rcases Store.mem_put.mp hnew with rfl | ⟨hnew, -⟩
  · exact ⟨stored, (Store.get_eq_some.mp hstored).1, huid.symm, hrelated⟩
  · exact ⟨new, hnew, rfl, hR new⟩

theorem dropBinding (key : NamespacedName) : w.Evolves R (w.dropBinding key) :=
  ⟨List.Subset.refl _, fun new hnew _ => ⟨new, (Store.mem_erase.mp hnew).1, rfl, hR new⟩⟩

theorem settleBinding {key : NamespacedName} {stored b : Binding}
    (hstored : w.bindings.get key = some stored) (huid : b.uid = stored.uid)
    (hrelated : R stored { b with resourceVersion := w.revision + 1 }) :
    w.Evolves R (w.settleBinding b) := by
  rw [World.settleBinding]
  split_ifs
  · exact dropBinding hR b.key
  · exact saveBinding hR hstored huid hrelated

end Saving

end World.Evolves

section

variable {r : Reconciler} {S : Setting} {log : Log} {w w' : World}

/-- The spec that goes out with an update is the one that was read, and that is the stored one. -/
theorem Guard.spec_updateBinding {b stored : Binding} (hguard : Guard r S log w (.updateBinding b))
    (hhistory : History w) (hstored : w.bindings.get b.key = some stored)
    (hversion : stored.resourceVersion = b.resourceVersion) : stored.spec = b.spec := by
  have hmem := hhistory.binding_mem stored (Store.get_eq_some.mp hstored).1
  obtain ⟨version, hversions, hsame, hspec, -⟩ := hguard.version
  exact hhistory.binding_inj version hversions stored hmem (hsame.trans hversion.symm) ▸ hspec

/-- A call of the operator moves no generation. -/
theorem World.Evolves.effect {c : Call} {fresh : GoString} (h : Effect c w fresh w')
    (hhistory : History w) (hguard : Guard r S log w c) : w.Evolves Binding.Unrevised w' := by
  cases h with
  | updateBinding hstored hversion =>
    have hspec := hguard.spec_updateBinding hhistory hstored hversion
    exact settleBinding Binding.Unrevised.refl hstored rfl ⟨if_pos hspec, hspec.symm, rfl⟩
  | patchBindingStatus hstored => exact saveBinding Binding.Unrevised.refl hstored rfl ⟨rfl, rfl, rfl⟩
  | create => exact of_same (List.subset_cons_self _ _) rfl
  | issue => exact of_same (List.subset_cons_self _ _) rfl
  | _ => exact of_same (List.Subset.refl _) rfl

/-- What others do moves it with the spec and the mark. -/
theorem World.Evolves.user {op : UserOp} (hop : op.Permitted S w) :
    w.Evolves Binding.Advances (op.apply w) := by
  have hsame : ∀ {w'}, w.identifiers ⊆ w'.identifiers → w'.bindings = w.bindings →
      w.Evolves Binding.Advances w' :=
    fun hidentifiers hbindings => (of_same hidentifiers hbindings).mono fun _ _ h => h.advances
  have hrefl : ∀ b : Binding, b.Advances b := fun b => (Binding.Unrevised.refl b).advances
  cases op with
  | createBinding key uid finalizers spec =>
    refine ⟨List.subset_cons_self _ _, fun new hnew hknown => ?_⟩
    rcases Store.mem_put.mp hnew with rfl | ⟨hnew, -⟩
    · -- the UID was not in use, so it goes back to nobody
      exact absurd hknown hop.2.2
    · exact ⟨new, hnew, rfl, hrefl new⟩
  | editBinding key spec =>
    rw [UserOp.apply]
    split
    · exact hsame (List.Subset.refl _) rfl
    · rename_i b hb
      have hadvances := b.advances_replacedBy { b with spec := spec }
      exact saveBinding hrefl hb rfl ⟨hadvances.generation, hadvances.moved⟩
  | deleteBinding key =>
    rw [UserOp.apply]
    split
    · exact hsame (List.Subset.refl _) rfl
    · rename_i b hb
      have hadvances := b.advances_markedDeleted
      exact settleBinding hrefl hb rfl ⟨hadvances.generation, hadvances.moved⟩
  | writeBinding key finalizers status =>
    rw [UserOp.apply]
    split
    · exact hsame (List.Subset.refl _) rfl
    · rename_i b hb
      have hadvances := hrefl b
      exact settleBinding hrefl hb rfl ⟨hadvances.generation, hadvances.moved⟩
  | createObject uid object =>
    exact hsame (fun _ hid => List.mem_cons_of_mem _ (List.mem_cons_of_mem _ hid)) rfl
  | modifyObject object =>
    rw [UserOp.apply]
    split
    · exact hsame (List.Subset.refl _) rfl
    · exact hsame (List.subset_cons_self _ _) rfl
  | terminateObject name =>
    rw [UserOp.apply]
    split
    · exact hsame (List.Subset.refl _) rfl
    · exact hsame (List.Subset.refl _) rfl
  | _ => exact hsame (List.Subset.refl _) rfl

end

/-! ## No change that matters is missed -/

section

variable {r : Reconciler} {S : Setting} {s s' : SystemState}

/-- A step in which a user gives the binding with this UID another spec, or marks it for
deletion. -/
structure Revised (r : Reconciler) (S : Setting) (uid : GoString) (s s' : SystemState) : Prop where
  step : Step r S s s'
  user : ∃ op : UserOp, op.Permitted S s.world ∧ s' = ⟨op.apply s.world, s.threads⟩
  revises : ∃ old ∈ s.world.bindings.entries, ∃ new ∈ s'.world.bindings.entries,
    old.uid = uid ∧ new.uid = uid ∧ (new.spec ≠ old.spec ∨ new.deleting ≠ old.deleting)

/-- A step is one of a user, or moves no generation. -/
theorem step_cases (hs : Reachable r S s) (h : Step r S s s') :
    (∃ op : UserOp, op.Permitted S s.world ∧ s' = ⟨op.apply s.world, s.threads⟩) ∨
      s.world.Evolves Binding.Unrevised s'.world := by
  cases h with
  | user op hop => exact Or.inl ⟨op, hop, rfl⟩
  | start => exact Or.inr (.of_same (List.Subset.refl _) rfl)
  | @answer w before after c k log choice =>
    have hguard : Guard r S log w c :=
      hs.guarded (k := k) (List.mem_append_right _ List.mem_cons_self)
    exact Or.inr (.effect (respond_effect choice c w) hs.inv.history hguard)
  | stop => exact Or.inr (.of_same (List.Subset.refl _) rfl)

/-- A step moves the generation of a binding only where a user revises it. -/
theorem revised_of_step (hs : Reachable r S s) (h : Step r S s s') {old new : Binding}
    (hold : old ∈ s.world.bindings.entries) (hnew : new ∈ s'.world.bindings.entries)
    (huid : new.uid = old.uid) (hmoved : new.generation ≠ old.generation) :
    Revised r S old.uid s s' := by
  have hhistory := hs.inv.history
  rcases step_cases hs h with ⟨op, hop, rfl⟩ | hevolves
  · refine ⟨h, ⟨op, hop, rfl⟩, old, hold, new, hnew, rfl, huid, ?_⟩
    have hadvances := (World.Evolves.user hop).pair hhistory hold hnew huid
    by_contra hsame
    rw [not_or, not_not, not_not] at hsame
    exact hmoved (hadvances.moved.mpr hsame)
  · exact absurd (hevolves.pair hhistory hold hnew huid).generation hmoved

theorem World.Evolves.step (hs : Reachable r S s) (h : Step r S s s') :
    s.world.Evolves Binding.Precedes s'.world := by
  rcases step_cases hs h with ⟨op, hop, rfl⟩ | hevolves
  · exact (user hop).mono fun _ _ h => h.precedes
  · exact hevolves.mono fun _ _ h => h.advances.precedes

theorem World.Evolves.run (hs : Reachable r S s) (h : Relation.ReflTransGen (Step r S) s s') :
    s.world.Evolves Binding.Precedes s'.world := by
  induction h with
  | refl => exact (of_same (List.Subset.refl _) rfl).mono fun _ _ h => h.advances.precedes
  | tail hrun hstep ih =>
    have hmiddle := Relation.ReflTransGen.trans hs hrun
    exact ih.trans (fun _ _ _ => Binding.Precedes.trans) (step hmiddle hstep)

/-- Where the generation of a binding has moved in the end, some step revised the binding. -/
theorem exists_revised (hs : Reachable r S s) (h : Relation.ReflTransGen (Step r S) s s')
    {old new : Binding} (hold : old ∈ s.world.bindings.entries)
    (hnew : new ∈ s'.world.bindings.entries) (huid : new.uid = old.uid)
    (hmoved : new.generation ≠ old.generation) :
    ∃ s₁ s₂, Relation.ReflTransGen (Step r S) s s₁ ∧ Revised r S old.uid s₁ s₂ ∧
      Relation.ReflTransGen (Step r S) s₂ s' := by
  induction h generalizing new with
  | refl =>
    obtain rfl := hs.inv.history.binding_eq hnew hold huid
    exact absurd rfl hmoved
  | @tail s₁ s₂ hrun hstep ih =>
    have hs₁ : Reachable r S s₁ := Relation.ReflTransGen.trans hs hrun
    have hknown : new.uid ∈ s₁.world.identifiers :=
      huid ▸ (World.Evolves.run hs hrun).identifiers
        (hs.inv.history.binding_known old (hs.inv.history.binding_mem old hold))
    obtain ⟨middle, hmiddle, hsame, -⟩ :=
      (World.Evolves.step hs₁ hstep).bindings new hnew hknown
    -- the last step has moved the generation, or an earlier one had
    by_cases hbefore : middle.generation = old.generation
    · refine ⟨s₁, s₂, hrun, ?_, .refl⟩
      rw [← huid, ← hsame]
      exact revised_of_step hs₁ hstep hmiddle hnew hsame.symm (hbefore ▸ hmoved)
    · obtain ⟨t₁, t₂, hrun₁, hrevised, hrun₂⟩ := ih hmiddle (hsame.trans huid) hbefore
      exact ⟨t₁, t₂, hrun₁, hrevised, hrun₂.tail hstep⟩

/-- A step that revises a binding has moved its generation for good. -/
theorem lt_of_revised {s₁ s₂ : SystemState} (hs : Reachable r S s)
    (hrun₁ : Relation.ReflTransGen (Step r S) s s₁) {old new : Binding}
    (hrevised : Revised r S old.uid s₁ s₂) (hrun₂ : Relation.ReflTransGen (Step r S) s₂ s')
    (hold : old ∈ s.world.bindings.entries)
    (hnew : new ∈ s'.world.bindings.entries) (huid : new.uid = old.uid) :
    old.generation < new.generation := by
  obtain ⟨b₁, hb₁, b₂, hb₂, huid₁, huid₂, hdiffers⟩ := hrevised.revises
  have hs₁ : Reachable r S s₁ := Relation.ReflTransGen.trans hs hrun₁
  have hs₂ : Reachable r S s₂ := Relation.ReflTransGen.tail hs₁ hrevised.step
  -- generations only grow, before and after the step in which this one does
  have hbefore := (World.Evolves.run hs hrun₁).pair hs.inv.history hold hb₁ huid₁
  have hstep := (World.Evolves.step hs₁ hrevised.step).pair hs₁.inv.history hb₁ hb₂
    (huid₂.trans huid₁.symm)
  have hafter := (World.Evolves.run hs₂ hrun₂).pair hs₂.inv.history hb₂ hnew (huid.trans huid₂.symm)
  exact (hbefore.generation.trans_lt (hstep.lt hdiffers)).trans_le hafter.generation

end

/-! ## The operator does not wake itself -/

section

variable {r : Reconciler} {S : Setting} {log : Log} {w : World}

/-- A binding is saved with what the predicate looks at unchanged. -/
theorem not_wakes_saveBinding {stored b : Binding} (hstored : w.bindings.get b.key = some stored)
    (hgeneration : b.generation = stored.generation) (hdeleting : b.deleting = stored.deleting)
    (key : NamespacedName) :
    ¬Wakes (w.bindings.get key) ((w.saveBinding b).bindings.get key) := by
  have hget : (w.saveBinding b).bindings.get key =
      if b.key = key then some { b with resourceVersion := w.revision + 1 }
      else w.bindings.get key := Store.get_put
  rw [hget]
  by_cases hkey : b.key = key
  · rw [if_pos hkey, ← hkey, hstored, wakes_update]
    simp [hgeneration, hdeleting]
  · rw [if_neg hkey]
    exact not_wakes_self _

/-- A write within its contract wakes nobody, but for the one that lets a binding go. -/
theorem wakes_effect {c : Call} {fresh : GoString} {w' : World} (h : Effect c w fresh w')
    (hhistory : History w) (hguard : Guard r S log w c) {key : NamespacedName}
    (hwakes : Wakes (w.bindings.get key) (w'.bindings.get key)) :
    ∃ old, w.bindings.get key = some old ∧ old.deleting = true ∧ w'.bindings.get key = none := by
  cases h with
  | @updateBinding b stored _ _ hstored hversion =>
    have hkey : stored.key = b.key := (Store.get_eq_some.mp hstored).2
    have hspec := hguard.spec_updateBinding hhistory hstored hversion
    rw [World.settleBinding] at hwakes ⊢
    split_ifs at hwakes ⊢ with hgone
    · have hget : (w.dropBinding (stored.replacedBy b).key).bindings.get key =
          if key = stored.key then none else w.bindings.get key := Store.get_erase
      rw [hget] at hwakes ⊢
      by_cases hthis : key = stored.key
      · rw [if_pos hthis]
        exact ⟨stored, by rw [hthis, hkey, hstored], hgone.1, rfl⟩
      · rw [if_neg hthis] at hwakes
        exact absurd hwakes (not_wakes_self _)
    · have hget : w.bindings.get (stored.replacedBy b).key = some stored := hkey ▸ hstored
      exact absurd hwakes (not_wakes_saveBinding hget (if_pos hspec) rfl key)
  | @patchBindingStatus kind base stored status _ _ hstored =>
    have hget : w.bindings.get (stored.patchedBy base status).key = some stored :=
      (Store.get_eq_some.mp hstored).2 ▸ hstored
    exact absurd hwakes (not_wakes_saveBinding hget rfl rfl key)
  | _ => exact absurd hwakes (not_wakes_self _)

end

/-- **The predicate drops what does not matter and nothing else.** Over any stretch of a run, an
event of a binding passes exactly when the binding is new or gone, or its generation or its mark
for deletion has moved. For one binding, which keeps its UID, that is so where its spec or its mark
differs between the two moments, and exactly where a user has revised it in between, be it back
and forth. And a call of a reconcile under way, however it is answered, causes no event that
passes, except that it may let go of a binding that is being deleted. -/
theorem reconcileWatchPredicate_exact {r : Reconciler} {S : Setting} {s : SystemState}
    (h : Reachable r S s) :
    (∀ s', Relation.ReflTransGen (Step r S) s s' →
      (∀ key, Wakes (s.world.bindings.get key) (s'.world.bindings.get key) ↔
        (s.world.bindings.get key).isSome ≠ (s'.world.bindings.get key).isSome ∨
        ∃ old ∈ s.world.bindings.get key, ∃ new ∈ s'.world.bindings.get key,
          old.generation ≠ new.generation ∨ old.deleting ≠ new.deleting) ∧
      ∀ old ∈ s.world.bindings.entries, ∀ new ∈ s'.world.bindings.entries, new.uid = old.uid →
        (new.spec ≠ old.spec ∨ new.deleting ≠ old.deleting → Wakes (some old) (some new)) ∧
        (Wakes (some old) (some new) ↔
          ∃ s₁ s₂, Relation.ReflTransGen (Step r S) s s₁ ∧ Revised r S old.uid s₁ s₂ ∧
            Relation.ReflTransGen (Step r S) s₂ s')) ∧
    ∀ c k log, ⟨.call c k, log⟩ ∈ s.threads → ∀ choice key,
      Wakes (s.world.bindings.get key) ((respond choice c s.world).2.bindings.get key) →
      ∃ old, s.world.bindings.get key = some old ∧ old.deleting = true ∧
        (respond choice c s.world).2.bindings.get key = none := by
  have hhistory := h.inv.history
  refine ⟨fun s' hrun => ⟨fun key => wakes_iff, fun old hold new hnew huid => ?_⟩, ?_⟩
  · have hprecedes := (World.Evolves.run h hrun).pair hhistory hold hnew huid
    rw [wakes_update]
    refine ⟨fun hdiffers => Or.inl (hprecedes.lt hdiffers).ne, fun hwakes => ?_, ?_⟩
    · refine exists_revised h hrun hold hnew huid fun hsame => ?_
      rcases hwakes with hmoved | hmarked
      · exact hmoved hsame.symm
      · exact hmarked (hprecedes.unmoved hsame).2.symm
    · rintro ⟨s₁, s₂, hrun₁, hrevised, hrun₂⟩
      exact Or.inl (lt_of_revised h hrun₁ hrevised hrun₂ hold hnew huid).ne
  · intro c k log hthread choice key hwakes
    exact wakes_effect (respond_effect choice c s.world) hhistory (h.guarded hthread) hwakes

/-- The binding `x` is given the variant `w`. -/
def revisedWorld (w : World) : World := UserOp.apply w (.editBinding (trialKey "x") (smallSpec "w"))

/-- And the variant `v` again. -/
def restoredWorld (w : World) : World :=
  UserOp.apply (revisedWorld w) (.editBinding (trialKey "x") (smallSpec "v"))

/-- The binding `x` has the variant `v`, and keeps its UID when it is edited back and forth. -/
def changesBack (s : SystemState) : Bool :=
  (s.world.bindings.get (trialKey "x")).any fun old =>
    ((revisedWorld s.world).bindings.get (trialKey "x")).any fun middle =>
      ((restoredWorld s.world).bindings.get (trialKey "x")).any fun new =>
        decide (middle.uid = old.uid ∧ middle.spec ≠ old.spec ∧ new.uid = old.uid ∧
          new.spec = old.spec)

/-- An edit that is taken back wakes the binding, and the call that adds the finalizer wakes
nobody. -/
theorem reconcileWatchPredicate_exact_trial :
    (∃ s s' : SystemState, Reachable trialReconciler (closedSetting fun _ _ => true) s ∧
      Relation.ReflTransGen (Step trialReconciler (closedSetting fun _ _ => true)) s s' ∧
      ∃ old ∈ s.world.bindings.entries, ∃ new ∈ s'.world.bindings.entries,
        new.uid = old.uid ∧ new.spec = old.spec ∧ Wakes (some old) (some new)) ∧
    ∃ s : SystemState, Reachable trialReconciler (closedSetting fun _ _ => true) s ∧
      ∃ b k log, ⟨.call (.updateBinding b) k, log⟩ ∈ s.threads ∧
        s.world.bindings.entries.length = 1 ∧
        ∀ choice key, ¬Wakes (s.world.bindings.get key)
          ((respond choice (.updateBinding b) s.world).2.bindings.get key) := by
  constructor
  · obtain ⟨s, hreach, htest⟩ := exists_reachable (r := trialReconciler)
      (S := closedSetting fun _ _ => true) trialPrelude changesBack (by decide +kernel)
    obtain ⟨old, hold, htest⟩ := (Option.any_eq_true _ _).mp htest
    obtain ⟨middle, hmiddle, htest⟩ := (Option.any_eq_true _ _).mp htest
    obtain ⟨new, hnew, htest⟩ := (Option.any_eq_true _ _).mp htest
    obtain ⟨huid₁, hspec₁, huid, hspec⟩ := of_decide_eq_true htest
    have hedit : Step trialReconciler (closedSetting fun _ _ => true) s
        ⟨revisedWorld s.world, s.threads⟩ := Step.user _ trivial (Or.inl rfl)
    have hback : Step trialReconciler (closedSetting fun _ _ => true)
        ⟨revisedWorld s.world, s.threads⟩ ⟨restoredWorld s.world, s.threads⟩ :=
      Step.user _ trivial (Or.inl rfl)
    have hold' := (Store.get_eq_some.mp hold).1
    have hnew' := (Store.get_eq_some.mp hnew).1
    have hrun := (Relation.ReflTransGen.single hedit).tail hback
    refine ⟨s, _, hreach, hrun, old, hold', new, hnew', huid, hspec, ?_⟩
    refine (((reconcileWatchPredicate_exact hreach).1 _ hrun).2 old hold' new hnew' huid).2.mpr
      ⟨s, _, .refl, ⟨hedit, ⟨.editBinding (trialKey "x") (smallSpec "w"), trivial, rfl⟩, old, hold',
        middle, ?_⟩, .single hback⟩
    exact ⟨(Store.get_eq_some.mp hmiddle).1, rfl, huid₁, Or.inl hspec₁⟩
  · obtain ⟨s, hreach, htest⟩ := exists_reachable (r := trialReconciler)
      (S := closedSetting fun _ _ => true) (trialPrelude ++ [.start (trialKey "x"), .proceed 1])
      (fun s => (s.nextCall.any fun c => match c with | .updateBinding _ => true | _ => false) &&
        decide (s.world.bindings.entries.length = 1) &&
        s.world.bindings.entries.all fun b => !b.deleting) (by decide +kernel)
    rw [Bool.and_eq_true, Bool.and_eq_true, decide_eq_true_eq] at htest
    obtain ⟨⟨hnext, hone⟩, hall⟩ := htest
    obtain ⟨c, hcall, hupdate⟩ := (Option.any_eq_true _ _).mp hnext
    cases c with
    | updateBinding b =>
      obtain ⟨k, log, hthread⟩ := SystemState.exists_thread hcall
      refine ⟨s, hreach, b, k, log, hthread, hone, fun choice key hwakes => ?_⟩
      obtain ⟨old, hold, hdeleting, -⟩ :=
        (reconcileWatchPredicate_exact hreach).2 _ k log hthread choice key hwakes
      have hnot := List.all_eq_true.mp hall old (Store.get_eq_some.mp hold).1
      rw [hdeleting] at hnot
      cases hnot
    | _ => cases hupdate

/-- A namesake is another binding. Where a watch reports the end of the one and the beginning of
the other as one update, both are of generation 1, and the update is dropped. -/
example : ¬Wakes (some ⟨trialKey "x", str "u", 1, 1, false, [], smallSpec "v", {}⟩)
    (some ⟨trialKey "x", str "u'", 2, 1, false, [], smallSpec "w", {}⟩) := by
  rw [wakes_update]
  decide

/-! ## Whom the event of an object reaches -/

theorem mem_compactIndexValues {values : List GoString} {value : GoString} :
    value ∈ compactIndexValues values ↔ value ≠ [] ∧ ∃ x ∈ values, trimSpace x = value := by
  have hfold : ∀ (trimmed result : List GoString),
      value ∈ trimmed.foldl (fun result value =>
        if value = [] ∨ value ∈ result then result else result ++ [value]) result ↔
        value ∈ result ∨ value ≠ [] ∧ value ∈ trimmed := by
    intro trimmed
    induction trimmed with
    | nil => simp
    | cons x rest ih =>
      intro result
      rw [List.foldl_cons, ih]
      by_cases hskip : x = [] ∨ x ∈ result
      · rw [if_pos hskip]
        constructor
        · rintro (h | ⟨hne, h⟩)
          · exact Or.inl h
          · exact Or.inr ⟨hne, List.mem_cons_of_mem x h⟩
        · rintro (h | ⟨hne, h⟩)
          · exact Or.inl h
          · rcases List.mem_cons.mp h with rfl | h
            · exact Or.inl (hskip.resolve_left hne)
            · exact Or.inr ⟨hne, h⟩
      · rw [if_neg hskip]
        rw [not_or] at hskip
        constructor
        · rintro (h | ⟨hne, h⟩)
          · rcases List.mem_append.mp h with h | h
            · exact Or.inl h
            · obtain rfl := List.mem_singleton.mp h
              exact Or.inr ⟨hskip.1, List.mem_cons_self⟩
          · exact Or.inr ⟨hne, List.mem_cons_of_mem x h⟩
        · rintro (h | ⟨hne, h⟩)
          · exact Or.inl (List.mem_append_left _ h)
          · rcases List.mem_cons.mp h with rfl | h
            · exact Or.inl (List.mem_append_right _ List.mem_cons_self)
            · exact Or.inr ⟨hne, h⟩
  rw [compactIndexValues, hfold]
  simp

/-- The index has the names of the record as they are. -/
theorem Binding.WellNamed.mem_index {P : Platform} {b : Binding} (h : b.WellNamed P)
    {name : GoString} : name ∈ bindingClusterSPIFFEIDNameIndexValues b ↔ b.Records name := by
  have hplain : ∀ x, (∃ plan, x = desiredName P b.key plan) → trimSpace x = x ∧ x ≠ [] := by
    rintro x ⟨plan, rfl⟩
    exact ⟨(plain_desiredName P b.key plan).trimSpace, desiredName_ne_nil P b.key plan⟩
  rw [bindingClusterSPIFFEIDNameIndexValues, mem_compactIndexValues]
  constructor
  · rintro ⟨-, x, hx, rfl⟩
    rcases List.mem_append.mp hx with hx | hx
    · obtain ⟨pending, hpending, rfl⟩ := Option.mem_map.mp (Option.mem_toList.mp hx)
      exact Or.inl ⟨pending, hpending, (hplain _ (h.pending pending hpending)).1.symm⟩
    · obtain ⟨owned, howned, rfl⟩ := Option.mem_map.mp (Option.mem_toList.mp hx)
      exact Or.inr ⟨owned, howned, (hplain _ (h.owned owned howned)).1.symm⟩
  · rintro (⟨pending, hpending, rfl⟩ | ⟨owned, howned, rfl⟩)
    · obtain ⟨htrim, hne⟩ := hplain _ (h.pending pending hpending)
      refine ⟨hne, pending.name, List.mem_append_left _ ?_, htrim⟩
      exact Option.mem_toList.mpr (Option.mem_map.mpr ⟨pending, hpending, rfl⟩)
    · obtain ⟨htrim, hne⟩ := hplain _ (h.owned owned howned)
      refine ⟨hne, owned.name, List.mem_append_right _ ?_, htrim⟩
      exact Option.mem_toList.mpr (Option.mem_map.mpr ⟨owned, howned, rfl⟩)

/-- **The events of an object reach those who record it.** In every state of every run without
forged statuses, the requests for a `ClusterSPIFFEID` are exactly the bindings that have its name
in their record. Where no record is lost on the way, these include the binding of every object
the operator has created. -/
theorem mapClusterSPIFFEIDToBindings_exact {r : Reconciler} {S : Setting} {s : SystemState}
    (hS : S.Honest) (h : Reachable r S s) {list : BindingLister} (hlist : list.Exact s.world) :
    (∀ name request, request ∈ mapClusterSPIFFEIDToBindings list name ↔
      ∃ b ∈ s.world.bindings.entries, b.key = request ∧ b.Records name) ∧
    (S.Strict → ∀ u o, s.world.Output u o → ∃ b ∈ s.world.bindings.entries,
      b.uid = u ∧ b.key ∈ mapClusterSPIFFEIDToBindings list o.name) := by
  have hmem : ∀ name request, request ∈ mapClusterSPIFFEIDToBindings list name ↔
      ∃ b ∈ s.world.bindings.entries, b.key = request ∧ b.Records name := by
    intro name request
    obtain ⟨items, hitems, hperm⟩ := hlist ⟨none, some (.managedClusterSPIFFEIDName, name)⟩
    rw [mapClusterSPIFFEIDToBindings, listBindingsByManagedClusterSPIFFEIDName, hitems]
    have hselected : ∀ b ∈ s.world.bindings.entries,
        ListOptions.selects ⟨none, some (.managedClusterSPIFFEIDName, name)⟩ b = true ↔
          b.Records name := by
      intro b hb
      have hnamed := (h.confined hS).1.bindings b (h.inv.history.binding_mem b hb)
      rw [← hnamed.mem_index, ListOptions.selects]
      exact decide_eq_true_iff
    dsimp only
    rw [mem_requestsForBindings]
    constructor
    · rintro ⟨b, hb, hkey⟩
      obtain ⟨hstored, hlisted⟩ := List.mem_filter.mp (hperm.mem_iff.mp hb)
      exact ⟨b, hstored, hkey, (hselected b hstored).mp hlisted⟩
    · rintro ⟨b, hb, hkey, hrecords⟩
      exact ⟨b, hperm.mem_iff.mpr (List.mem_filter.mpr ⟨hb, (hselected b hb).mpr hrecords⟩), hkey⟩
  refine ⟨hmem, fun hstrict u o ho => ?_⟩
  have haccounted := h.inv.accounted hstrict.closed
  obtain ⟨b, hb, rfl⟩ := haccounted.stored hstrict u o ho
  refine ⟨b, hb, rfl, (hmem _ _).mpr ⟨b, hb, rfl, ?_⟩⟩
  rcases haccounted.covered b hb (Or.inl hstrict) o ho with
    ⟨pending, hpending, hname, -⟩ | ⟨owned, howned, hname, -⟩
  · exact Or.inl ⟨pending, hpending, hname.symm⟩
  · exact Or.inr ⟨owned, howned, hname.symm⟩

/-- The object of a reconciled binding: its events reach the binding. -/
theorem mapClusterSPIFFEIDToBindings_exact_trial : ∃ s : SystemState, ∃ u o,
    Reachable trialReconciler (quietSetting fun _ _ => true) s ∧ s.world.Output u o ∧
    ∃ b ∈ s.world.bindings.entries, b.uid = u ∧
      b.key ∈ mapClusterSPIFFEIDToBindings
        (fun options => .ok (s.world.bindings.entries.filter options.selects)) o.name := by
  obtain ⟨s, hreach, htest⟩ := exists_reachable (r := trialReconciler)
    (S := quietSetting fun _ _ => true) trialReady
    (fun s => s.world.objects.entries.any fun o => s.world.created.any fun e => e.1 = o.uid)
    (by decide +kernel)
  obtain ⟨o, ho, hcreated⟩ := List.any_eq_true.mp htest
  obtain ⟨⟨uid, u⟩, he, huid⟩ := List.any_eq_true.mp hcreated
  obtain rfl : uid = o.uid := of_decide_eq_true huid
  have hquiet := quiet_quietSetting fun _ _ => true
  exact ⟨s, u, o, hreach, ⟨ho, he⟩, (mapClusterSPIFFEIDToBindings_exact hquiet.closed.honest hreach
    (fun options => ⟨_, rfl, .refl _⟩)).2 hquiet.strict u o ⟨ho, he⟩⟩

end Kleym
