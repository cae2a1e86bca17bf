import Kleym.Phases

/-!
# Every run keeps to the contracts

The walk through `reconcile` shows that a reconcile keeps to its contracts as long as
others keep to `Rely`. Here both sides are put together: users and the other
reconciles do keep to it, so in every state of every run the invariant holds and what
is left of each reconcile is safe.
-/

namespace Kleym

open GoString Prog

variable {r : Reconciler} {S : Setting} {w : World}

theorem Inv.initial (S : Setting) (served : List GroupVersionKind) :
    Inv S (World.initial served) where
  history := History.initial served
  authentic _ := by constructor <;> simp [World.initial]
  classified _ := by simp [Classified, World.initial]
  accounted _ := by constructor <;> simp [World.initial, World.Output, Store.empty]
  exclusive _ := by constructor <;> simp [World.initial, World.Output, Store.empty]

/-! ## The others -/

/-- Some UID is not the one an operation hands out. -/
theorem UserOp.exists_other (op : UserOp) : ∃ u, op.newUID ≠ some u := by
  rcases h : op.newUID with _ | uid
  · exact ⟨[], nofun⟩
  · exact ⟨0 :: uid, fun heq => List.cons_ne_self 0 uid (Option.some.inj heq).symm⟩

theorem UserOp.newUID_ne {op : UserOp} (hop : op.Permitted S w) {u : GoString}
    (hu : u ∈ w.identifiers) : op.newUID ≠ some u := by
  cases op with
  | createBinding key uid finalizers spec =>
    rintro ⟨⟩
    exact hop.2.2 hu
  | _ => exact nofun

/-- The end of a termination does not touch bindings. -/
theorem UserOp.bindings_of_isRemoval {op : UserOp} (h : op.isRemoval = true) (w : World) :
    (op.apply w).bindings = w.bindings := by
  cases op with
  | removeObject name => rfl
  | _ => cases h

/-- Users keep to what a reconcile under way relies on. -/
theorem rely_user {op : UserOp} (hop : op.Permitted S w)
    (hturn : S.overlap = true ∨ op.isRemoval = true) : Rely S w (op.apply w) := by
  intro hinv
  obtain ⟨u, hu⟩ := op.exists_other
  refine ⟨hinv.user hop, (spares_user hinv hop hu).toCalm,
    fun u hu => spares_user hinv hop (UserOp.newUID_ne hop hu), ?_⟩
  intro _ hoverlap
  rcases hturn with h | h
  · rw [h] at hoverlap
    cases hoverlap
  · exact UserOp.bindings_of_isRemoval h w

/-- So do the calls of another reconcile, which there is only where several may run. -/
theorem rely_parallel {log : Log} {c : Call} {choice : Choice} (hparallel : S.parallel = true)
    (hguard : Guard r S log w c) (hfresh : w.Fresh choice.fresh) :
    Rely S w (respond choice c w).2 := by
  have hS : ¬S.Tidy := fun ht => by simp [ht.2.2] at hparallel
  intro hinv
  have hspares : ∀ u, Spares S u w (respond choice c w).2 :=
    fun u => Spares.of_grows (grows_respond choice c w) hS
  exact ⟨hinv.respond hguard hfresh, (hspares []).toCalm, fun u _ => hspares u,
    fun ht => absurd ht hS⟩

/-! ## Runs -/

/-- What is left of a reconcile keeps to the contracts. -/
def Thread.Sound (r : Reconciler) (S : Setting) (w : World) (t : Thread) : Prop :=
  (operatorProtocol r S).Safe t.prog (fun _ _ => True) ⟨w, t.log⟩

theorem Thread.Sound.rely {t : Thread} {w' : World} (h : t.Sound r S w) (hrely : Rely S w w') :
    t.Sound r S w' :=
  Protocol.Safe.env h ⟨rfl, hrely⟩

/-- What holds in every state of every run. -/
structure SystemInv (r : Reconciler) (S : Setting) (s : SystemState) : Prop where
  inv : Inv S s.world
  sound : ∀ t ∈ s.threads, t.Sound r S s.world
  single : S.parallel = false → s.threads.length ≤ 1

theorem SystemInv.initial (r : Reconciler) (S : Setting) : SystemInv r S .initial where
  inv := Inv.initial S []
  sound := nofun
  single _ := Nat.zero_le 1

/-- Two reconciles are under way only where several may run. -/
theorem SystemInv.parallel {before after : List Thread} {t t' : Thread}
    (h : SystemInv r S ⟨w, before ++ t :: after⟩) (ht' : t' ∈ before ++ after) :
    S.parallel = true := by
  by_contra hne
  have hlength := h.single (by simpa using hne)
  have hpos := List.length_pos_of_mem ht'
  simp only [List.length_append, List.length_cons] at hlength hpos
  omega

theorem SystemInv.answer {before after : List Thread} {c : Call}
    {k : Answer c → Op (Except GoError ReconcileResult)} {log : Log} {choice : Choice}
    (h : SystemInv r S ⟨w, before ++ ⟨.call c k, log⟩ :: after⟩)
    (hchoice : Admissible S choice c w) :
    SystemInv r S ⟨(respond choice c w).2,
      before ++ ⟨k (respond choice c w).1, log ++ [⟨c, (respond choice c w).1⟩]⟩ :: after⟩ := by
  have hsafe : (operatorProtocol r S).Safe (.call c k) (fun _ _ => True) ⟨w, log⟩ :=
    h.sound ⟨.call c k, log⟩ (by simp)
  have hanswered : Answered S c ⟨w, log⟩ (respond choice c w).1
      ⟨(respond choice c w).2, log ++ [⟨c, (respond choice c w).1⟩]⟩ :=
    ⟨⟨choice, hchoice, rfl⟩, rfl⟩
  obtain ⟨hinv', hsafe'⟩ := hsafe.answer h.inv hanswered
  refine ⟨hinv', ?_, ?_⟩
  · intro t ht
    rcases List.mem_append.mp ht with ht | ht
    · exact (h.sound t (by simp [ht])).rely
        (rely_parallel (h.parallel (List.mem_append_left _ ht)) (hsafe.guarded h.inv) hchoice.fresh)
    rcases List.mem_cons.mp ht with rfl | ht
    · exact hsafe'
    · exact (h.sound t (by simp [ht])).rely
        (rely_parallel (h.parallel (List.mem_append_right _ ht)) (hsafe.guarded h.inv)
          hchoice.fresh)
  · intro hp
    have := h.single hp
    simpa using this

/-- A step keeps the invariant. -/
theorem SystemInv.step {s s' : SystemState} (h : SystemInv r S s) (hstep : Step r S s s') :
    SystemInv r S s' := by
  cases hstep with
  | user op hop hturn =>
    refine ⟨h.inv.user hop, ?_, h.single⟩
    intro t ht
    refine (h.sound t ht).rely (rely_user hop ?_)
    rcases hturn with hoverlap | hnone | hremoval
    · exact Or.inl hoverlap
    · rw [hnone] at ht
      cases ht
    · exact Or.inr hremoval
  | start key hturn =>
    refine ⟨h.inv, ?_, ?_⟩
    · intro t ht
      rcases List.mem_cons.mp ht with rfl | ht
      · exact safe_reconcile key h.inv
      · exact h.sound t ht
    · intro hp
      rcases hturn with hparallel | rfl
      · rw [hp] at hparallel
        cases hparallel
      · exact Nat.le_refl 1
  | answer choice hchoice => exact h.answer hchoice
  | stop =>
    refine ⟨h.inv, fun t ht => h.sound t ?_, ?_⟩
    · rcases List.mem_append.mp ht with ht | ht <;> simp [ht]
    · intro hp
      have := h.single hp
      simp only [List.length_append, List.length_cons] at this ⊢
      omega

/-- In every state of every run the invariant holds, and each reconcile under way keeps
to its contracts. -/
theorem Reachable.systemInv {s : SystemState} (h : Reachable r S s) : SystemInv r S s := by
  induction h with
  | refl => exact SystemInv.initial r S
  | tail _ hstep ih => exact ih.step hstep

theorem Reachable.inv {s : SystemState} (h : Reachable r S s) : Inv S s.world := h.systemInv.inv

/-- A call that a reconcile is about to make is within its contract. -/
theorem Reachable.guarded {s : SystemState} (h : Reachable r S s) {c : Call}
    {k : Answer c → Op (Except GoError ReconcileResult)} {log : Log}
    (ht : ⟨.call c k, log⟩ ∈ s.threads) : Guard r S log s.world c :=
  Protocol.Safe.guarded (h.systemInv.sound _ ht) h.inv

end Kleym
