import Mathlib.Data.Nat.Notation

/-!
# Programs that call out, and proofs about them under interference

A program is a tree: it either returns, or makes a call and continues with the
answer. Nothing is said here about what the calls are. Four readings of such a
tree are developed:

* `Runs` — the complete traces of the tree, with arbitrary answers, and `Always`,
  a bound on its calls and results whatever the answers are;
* `exec` — one deterministic execution against a state that answers each call;
* `Leads` — the executions against a state that may answer in several ways, and `Idles`,
  a program that never moves the state it starts in;
* `Protocol.Safe` — every call keeps its contract while others move the state
  between any two calls.

The last one is a rely/guarantee calculus: a `Protocol` fixes how the
environment may move (`env`), how calls are answered (`api`), the contract each
call has to meet at the state it is made in (`guard`), and an invariant that
both sides keep as long as the contracts are met. Proving a program safe is then
a walk over its tree with one rule for each construct, and `Safe.env` and
`Safe.answer` say that safety of the rest of the program survives every step of
the system.
-/

namespace Kleym

universe u

variable {C : Type} {R : C → Type} {α β γ : Type}

/-! ## The tree -/

/-- A program that returns an `α` after making calls `c : C` answered in `R c`. -/
inductive Prog (C : Type) (R : C → Type) (α : Type) : Type where
  /-- return a value -/
  | ret : α → Prog C R α
  /-- make a call and continue with its answer -/
  | call : (c : C) → (R c → Prog C R α) → Prog C R α

namespace Prog

/-- Graft a continuation onto every leaf. -/
protected def bind : Prog C R α → (α → Prog C R β) → Prog C R β
  | ret a, f => f a
  | call c k, f => call c fun r => (k r).bind f

instance : Monad (Prog C R) where
  pure := ret
  bind := Prog.bind

/-- Make one call and return its answer. -/
def perform (c : C) : Prog C R (R c) := call c ret

@[simp] theorem ret_bind (a : α) (f : α → Prog C R β) : (ret a : Prog C R α) >>= f = f a := rfl

theorem bind_assoc (p : Prog C R α) (f : α → Prog C R β) (g : β → Prog C R γ) :
    p >>= f >>= g = p >>= fun a => f a >>= g := by
  induction p with
  | ret a => rfl
  | call c k ih => exact congrArg (call c) (funext ih)

/-- A loop over a list that threads an accumulator and stops at the first
error, as a Go `for` loop with an early `return err` does. -/
def foldM {ε σ : Type} (step : σ → α → Prog C R (Except ε σ)) :
    List α → σ → Prog C R (Except ε σ)
  | [], s => ret (.ok s)
  | a :: rest, s => do
    match ← step s a with
    | .error e => ret (.error e)
    | .ok s' => foldM step rest s'

theorem foldM_append {ε σ : Type} (step : σ → α → Prog C R (Except ε σ)) (l₁ l₂ : List α)
    (s : σ) :
    foldM step (l₁ ++ l₂) s = foldM step l₁ s >>= fun x =>
      match x with
      | .error e => ret (.error e)
      | .ok s' => foldM step l₂ s' := by
  induction l₁ generalizing s with
  | nil => rfl
  | cons a l₁ ih =>
    rw [List.cons_append, foldM, foldM, bind_assoc]
    congr 1
    funext x
    rcases x with e | s'
    · rfl
    · exact ih s'

end Prog

/-! ## Traces -/

/-- A call together with the answer it got. -/
structure Event (C : Type) (R : C → Type) where
  /-- the call -/
  call : C
  /-- its answer -/
  answer : R call

/-- `Runs p t a`: answering the calls of `p` as in `t` makes it return `a`. -/
def Runs : Prog C R α → List (Event C R) → α → Prop
  | .ret a, t, b => t = [] ∧ a = b
  | .call c k, t, b => ∃ r t', t = ⟨c, r⟩ :: t' ∧ Runs (k r) t' b

theorem runs_bind {p : Prog C R α} {f : α → Prog C R β} {t : List (Event C R)} {b : β} :
    Runs (p >>= f) t b ↔ ∃ t₁ t₂ a, t = t₁ ++ t₂ ∧ Runs p t₁ a ∧ Runs (f a) t₂ b := by
  induction p generalizing t with
  | ret a =>
    constructor
    · intro h
      exact ⟨[], t, a, rfl, ⟨rfl, rfl⟩, h⟩
    · rintro ⟨t₁, t₂, a', rfl, ⟨rfl, rfl⟩, h⟩
      exact h
  | call c k ih =>
    constructor
    · rintro ⟨r, t', rfl, h⟩
      obtain ⟨t₁, t₂, a, rfl, h₁, h₂⟩ := (ih r).mp h
      exact ⟨⟨c, r⟩ :: t₁, t₂, a, rfl, ⟨r, t₁, rfl, h₁⟩, h₂⟩
    · rintro ⟨t₁, t₂, a, rfl, ⟨r, t₁', rfl, h₁⟩, h₂⟩
      exact ⟨r, t₁' ++ t₂, rfl, (ih r).mpr ⟨t₁', t₂, a, rfl, h₁, h₂⟩⟩

/-! ## What a program may call

`Always A Q p` bounds a program without looking at any state: whatever the answers
are, `p` makes only calls in `A` and returns only values in `Q`. -/

/-- Every call of `p` is in `A` and every value it returns is in `Q`. -/
def Always (A : C → Prop) (Q : α → Prop) : Prog C R α → Prop
  | .ret a => Q a
  | .call c k => A c ∧ ∀ r, Always A Q (k r)

namespace Always

variable {A : C → Prop} {Q : α → Prop} {Q' : β → Prop}

theorem bind {p : Prog C R α} {f : α → Prog C R β} (h : Always A Q p)
    (hf : ∀ a, Q a → Always A Q' (f a)) : Always A Q' (p >>= f) := by
  induction p with
  | ret a => exact hf a h
  | call c k ih => exact ⟨h.1, fun r => ih r (h.2 r)⟩

theorem weaken {p : Prog C R α} {V : α → Prop} (h : Always A Q p) (hV : ∀ a, Q a → V a) :
    Always A V p := by
  induction p with
  | ret a => exact hV a h
  | call c k ih => exact ⟨h.1, fun r => ih r (h.2 r)⟩

theorem foldM {ε τ : Type} {step : τ → α → Prog C R (Except ε τ)} {items : List α} {acc : τ}
    (h : ∀ a ∈ items, ∀ acc, Always A (fun _ => True) (step acc a)) :
    Always A (fun _ => True) (Prog.foldM step items acc) := by
  induction items generalizing acc with
  | nil => exact True.intro
  | cons a items ih =>
    refine (h a List.mem_cons_self acc).bind ?_
    rintro (e | acc') -
    · exact True.intro
    · exact ih fun b hb => h b (List.mem_cons_of_mem a hb)

/-- No bound at all. -/
theorem trivial (p : Prog C R α) : Always (fun _ => True) (fun _ => True) p := by
  induction p with
  | ret a => exact True.intro
  | call c k ih => exact ⟨True.intro, ih⟩

/-- A single call. -/
theorem perform {c : C} (h : A c) : Always A (fun _ => True) (Prog.perform c : Prog C R (R c)) :=
  ⟨h, fun _ => True.intro⟩

end Always

/-- What a bounded program has called in a trace, and what it returns. -/
theorem Always.of_runs {A : C → Prop} {Q : α → Prop} {p : Prog C R α} (h : Always A Q p)
    {t : List (Event C R)} {a : α} (hruns : Runs p t a) : (∀ e ∈ t, A e.call) ∧ Q a := by
  induction p generalizing t with
  | ret b =>
    rw [hruns.1, ← hruns.2]
    exact ⟨nofun, h⟩
  | call c k ih =>
    obtain ⟨r, t', rfl, hrest⟩ := hruns
    obtain ⟨hcalls, hvalue⟩ := ih r (h.2 r) hrest
    refine ⟨fun e he => ?_, hvalue⟩
    rcases List.mem_cons.mp he with rfl | he
    · exact h.1
    · exact hcalls e he

/-- `Within T A Q p`: as long as the answers are in `T`, every call of `p` is in `A` and every value
it returns is in `Q`. -/
def Within (T : (c : C) → R c → Prop) (A : C → Prop) (Q : α → Prop) : Prog C R α → Prop
  | .ret a => Q a
  | .call c k => A c ∧ ∀ r, T c r → Within T A Q (k r)

namespace Within

variable {T : (c : C) → R c → Prop} {A : C → Prop} {Q : α → Prop} {Q' : β → Prop}

theorem of_always {p : Prog C R α} (h : Always A Q p) : Within T A Q p := by
  induction p with
  | ret a => exact h
  | call c k ih => exact ⟨h.1, fun r _ => ih r (h.2 r)⟩

theorem bind {p : Prog C R α} {f : α → Prog C R β} (h : Within T A Q p)
    (hf : ∀ a, Q a → Within T A Q' (f a)) : Within T A Q' (p >>= f) := by
  induction p with
  | ret a => exact hf a h
  | call c k ih => exact ⟨h.1, fun r hr => ih r (h.2 r hr)⟩

theorem perform {c : C} (h : A c) : Within T A (T c) (Prog.perform c : Prog C R (R c)) :=
  ⟨h, fun _ hr => hr⟩

theorem mono {B : C → Prop} {V : α → Prop} {p : Prog C R α} (h : Within T A Q p)
    (hA : ∀ c, A c → B c) (hQ : ∀ a, Q a → V a) : Within T B V p := by
  induction p with
  | ret a => exact hQ a h
  | call c k ih => exact ⟨hA c h.1, fun r hr => ih r (h.2 r hr)⟩

/-- A loop keeps what each round keeps. -/
theorem foldM {ε τ : Type} {step : τ → α → Prog C R (Except ε τ)} {I : τ → Prop}
    {items : List α} {acc : τ} (hacc : I acc)
    (h : ∀ a ∈ items, ∀ acc, I acc →
      Within T A (fun x => ∀ acc', x = .ok acc' → I acc') (step acc a)) :
    Within T A (fun x => ∀ acc', x = .ok acc' → I acc') (Prog.foldM step items acc) := by
  induction items generalizing acc with
  | nil => exact fun acc' h => Except.ok.inj h ▸ hacc
  | cons a items ih =>
    refine (h a List.mem_cons_self acc hacc).bind ?_
    rintro (e | acc') hacc'
    · rintro acc' ⟨⟩
    · exact ih (hacc' acc' rfl) fun b hb => h b (List.mem_cons_of_mem a hb)

end Within

/-- Whatever the answers are, `p` makes at most so many of the calls in `A`. -/
def AtMost (A : C → Bool) : Prog C R α → ℕ → Prop
  | .ret _, _ => True
  | .call c k, n => ∃ m, m + (A c).toNat ≤ n ∧ ∀ r, AtMost A (k r) m

namespace AtMost

variable {A : C → Bool}

theorem mono {p : Prog C R α} {n n' : ℕ} (h : AtMost A p n) (hn : n ≤ n') : AtMost A p n' := by
  cases p with
  | ret a => exact True.intro
  | call c k =>
    obtain ⟨m, hm, hk⟩ := h
    exact ⟨m, Nat.le_trans hm hn, hk⟩

theorem bind {p : Prog C R α} {f : α → Prog C R β} {n n' : ℕ} (h : AtMost A p n)
    (hf : ∀ a, AtMost A (f a) n') : AtMost A (p >>= f) (n + n') := by
  induction p generalizing n with
  | ret a => exact (hf a).mono (Nat.le_add_left n' n)
  | call c k ih =>
    obtain ⟨m, hm, hk⟩ := h
    exact ⟨m + n', by omega, fun r => ih r (hk r)⟩

/-- A program that makes none of the calls. -/
theorem of_always {Q : α → Prop} {p : Prog C R α} (h : Always (fun c => A c = false) Q p) :
    AtMost A p 0 := by
  induction p with
  | ret a => exact True.intro
  | call c k ih => exact ⟨0, by simp [h.1], fun r => ih r (h.2 r)⟩

end AtMost

/-! ## Deterministic execution -/

section Exec

variable {σ : Type u} (answer : (c : C) → σ → R c × σ)

/-- Run a program against a state that answers every call. -/
def exec : Prog C R α → σ → α × σ
  | .ret a, s => (a, s)
  | .call c k, s => exec (k (answer c s).1) (answer c s).2

@[simp] theorem exec_ret (a : α) (s : σ) : exec answer (.ret a : Prog C R α) s = (a, s) := rfl

@[simp] theorem exec_call (c : C) (k : R c → Prog C R α) (s : σ) :
    exec answer (.call c k) s = exec answer (k (answer c s).1) (answer c s).2 := rfl

theorem exec_bind (p : Prog C R α) (f : α → Prog C R β) (s : σ) :
    exec answer (p >>= f) s = exec answer (f (exec answer p s).1) (exec answer p s).2 := by
  induction p generalizing s with
  | ret a => rfl
  | call c k ih => exact ih _ _

/-- What every call leaves alone, a whole execution leaves alone. -/
theorem exec_preserves {τ : Type} {view : σ → τ}
    (h : ∀ c s, view (answer c s).2 = view s) (p : Prog C R α) (s : σ) :
    view (exec answer p s).2 = view s := by
  induction p generalizing s with
  | ret a => rfl
  | call c k ih => rw [exec_call, ih, h]

/-- What a bounded program returns, whatever answers it. -/
theorem Always.of_exec {A : C → Prop} {Q : α → Prop} {p : Prog C R α} (h : Always A Q p) (s : σ) :
    Q (exec answer p s).1 := by
  induction p generalizing s with
  | ret a => exact h
  | call c k ih => exact ih _ (h.2 _) _

/-- **Simulation.** When the calls in `A` get the same answers in related states and
leave related states, so does every program that makes only such calls. -/
theorem exec_related {A : C → Prop} {Q : α → Prop} {S : σ → σ → Prop}
    (h : ∀ c s s', A c → S s s' →
      (answer c s').1 = (answer c s).1 ∧ S (answer c s).2 (answer c s').2)
    {p : Prog C R α} (hp : Always A Q p) {s s' : σ} (hs : S s s') :
    (exec answer p s').1 = (exec answer p s).1 ∧
      S (exec answer p s).2 (exec answer p s').2 := by
  induction p generalizing s s' with
  | ret a => exact ⟨rfl, hs⟩
  | call c k ih =>
    obtain ⟨hanswer, hnext⟩ := h c s s' hp.1 hs
    rw [exec_call, exec_call, hanswer]
    exact ih _ (hp.2 _) hnext

/-- The states may be related by a map. -/
theorem exec_map {A : C → Prop} {Q : α → Prop} {f : σ → σ}
    (h : ∀ c s, A c → answer c (f s) = ((answer c s).1, f (answer c s).2))
    {p : Prog C R α} (hp : Always A Q p) (s : σ) :
    exec answer p (f s) = ((exec answer p s).1, f (exec answer p s).2) := by
  have hrelated := exec_related answer (S := fun s s' => s' = f s)
    (fun c s s' hc hs => by rw [hs, h c s hc]; exact ⟨rfl, rfl⟩) hp (rfl : f s = f s)
  exact Prod.ext hrelated.1 hrelated.2

end Exec

/-! ## Undisturbed runs -/

section Leads

variable {σ : Type u} {api : (c : C) → σ → R c → σ → Prop}

/-- `Leads api p s a s'`: with its calls answered by `api` and nobody else moving the
state, `p` can go from `s` to `s'` and return `a`. -/
def Leads (api : (c : C) → σ → R c → σ → Prop) : Prog C R α → σ → α → σ → Prop
  | .ret a, s, b, s' => a = b ∧ s = s'
  | .call c k, s, b, s' => ∃ r s₁, api c s r s₁ ∧ Leads api (k r) s₁ b s'

theorem leads_bind {p : Prog C R α} {f : α → Prog C R β} {s s' : σ} {b : β} :
    Leads api (p >>= f) s b s' ↔ ∃ a s₁, Leads api p s a s₁ ∧ Leads api (f a) s₁ b s' := by
  induction p generalizing s with
  | ret a =>
    constructor
    · intro h
      exact ⟨a, s, ⟨rfl, rfl⟩, h⟩
    · rintro ⟨a', s₁, ⟨rfl, rfl⟩, h⟩
      exact h
  | call c k ih =>
    constructor
    · rintro ⟨r, s₁, hapi, h⟩
      obtain ⟨a, s₂, hp, hf⟩ := (ih r).mp h
      exact ⟨a, s₂, ⟨r, s₁, hapi, hp⟩, hf⟩
    · rintro ⟨a, s₂, ⟨r, s₁, hapi, hp⟩, hf⟩
      exact ⟨r, s₁, hapi, (ih r).mpr ⟨a, s₂, hp, hf⟩⟩

theorem leads_perform {c : C} {s s' : σ} {r : R c} :
    Leads api (Prog.perform c) s r s' ↔ api c s r s' := by
  constructor
  · rintro ⟨r', s₁, hapi, rfl, rfl⟩
    exact hapi
  · exact fun h => ⟨r, s', h, rfl, rfl⟩

/-- What each call does to the state, a whole run does: for a reflexive and transitive
relation, and a program with a bound on its calls. -/
theorem Leads.relates {A : C → Prop} {Q : α → Prop} {F : σ → σ → Prop} (hrefl : ∀ s, F s s)
    (htrans : ∀ {s s' s''}, F s s' → F s' s'' → F s s'')
    (hstep : ∀ {c s r s'}, A c → api c s r s' → F s s') {p : Prog C R α} (hp : Always A Q p)
    {s s' : σ} {a : α} (h : Leads api p s a s') : Q a ∧ F s s' := by
  induction p generalizing s with
  | ret b =>
    obtain ⟨rfl, rfl⟩ := h
    exact ⟨hp, hrefl s⟩
  | call c k ih =>
    obtain ⟨r, s₁, hapi, hrest⟩ := h
    obtain ⟨hvalue, hrelated⟩ := ih r (hp.2 r) hrest
    exact ⟨hvalue, htrans (hstep hp.1 hapi) hrelated⟩

/-- The same for every program, where every call does it. -/
theorem Leads.preserves {F : σ → σ → Prop} (hrefl : ∀ s, F s s)
    (htrans : ∀ {s s' s''}, F s s' → F s' s'' → F s s'')
    (hstep : ∀ {c s r s'}, api c s r s' → F s s') {p : Prog C R α} {s s' : σ} {a : α}
    (h : Leads api p s a s') : F s s' := by
  induction p generalizing s with
  | ret b =>
    obtain ⟨-, rfl⟩ := h
    exact hrefl s
  | call c k ih =>
    obtain ⟨r, s₁, hapi, hrest⟩ := h
    exact htrans (hstep hapi) (ih r hrest)

theorem Leads.mono {api' : (c : C) → σ → R c → σ → Prop}
    (hapi : ∀ {c s r s'}, api c s r s' → api' c s r s') {p : Prog C R α} {s s' : σ} {a : α}
    (h : Leads api p s a s') : Leads api' p s a s' := by
  induction p generalizing s with
  | ret b => exact h
  | call c k ih =>
    obtain ⟨r, s₁, hcall, hrest⟩ := h
    exact ⟨r, s₁, hapi hcall, ih r hrest⟩

/-- The calls of a run are within the bounds of its program, where the answers can be trusted in
the states in `J`, and calls within the bounds do not leave these. -/
theorem Leads.within {T : (c : C) → R c → Prop} {A : C → Prop} {Q : α → Prop} {J : σ → Prop}
    (hJ : ∀ {c s r s'}, A c → J s → api c s r s' → T c r ∧ J s') {p : Prog C R α}
    (hp : Within T A Q p) {s s' : σ} {a : α} (hs : J s) (h : Leads api p s a s') :
    Q a ∧ Leads (fun c s r s' => A c ∧ api c s r s') p s a s' := by
  induction p generalizing s with
  | ret b =>
    obtain ⟨rfl, rfl⟩ := h
    exact ⟨hp, rfl, rfl⟩
  | call c k ih =>
    obtain ⟨r, s₁, hapi, hrest⟩ := h
    obtain ⟨htrusted, hs₁⟩ := hJ hp.1 hs hapi
    obtain ⟨hvalue, hrun⟩ := ih r (hp.2 r htrusted) hs₁ hrest
    exact ⟨hvalue, r, s₁, ⟨hp.1, hapi⟩, hrun⟩

/-- **Simulation of runs.** When a call in `A` gets an answer in `T` that it can get in a related
state as well, and leaves related states, a run can be repeated from a related state. -/
theorem Leads.simulates {T : (c : C) → R c → Prop} {A : C → Prop} {Q : α → Prop}
    {F : σ → σ → Prop}
    (hstep : ∀ {c s t r s'}, A c → F s t → api c s r s' → T c r ∧ ∃ t', api c t r t' ∧ F s' t')
    {p : Prog C R α} (hp : Within T A Q p) {s s' t : σ} {a : α} (hF : F s t)
    (h : Leads api p s a s') : ∃ t', Leads api p t a t' ∧ F s' t' := by
  induction p generalizing s t with
  | ret b =>
    obtain ⟨rfl, rfl⟩ := h
    exact ⟨t, ⟨rfl, rfl⟩, hF⟩
  | call c k ih =>
    obtain ⟨r, s₁, hapi, hrest⟩ := h
    obtain ⟨htrusted, t₁, hapi', hF₁⟩ := hstep hp.1 hF hapi
    obtain ⟨t', hrest', hF'⟩ := ih r (hp.2 r htrusted) hF₁ hrest
    exact ⟨t', ⟨r, t₁, hapi', hrest'⟩, hF'⟩

/-- Where every call is answered, every program has a run. -/
theorem Leads.total (htotal : ∀ c s, ∃ r s', api c s r s') (p : Prog C R α) (s : σ) :
    ∃ a s', Leads api p s a s' := by
  induction p generalizing s with
  | ret a => exact ⟨a, s, rfl, rfl⟩
  | call c k ih =>
    obtain ⟨r, s₁, hapi⟩ := htotal c s
    obtain ⟨a, s', hrest⟩ := ih r s₁
    exact ⟨a, s', r, s₁, hapi, hrest⟩

/-- A program whose calls have one answer each and leave the state alone has one run. -/
theorem Leads.determined {answer : (c : C) → σ → R c × σ} {A : C → Prop} {Q : α → Prop}
    {s s' : σ} (hstep : ∀ {c r s₁}, A c → api c s r s₁ → answer c s = (r, s₁) ∧ s₁ = s)
    {p : Prog C R α} (hp : Always A Q p) {a : α} (h : Leads api p s a s') :
    a = (exec answer p s).1 ∧ s' = s := by
  induction p with
  | ret b =>
    obtain ⟨rfl, rfl⟩ := h
    exact ⟨rfl, rfl⟩
  | call c k ih =>
    obtain ⟨r, s₁, hcall, hrest⟩ := h
    obtain ⟨hanswer, rfl⟩ := hstep hp.1 hcall
    rw [exec_call, hanswer]
    exact ih r (hp.2 r) hrest

/-- `Idles api A Q p s`: from `s`, however its calls are answered, `p` makes only calls in
`A`, none of which moves the state, and returns a value in `Q`. -/
def Idles (api : (c : C) → σ → R c → σ → Prop) (A : C → Prop) (Q : α → Prop) :
    Prog C R α → σ → Prop
  | .ret a, _ => Q a
  | .call c k, s => A c ∧ ∀ r s', api c s r s' → s' = s ∧ Idles api A Q (k r) s

namespace Idles

variable {A : C → Prop} {Q : α → Prop} {Q' : β → Prop} {s : σ}

theorem bind {p : Prog C R α} {f : α → Prog C R β} (h : Idles api A Q p s)
    (hf : ∀ a, Q a → Idles api A Q' (f a) s) : Idles api A Q' (p >>= f) s := by
  induction p with
  | ret a => exact hf a h
  | call c k ih =>
    refine ⟨h.1, fun r s' hapi => ?_⟩
    obtain ⟨hsame, hrest⟩ := h.2 r s' hapi
    exact ⟨hsame, ih r hrest⟩

theorem perform {c : C} {Q : R c → Prop} (hc : A c) (h : ∀ r s', api c s r s' → s' = s ∧ Q r) :
    Idles api A Q (Prog.perform c) s :=
  ⟨hc, h⟩

/-- A program whose calls have one answer each and leave the state alone. -/
theorem of_always {answer : (c : C) → σ → R c × σ} {V : α → Prop}
    (hstep : ∀ {c r s'}, A c → api c s r s' → answer c s = (r, s') ∧ s' = s)
    {p : Prog C R α} (hp : Always A V p) : Idles api A (· = (exec answer p s).1) p s := by
  induction p with
  | ret a => rfl
  | call c k ih =>
    refine ⟨hp.1, fun r s' hapi => ?_⟩
    obtain ⟨hanswer, rfl⟩ := hstep hp.1 hapi
    rw [exec_call, hanswer]
    exact ⟨rfl, ih r (hp.2 r)⟩

theorem mono {B : C → Prop} {V : α → Prop} (hA : ∀ c, A c → B c) (hQ : ∀ a, Q a → V a)
    {p : Prog C R α} (h : Idles api A Q p s) : Idles api B V p s := by
  induction p with
  | ret a => exact hQ a h
  | call c k ih => exact ⟨hA c h.1, fun r s' hapi => ⟨(h.2 r s' hapi).1, ih r (h.2 r s' hapi).2⟩⟩

/-- Where every call is answered, a program that idles has a run, which stays where it is. -/
theorem leads (htotal : ∀ c, ∃ r s', api c s r s') {p : Prog C R α} (h : Idles api A Q p s) :
    ∃ a, Q a ∧ Leads (fun c s₁ r s₂ => A c ∧ s₁ = s ∧ s₂ = s ∧ api c s₁ r s₂) p s a s := by
  induction p with
  | ret a => exact ⟨a, h, rfl, rfl⟩
  | call c k ih =>
    obtain ⟨r, s', hapi⟩ := htotal c
    obtain ⟨rfl, hrest⟩ := h.2 r s' hapi
    obtain ⟨a, ha, hleads⟩ := ih r hrest
    exact ⟨a, ha, r, s', ⟨h.1, rfl, rfl, hapi⟩, hleads⟩

end Idles

end Leads

/-! ## Safety under interference -/

/-- The rules two sides play by: a program that makes calls, and everybody else. -/
structure Protocol (C : Type) (R : C → Type) (σ : Type u) where
  /-- what others may do to the state between two calls -/
  env : σ → σ → Prop
  /-- how a call made in a state may be answered, and the state it leaves -/
  api : (c : C) → σ → R c → σ → Prop
  /-- what holds of every state -/
  inv : σ → Prop
  /-- the contract of a call: what holds of the state whenever it is made -/
  guard : C → σ → Prop
  env_refl : ∀ s, env s s
  env_trans : ∀ {s s' s''}, env s s' → env s' s'' → env s s''
  inv_env : ∀ {s s'}, inv s → env s s' → inv s'
  inv_api : ∀ {c s r s'}, inv s → guard c s → api c s r s' → inv s'

namespace Protocol

variable {σ : Type u} (T : Protocol C R σ)

/-- `T.Safe p Q s`: from `s`, with others moving between any two calls, `p` makes
every call within its contract, and `Q` holds when it returns. -/
def Safe : Prog C R α → (α → σ → Prop) → σ → Prop
  | .ret a, Q, s => Q a s
  | .call c k, Q, s => ∀ s₁, T.env s s₁ → T.inv s₁ →
      T.guard c s₁ ∧ ∀ r s₂, T.api c s₁ r s₂ → T.inv s₂ → Safe (k r) Q s₂

/-- What holds when a fallible program returns a value, and when it fails. -/
def Outcome {ε : Type} (Q : α → σ → Prop) (E : ε → σ → Prop) : Except ε α → σ → Prop
  | .ok a, s => Q a s
  | .error e, s => E e s

/-- An assertion that others do not invalidate. -/
def Stable (A : σ → Prop) : Prop := ∀ {s s'}, T.inv s → A s → T.env s s' → A s'

variable {T}

theorem Stable.and {A B : σ → Prop} (hA : T.Stable A) (hB : T.Stable B) :
    T.Stable fun s => A s ∧ B s :=
  fun hinv h henv => ⟨hA hinv h.1 henv, hB hinv h.2 henv⟩

theorem Safe.mono {p : Prog C R α} {Q Q' : α → σ → Prop} {s : σ} (h : T.Safe p Q s)
    (hinv : T.inv s) (hQ : ∀ a s', T.inv s' → Q a s' → Q' a s') : T.Safe p Q' s := by
  induction p generalizing s with
  | ret a => exact hQ a s hinv h
  | call c k ih =>
    intro s₁ henv hinv₁
    obtain ⟨hguard, hnext⟩ := h s₁ henv hinv₁
    exact ⟨hguard, fun r s₂ hapi hinv₂ => ih r (hnext r s₂ hapi hinv₂) hinv₂⟩

/-- Sequencing: prove the first part, then the second from what the first
establishes. -/
theorem Safe.bind {p : Prog C R α} {f : α → Prog C R β} {Q : α → σ → Prop}
    {Q' : β → σ → Prop} {s : σ} (h : T.Safe p Q s) (hinv : T.inv s)
    (hf : ∀ a s', T.inv s' → Q a s' → T.Safe (f a) Q' s') : T.Safe (p >>= f) Q' s := by
  induction p generalizing s with
  | ret a => exact hf a s hinv h
  | call c k ih =>
    intro s₁ henv hinv₁
    obtain ⟨hguard, hnext⟩ := h s₁ henv hinv₁
    exact ⟨hguard, fun r s₂ hapi hinv₂ => ih r (hnext r s₂ hapi hinv₂) hinv₂⟩

/-- The rule for a single call, from an assertion that survives interference. -/
theorem Safe.perform {c : C} {Q : R c → σ → Prop} {A : σ → Prop} (hA : T.Stable A) {s : σ}
    (hinv : T.inv s) (hs : A s)
    (h : ∀ s₁, T.inv s₁ → A s₁ →
      T.guard c s₁ ∧ ∀ r s₂, T.api c s₁ r s₂ → T.inv s₂ → Q r s₂) :
    T.Safe (Prog.perform c) Q s :=
  fun s₁ henv hinv₁ => h s₁ hinv₁ (hA hinv hs henv)

/-- The frame rule: what others do not touch and no call of the program touches holds
still when it returns. -/
theorem Safe.frame {A : C → Prop} {V : α → Prop} {F : σ → Prop} (hF : T.Stable F)
    (hcall : ∀ {c s r s'}, A c → T.inv s → T.guard c s → F s → T.api c s r s' → T.inv s' → F s')
    {p : Prog C R α} (hp : Always A V p) {Q : α → σ → Prop} {s : σ} (h : T.Safe p Q s)
    (hinv : T.inv s) (hs : F s) : T.Safe p (fun a s' => Q a s' ∧ V a ∧ F s') s := by
  induction p generalizing s with
  | ret a => exact ⟨h, hp, hs⟩
  | call c k ih =>
    intro s₁ henv hinv₁
    obtain ⟨hguard, hnext⟩ := h s₁ henv hinv₁
    refine ⟨hguard, fun r s₂ hapi hinv₂ => ?_⟩
    exact ih r (hp.2 r) (hnext r s₂ hapi hinv₂) hinv₂
      (hcall hp.1 hinv₁ hguard (hF hinv hs henv) hapi hinv₂)

/-- A loop keeps what each round keeps. The assertion may depend on the items
still to come; a round that fails leaves the loop with its error. -/
theorem Safe.foldM {ε τ : Type} {step : τ → α → Prog C R (Except ε τ)}
    {I : List α → τ → σ → Prop} {E : ε → σ → Prop} {items : List α} {acc : τ} {s : σ}
    (hinv : T.inv s) (h : I items acc s)
    (hstep : ∀ a rest acc s, T.inv s → I (a :: rest) acc s →
      T.Safe (step acc a) (Outcome (I rest) E) s) :
    T.Safe (Prog.foldM step items acc) (Outcome (I []) E) s := by
  induction items generalizing acc s with
  | nil => exact h
  | cons a rest ih =>
    refine (hstep a rest acc s hinv h).bind hinv ?_
    rintro (e | acc') s' hinv' hx
    · exact hx
    · exact ih hinv' hx

/-- A program leaves its trace, where a state keeps one: `leaves s t s'` says that `s'` comes
after `s` with the events `t` in between. -/
theorem Safe.traced (leaves : σ → List (Event C R) → σ → Prop)
    (hnil : ∀ s, leaves s [] s)
    (henv : ∀ {s s' s'' t}, T.env s s' → leaves s' t s'' → leaves s t s'')
    (hapi : ∀ {c s r s' s'' t}, T.api c s r s' → leaves s' t s'' → leaves s (⟨c, r⟩ :: t) s'')
    {p : Prog C R α} {Q : α → σ → Prop} {s : σ} (h : T.Safe p Q s) :
    T.Safe p (fun a s' => Q a s' ∧ ∃ t, leaves s t s' ∧ Runs p t a) s := by
  suffices hgen : ∀ (p : Prog C R α) (s₀ s : σ) (pre : List (Event C R) → List (Event C R)),
      (∀ {t s'}, leaves s t s' → leaves s₀ (pre t) s') → T.Safe p Q s →
      T.Safe p (fun a s' => Q a s' ∧ ∃ t, leaves s₀ (pre t) s' ∧ Runs p t a) s from
    hgen p s s id id h
  intro p
  induction p with
  | ret a => exact fun s₀ s pre hpre h => ⟨h, [], hpre (hnil s), rfl, rfl⟩
  | call c k ih =>
    intro s₀ s pre hpre h s₁ henv₁ hinv₁
    obtain ⟨hguard, hnext⟩ := h s₁ henv₁ hinv₁
    refine ⟨hguard, fun r s₂ hapi₂ hinv₂ => ?_⟩
    refine (ih r s₀ s₂ (fun t => pre (⟨c, r⟩ :: t)) (fun ht => hpre (henv henv₁ (hapi hapi₂ ht)))
      (hnext r s₂ hapi₂ hinv₂)).mono hinv₂ ?_
    rintro a s' - ⟨hQ, t, ht, hruns⟩
    exact ⟨hQ, ⟨c, r⟩ :: t, ht, r, t, rfl, hruns⟩

/-- Interference does not hurt what is left of a safe program. -/
theorem Safe.env {p : Prog C R α} {s s' : σ} (h : T.Safe p (fun _ _ => True) s)
    (henv : T.env s s') : T.Safe p (fun _ _ => True) s' := by
  cases p with
  | ret a => trivial
  | call c k => exact fun s₁ h₁ hinv => h s₁ (T.env_trans henv h₁) hinv

/-- The next call of a safe program is within its contract. -/
theorem Safe.guarded {c : C} {k : R c → Prog C R α} {Q : α → σ → Prop} {s : σ}
    (h : T.Safe (.call c k) Q s) (hinv : T.inv s) : T.guard c s :=
  (h s (T.env_refl s) hinv).1

/-- Answering the next call leaves a safe program, and the invariant. -/
theorem Safe.answer {c : C} {k : R c → Prog C R α} {Q : α → σ → Prop} {s s' : σ} {r : R c}
    (h : T.Safe (.call c k) Q s) (hinv : T.inv s) (hapi : T.api c s r s') :
    T.inv s' ∧ T.Safe (k r) Q s' := by
  obtain ⟨hguard, hnext⟩ := h s (T.env_refl s) hinv
  have hinv' := T.inv_api hinv hguard hapi
  exact ⟨hinv', hnext r s' hapi hinv'⟩

/-- An undisturbed run of a safe program ends as promised. -/
theorem Safe.leads {p : Prog C R α} {Q : α → σ → Prop} {s s' : σ} {a : α} (h : T.Safe p Q s)
    (hinv : T.inv s) (hrun : Leads T.api p s a s') : Q a s' := by
  induction p generalizing s with
  | ret b =>
    obtain ⟨rfl, rfl⟩ := hrun
    exact h
  | call c k ih =>
    obtain ⟨r, s₁, hapi, hrest⟩ := hrun
    obtain ⟨hinv₁, hsafe⟩ := h.answer hinv hapi
    exact ih r hsafe hinv₁ hrest

/-! ## Safety without interference -/

/-- The rules of a program that runs alone, with calls that have no contract but keep an
invariant. -/
def alone (api : (c : C) → σ → R c → σ → Prop) (inv : σ → Prop)
    (hkeeps : ∀ c s r s', inv s → api c s r s' → inv s') : Protocol C R σ where
  env := Eq
  api := api
  inv := inv
  guard _ _ := True
  env_refl _ := rfl
  env_trans := Eq.trans
  inv_env hinv henv := henv ▸ hinv
  inv_api hinv _ hapi := hkeeps _ _ _ _ hinv hapi

section Alone

variable {api : (c : C) → σ → R c → σ → Prop} {inv : σ → Prop}
  {hkeeps : ∀ c s r s', inv s → api c s r s' → inv s'}

theorem alone_perform {c : C} {Q : R c → σ → Prop} {s : σ}
    (h : ∀ r s', api c s r s' → inv s' → Q r s') :
    (alone api inv hkeeps).Safe (Prog.perform c) Q s := by
  rintro s₁ rfl -
  exact ⟨True.intro, h⟩

/-- When it returns, it has made a run. -/
theorem Safe.leading {p : Prog C R α} {Q : α → σ → Prop} {s : σ}
    (h : (alone api inv hkeeps).Safe p Q s) :
    (alone api inv hkeeps).Safe p (fun a s' => Q a s' ∧ Leads api p s a s') s := by
  induction p generalizing s with
  | ret a => exact ⟨h, rfl, rfl⟩
  | call c k ih =>
    rintro s₁ rfl hinv
    refine ⟨True.intro, fun r s₂ hapi hinv₂ => ?_⟩
    refine (ih r ((h s rfl hinv).2 r s₂ hapi hinv₂)).mono hinv₂ ?_
    rintro a s' - ⟨hQ, hrun⟩
    exact ⟨hQ, r, s₂, hapi, hrun⟩

/-- What holds of every run holds when it returns. -/
theorem alone_of_leads {p : Prog C R α} {Q : α → σ → Prop} {s : σ}
    (h : ∀ a s', Leads api p s a s' → Q a s') : (alone api inv hkeeps).Safe p Q s := by
  induction p generalizing s with
  | ret a => exact h a s ⟨rfl, rfl⟩
  | call c k ih =>
    rintro s₁ rfl -
    exact ⟨True.intro, fun r s₂ hapi _ => ih r fun a s' hrun => h a s' ⟨r, s₂, hapi, hrun⟩⟩

end Alone

end Protocol

end Kleym
