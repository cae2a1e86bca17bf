import Kleym.Safety

/-!
# Runs that can be carried out

`Step` says what may happen; here a run is a list of moves, and carrying it out is a
computation that stops at a move which is not possible. What it arrives at is
reachable. With it a statement about every run can be shown to say something, and a
run that goes wrong can be looked at.
-/

namespace Kleym

open GoString Prog

/-- A move of a run. -/
inductive Move : Type where
  | user (op : UserOp)
  | start (key : NamespacedName)
  /-- answer the next call of the reconcile that started last -/
  | answer (choice : Choice)
  /-- answer so many calls without a fault -/
  | proceed (calls : ℕ)
  | stop

/-- A call is served, with this identifier to hand out. -/
def Choice.plain (fresh : GoString) : Choice := { fresh := fresh }

/-- An identifier that is new as long as others keep away from this form. -/
def World.unused (w : World) : GoString := str "id-" ++ itoa w.identifiers.length

namespace SystemState

variable (r : Reconciler) (S : Setting)

/-- The next call of the reconcile that started last. -/
def nextCall (s : SystemState) : Option Call :=
  match s.threads with
  | ⟨.call c _, _⟩ :: _ => some c
  | _ => none

/-- Answer the next call of the reconcile that started last. -/
def answer (choice : Choice) (s : SystemState) : Option SystemState :=
  match s.threads with
  | ⟨.call c k, log⟩ :: rest =>
    if Admissible S choice c s.world then
      some ⟨(respond choice c s.world).2,
        ⟨k (respond choice c s.world).1, log ++ [⟨c, (respond choice c s.world).1⟩]⟩ :: rest⟩
    else none
  | _ => none

/-- Answer so many calls without a fault. -/
def proceed : ℕ → SystemState → Option SystemState
  | 0, s => some s
  | n + 1, s => (s.answer S (.plain s.world.unused)).bind (proceed n)

/-- The state a move leaves, if it is possible. -/
def perform (s : SystemState) : Move → Option SystemState
  | .user op =>
    if op.Permitted S s.world ∧
        (S.overlap = true ∨ s.threads.isEmpty = true ∨ op.isRemoval = true) then
      some ⟨op.apply s.world, s.threads⟩
    else none
  | .start key =>
    if S.parallel = true ∨ s.threads.isEmpty = true then
      some ⟨s.world, ⟨r.reconcile key, []⟩ :: s.threads⟩
    else none
  | .answer choice => s.answer S choice
  | .proceed n => proceed S n s
  | .stop =>
    match s.threads with
    | _ :: rest => some ⟨s.world, rest⟩
    | [] => none

/-- The state a list of moves leaves, if all of them are possible. -/
def carryOut : List Move → SystemState → Option SystemState
  | [], s => some s
  | m :: rest, s => (s.perform r S m).bind (carryOut rest)

end SystemState

section

variable {r : Reconciler} {S : Setting} {s s' : SystemState}

theorem step_of_answer {choice : Choice} (h : s.answer S choice = some s') : Step r S s s' := by
  obtain ⟨w, threads⟩ := s
  unfold SystemState.answer at h
  split at h
  · rename_i c k log rest hthreads
    split_ifs at h with hchoice
    cases hthreads
    cases h
    exact (Step.answer choice hchoice : Step r S ⟨w, [] ++ ⟨.call c k, log⟩ :: rest⟩ _)
  · cases h

theorem steps_of_proceed {n : ℕ} (h : SystemState.proceed S n s = some s') :
    Relation.ReflTransGen (Step r S) s s' := by
  induction n generalizing s with
  | zero =>
    cases h
    exact .refl
  | succ n ih =>
    obtain ⟨s₁, h₁, hrest⟩ := Option.bind_eq_some_iff.mp h
    exact .head (step_of_answer h₁) (ih hrest)

theorem steps_of_perform {m : Move} (h : s.perform r S m = some s') :
    Relation.ReflTransGen (Step r S) s s' := by
  obtain ⟨w, threads⟩ := s
  cases m with
  | user op =>
    simp only [SystemState.perform, List.isEmpty_iff] at h
    split_ifs at h with hop
    cases h
    exact .single (Step.user op hop.1 hop.2)
  | start key =>
    simp only [SystemState.perform, List.isEmpty_iff] at h
    split_ifs at h with hturn
    cases h
    exact .single (Step.start key hturn)
  | answer choice => exact .single (step_of_answer h)
  | proceed n => exact steps_of_proceed h
  | stop =>
    cases threads with
    | nil => cases h
    | cons t rest =>
      cases h
      exact .single (Step.stop : Step r S ⟨w, [] ++ t :: rest⟩ _)

/-- What can be carried out from the empty cluster is reachable. -/
theorem reachable_of_carryOut {moves : List Move}
    (h : SystemState.carryOut r S moves .initial = some s) : Reachable r S s := by
  suffices hgen : ∀ moves s₀, SystemState.carryOut r S moves s₀ = some s →
      Relation.ReflTransGen (Step r S) s₀ s from hgen moves _ h
  intro moves
  induction moves with
  | nil =>
    intro s₀ h
    cases h
    exact .refl
  | cons m rest ih =>
    intro s₀ h
    obtain ⟨s₁, h₁, hrest⟩ := Option.bind_eq_some_iff.mp h
    exact (steps_of_perform h₁).trans (ih s₁ hrest)

/-- A run that ends where a test holds. -/
theorem exists_reachable (moves : List Move) (test : SystemState → Bool)
    (h : (SystemState.carryOut r S moves .initial).any test = true) :
    ∃ s, Reachable r S s ∧ test s = true := by
  rcases hs : SystemState.carryOut r S moves .initial with _ | s
  · rw [hs] at h
    cases h
  · rw [hs] at h
    exact ⟨s, reachable_of_carryOut hs, h⟩

theorem SystemState.exists_thread {c : Call} (h : s.nextCall = some c) :
    ∃ k log, ⟨.call c k, log⟩ ∈ s.threads := by
  unfold SystemState.nextCall at h
  split at h
  · rename_i c' k log rest hthreads
    cases h
    exact ⟨k, log, hthreads ▸ List.mem_cons_self⟩
  · cases h

end

/-! ## Settings -/

/-- Reads may be old, and everything may happen at once; only statuses and finalizers are nobody
else's. -/
def busySetting : Setting where
  forgery := false
  staleness := true
  intrusion := true
  parallel := true
  overlap := true
  listing _ _ := true

/-- One reconcile at a time, current reads, and objects left to the operator; users act
between any two calls, and `listing` holds whenever a namespace is listed. -/
def closedSetting (listing : NamespacedName → World → Bool) : Setting where
  forgery := false
  staleness := false
  intrusion := false
  parallel := false
  overlap := true
  listing := listing

theorem closed_closedSetting (listing : NamespacedName → World → Bool) :
    (closedSetting listing).Closed :=
  ⟨⟨rfl, rfl, rfl⟩, rfl⟩

/-- Besides, users wait until a reconcile is done. -/
def quietSetting (listing : NamespacedName → World → Bool) : Setting :=
  { closedSetting listing with overlap := false }

theorem quiet_quietSetting (listing : NamespacedName → World → Bool) :
    (quietSetting listing).Quiet :=
  ⟨⟨⟨rfl, rfl, rfl⟩, rfl⟩, rfl⟩

/-! ## A small cluster

The operator for the trust domain `t`, with the hash values of the two identities that
the bindings of the namespace `n` ask for. -/

/-- The SPIFFE ID of a variant of the pool `n/p`. -/
def trialSPIFFEID (variant : String) : GoString :=
  str "spiffe://t/ns/n/sa/s/inference/pool/p/variant/" ++ str variant

/-- SHA-1 of the SPIFFE IDs in use. -/
def trialSHA1 (input : GoString) : List UInt8 :=
  if input = trialSPIFFEID "v" then
    [228, 195, 122, 114, 126, 113, 86, 217, 41, 65, 120, 4, 16, 140, 92, 106, 228, 139, 214, 207]
  else if input = trialSPIFFEID "w" then
    [221, 76, 27, 78, 78, 94, 248, 61, 73, 233, 158, 247, 10, 91, 105, 151, 160, 123, 121, 168]
  else []

/-- What the fingerprint of a variant of the pool `n/p` is computed from. -/
def trialStream (variant : String) : GoString :=
  fingerprintStream [str "k8s:ns:n", str "k8s:pod-label:a:b",
    str "k8s:pod-label:identity.kleym.sonda.red/variant:" ++ str variant, str "k8s:sa:s"]

/-- SHA-256 of the selector streams in use. -/
def trialSHA256 (input : GoString) : List UInt8 :=
  if input = trialStream "v" then
    [191, 96, 138, 114, 158, 242, 136, 112, 200, 223, 84, 85, 250, 159, 166, 157, 121, 182, 221,
      34, 90, 202, 186, 86, 240, 113, 160, 190, 31, 75, 48, 97]
  else if input = trialStream "w" then
    [69, 44, 34, 56, 106, 250, 111, 211, 166, 125, 245, 231, 115, 84, 228, 200, 132, 121, 199, 58,
      208, 202, 249, 216, 12, 151, 157, 239, 56, 249, 65, 175]
  else []

/-- The operator of the trial runs. -/
def trialReconciler : Reconciler :=
  ⟨referencePlatform trialSHA1 trialSHA256, ⟨str "t", []⟩, []⟩

/-- A binding of the namespace `n`. -/
def trialKey (name : String) : NamespacedName := ⟨str "n", str name⟩

/-- A user creates a binding for a variant of the pool. -/
def Move.create (name variant : String) : Move :=
  .user (.createBinding (trialKey name) (str name) [] (smallSpec variant))

/-- A user asks for another variant. -/
def Move.edit (name variant : String) : Move :=
  .user (.editBinding (trialKey name) (smallSpec variant))

/-- The pool kind is served, the pool is there, and `x` asks for the variant `v`. -/
def trialPrelude : List Move :=
  [.user (.serve [smallPoolGVK]), .user (.putPool smallPool), .create "x" "v"]

/-- Besides, the operator has reconciled `x`, in thirteen calls. -/
def trialReady : List Move := trialPrelude ++ [.start (trialKey "x"), .proceed 13, .stop]

end Kleym
