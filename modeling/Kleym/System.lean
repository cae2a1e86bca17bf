import Mathlib.Logic.Relation
import Kleym.Reconcile

/-!
# The operator and everybody else

The operator runs against a cluster that others use too: users write bindings and
pools, other programs create `ClusterSPIFFEID`s of their own, a process stops in the
middle of a reconcile. `Step` is one step of all of them, at the granularity of
single API calls, and a state is `Reachable` when some run from the empty cluster
ends in it.

How rough the surroundings are is in a `Setting`. In every setting a call may fail
with or without having taken effect, and a reconcile may stop between any two
calls.
-/

namespace Kleym

open GoString Prog

/-! ## Settings -/

/-- What may happen in a run besides the operator's own steps. -/
structure Setting where
  /-- others write the status and the finalizers of bindings -/
  forgery : Bool
  /-- reads are served from a cache, and may say NotFound of what exists -/
  staleness : Bool
  /-- others change and delete the objects the operator created -/
  intrusion : Bool
  /-- several reconciles run at a time -/
  parallel : Bool
  /-- users act between the calls of a reconcile -/
  overlap : Bool
  /-- what holds whenever the reconcile of a binding lists its namespace -/
  listing : NamespacedName → World → Bool

namespace Setting

/-- Records are written by the operator only. -/
def Honest (S : Setting) : Prop := S.forgery = false

/-- Besides, one reconcile runs at a time and reads what is there. -/
def Tidy (S : Setting) : Prop :=
  S.forgery = false ∧ S.staleness = false ∧ S.parallel = false

/-- Besides, the operator's objects are left to the operator. -/
def Closed (S : Setting) : Prop := S.Tidy ∧ S.intrusion = false

/-- Besides, users wait until a reconcile is done. -/
def Quiet (S : Setting) : Prop := S.Closed ∧ S.overlap = false

theorem Tidy.honest {S : Setting} (h : S.Tidy) : S.Honest := h.1

theorem Closed.tidy {S : Setting} (h : S.Closed) : S.Tidy := h.1

theorem Closed.honest {S : Setting} (h : S.Closed) : S.Honest := h.1.1

theorem Quiet.closed {S : Setting} (h : S.Quiet) : S.Closed := h.1

end Setting

/-! ## Users and other programs -/

/-- A claim that the operator has not generated. -/
def World.Unissued (w : World) (claim : GoString) : Prop := claim ∉ w.claims.map Prod.fst

instance (w : World) (claim : GoString) : Decidable (w.Unissued claim) :=
  inferInstanceAs (Decidable (_ ∉ _))

/-- An object that the operator has not created. -/
def World.Foreign (w : World) (o : ClusterSPIFFEID) : Prop := o.uid ∉ w.created.map Prod.fst

instance (w : World) (o : ClusterSPIFFEID) : Decidable (w.Foreign o) :=
  inferInstanceAs (Decidable (_ ∉ _))

/-- What others do to the cluster. -/
inductive UserOp : Type where
  | createBinding (key : NamespacedName) (uid : GoString) (finalizers : List GoString)
      (spec : BindingSpec)
  | editBinding (key : NamespacedName) (spec : BindingSpec)
  | deleteBinding (key : NamespacedName)
  | writeBinding (key : NamespacedName) (finalizers : List GoString) (status : Status)
  | putPool (pool : InferencePool)
  | deletePool (key : GroupVersionKind × NamespacedName)
  | serve (kinds : List GroupVersionKind)
  | createObject (uid : GoString) (object : ClusterSPIFFEID)
  | modifyObject (object : ClusterSPIFFEID)
  | terminateObject (name : GoString)
  | removeObject (name : GoString)

namespace UserOp

/-- The state an operation leaves. A binding is created without a status; changing
its spec moves its generation; deleting it only marks it while it has finalizers. -/
def apply (w : World) : UserOp → World
  | createBinding key uid finalizers spec =>
    { w.saveBinding ⟨key, uid, 0, 1, false, finalizers, spec, {}⟩ with
      identifiers := uid :: w.identifiers }
  | editBinding key spec =>
    match w.bindings.get key with
    | none => w
    | some b => w.saveBinding (b.replacedBy { b with spec := spec })
  | deleteBinding key =>
    match w.bindings.get key with
    | none => w
    | some b => w.settleBinding b.markedDeleted
  | writeBinding key finalizers status =>
    match w.bindings.get key with
    | none => w
    | some b => w.settleBinding { b with finalizers := finalizers, status := status }
  | putPool pool => { w with pools := w.pools.put pool }
  | deletePool key => { w with pools := w.pools.erase key }
  | serve kinds => { w with served := kinds }
  | createObject uid object =>
    { w.saveObject (object.createdAs uid) with
      identifiers := uid :: clusterSPIFFEIDOwnershipClaim object :: w.identifiers }
  | modifyObject object =>
    match w.objects.get object.name with
    | none => w
    | some stored =>
      { w.saveObject { stored.replacedBy object with uid := stored.uid } with
        identifiers := clusterSPIFFEIDOwnershipClaim object :: w.identifiers }
  | terminateObject name =>
    match w.objects.get name with
    | none => w
    | some stored => w.saveObject stored.markedDeleted
  | removeObject name => w.dropObject name

/-- When an operation is possible in a setting. New identifiers are new, nobody
copies a claim the operator generated, what is terminating may go at any time, and the
server validates the objects of others as it does those of the operator. -/
def Permitted (S : Setting) (w : World) : UserOp → Prop
  | createBinding key uid _ _ => w.bindings.get key = none ∧ w.Fresh uid
  | writeBinding _ _ status => S.forgery = true ∧ status.Admitted
  | createObject uid object =>
    w.objects.get object.name = none ∧ w.Fresh uid ∧
      w.Unissued (clusterSPIFFEIDOwnershipClaim object) ∧ object.ValidLabels
  | modifyObject object =>
    object.ValidLabels ∧ ∀ stored ∈ w.objects.get object.name,
      (clusterSPIFFEIDOwnershipClaim object = clusterSPIFFEIDOwnershipClaim stored ∨
        w.Unissued (clusterSPIFFEIDOwnershipClaim object)) ∧
      (S.intrusion = true ∨ w.Foreign stored)
  | terminateObject name =>
    ∀ stored ∈ w.objects.get name, S.intrusion = true ∨ w.Foreign stored
  | removeObject name =>
    ∀ stored ∈ w.objects.get name,
      S.intrusion = true ∨ w.Foreign stored ∨ stored.terminating = true
  | _ => True

instance (S : Setting) (w : World) (op : UserOp) : Decidable (op.Permitted S w) := by
  cases op <;> unfold Permitted <;> infer_instance

/-- The end of a termination, which waits for nobody. -/
def isRemoval : UserOp → Bool
  | removeObject _ => true
  | _ => false

end UserOp

/-! ## Runs -/

/-- The binding whose reconcile lists its namespace. -/
def Call.reader : Call → Option NamespacedName
  | .listBindings reader _ => some reader
  | _ => none

/-- A read of a `ClusterSPIFFEID`. -/
def Call.isObjectRead : Call → Bool
  | .getClusterSPIFFEID _ => true
  | _ => false

/-- How a call may be answered in a setting. What is handed out is new; an error of
the API is never one of the operator's state errors. -/
structure Admissible (S : Setting) (choice : Choice) (c : Call) (w : World) : Prop where
  fresh : w.Fresh choice.fresh
  plain : ∀ err ∈ choice.fault.error, errorsAsStateError err = none
  current : S.staleness = false → choice.reading = .current
  truthful : S.staleness = false → c.isObjectRead = true →
    ∀ err ∈ choice.fault.error, err.kind ≠ .notFound
  listing : ∀ reader ∈ c.reader, S.listing reader w = true

theorem admissible_iff {S : Setting} {choice : Choice} {c : Call} {w : World} :
    Admissible S choice c w ↔ w.Fresh choice.fresh ∧
      (∀ err ∈ choice.fault.error, errorsAsStateError err = none) ∧
      (S.staleness = false → choice.reading = .current) ∧
      (S.staleness = false → c.isObjectRead = true →
        ∀ err ∈ choice.fault.error, err.kind ≠ .notFound) ∧
      ∀ reader ∈ c.reader, S.listing reader w = true :=
  ⟨fun h => ⟨h.fresh, h.plain, h.current, h.truthful, h.listing⟩,
    fun h => ⟨h.1, h.2.1, h.2.2.1, h.2.2.2.1, h.2.2.2.2⟩⟩

instance (S : Setting) (choice : Choice) (c : Call) (w : World) :
    Decidable (Admissible S choice c w) :=
  decidable_of_iff _ admissible_iff.symm

/-- A reconcile that is under way: what is left of it, and its calls so far. -/
structure Thread where
  prog : Op (Except GoError ReconcileResult)
  log : List (Event Call Answer)

/-- The cluster and the reconciles under way. -/
structure SystemState where
  world : World
  threads : List Thread

/-- The empty cluster. -/
def SystemState.initial : SystemState := ⟨World.initial [], []⟩

/-- One step of a run. -/
inductive Step (r : Reconciler) (S : Setting) : SystemState → SystemState → Prop
  | user {w : World} {threads : List Thread} (op : UserOp) (hpermitted : op.Permitted S w)
      (hturn : S.overlap = true ∨ threads = [] ∨ op.isRemoval = true) :
      Step r S ⟨w, threads⟩ ⟨op.apply w, threads⟩
  | start {w : World} {threads : List Thread} (key : NamespacedName)
      (hturn : S.parallel = true ∨ threads = []) :
      Step r S ⟨w, threads⟩ ⟨w, ⟨r.reconcile key, []⟩ :: threads⟩
  | answer {w : World} {before after : List Thread} {c : Call}
      {k : Answer c → Op (Except GoError ReconcileResult)} {log : List (Event Call Answer)}
      (choice : Choice) (hchoice : Admissible S choice c w) :
      Step r S ⟨w, before ++ ⟨.call c k, log⟩ :: after⟩
        ⟨(respond choice c w).2,
          before ++ ⟨k (respond choice c w).1, log ++ [⟨c, (respond choice c w).1⟩]⟩ :: after⟩
  /-- a reconcile returns, or its process stops -/
  | stop {w : World} {before after : List Thread} {t : Thread} :
      Step r S ⟨w, before ++ t :: after⟩ ⟨w, before ++ after⟩

/-- The states of all runs. -/
def Reachable (r : Reconciler) (S : Setting) (s : SystemState) : Prop :=
  Relation.ReflTransGen (Step r S) .initial s

end Kleym
