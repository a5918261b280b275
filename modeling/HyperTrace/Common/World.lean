import HyperTrace.Common.Cluster
import HyperTrace.Effect.System
import Mathlib.Data.List.Sort

/-!
# The world the services share, and what a call does to it

Everything two handlers can meet over: the database, the broker's queues, the
cluster, the clock, and the in-memory maps that the threads of one service share.
`Op` lists every call a handler makes, `exec` says what each does.

Calls fail. A `Fault` makes a call raise either before or after it took effect,
the second being the commit or the write whose confirmation was lost. Where SQL
leaves the order of rows open, the choice says which order was returned.
-/

namespace HyperTrace

variable {K : Type}

/-- The six consuming threads. Each handles one delivery at a time. -/
inductive Consumer where
  | behaviourTraffic
  | behaviourCost
  | decisionLifecycle
  | decisionSecurity
  | decisionAnomalies
  | executorActions
  deriving DecidableEq, Repr

structure World (K : Type) where
  clock : Time
  nextUuid : Uuid
  anomalies : List (AnomalyRow K)
  policies : List (PolicyRow K)
  actionsLog : List (ActionRow K)
  baselines : String → String → Option (BaselineRow K)
  cluster : Cluster
  /-- The queue `decision-policy.anomalies`. -/
  anomalyQueue : List (AnomalyMessage K)
  /-- Everything ever delivered from it; the broker may deliver any of it again. -/
  anomalyDelivered : List (AnomalyMessage K)
  /-- The queue `remediation-executor.actions`. -/
  remediationQueue : List RemediationMessage
  remediationDelivered : List RemediationMessage
  /-- `_traffic_z` of the detector. -/
  trafficZ : String → Option K
  /-- `_recent_events` of the decision engine. -/
  recentEvents : String → Option Time
  /-- `_recent_security` of the decision engine. -/
  recentSecurity : String → Option (Time × String)
  /-- The thread that handles a consumer's current delivery. -/
  busy : Consumer → Option Nat

/-- A running system with nothing in it. -/
def World.empty (K : Type) : World K where
  clock := 0
  nextUuid := 0
  anomalies := []
  policies := []
  actionsLog := []
  baselines _ _ := none
  cluster := .empty
  anomalyQueue := []
  anomalyDelivered := []
  remediationQueue := []
  remediationDelivered := []
  trafficZ _ := none
  recentEvents _ := none
  recentSecurity _ := none
  busy _ := none

/-- What is published, by routing key. -/
inductive Payload (K : Type) where
  /-- `anomaly.flagged` -/
  | anomaly (m : AnomalyMessage K)
  /-- `remediation.requested` -/
  | remediation (m : RemediationMessage)

/-- Every call a handler makes. -/
inductive Op (K : Type) where
  | now
  | uuid4
  | insertAnomaly (row : AnomalyRow K)
  | updateAnomaly (id : Uuid) (classification : AnomalyClassification) (evidence : Evidence K)
  /-- `select(anomalies.c.service).where(id == …)` -/
  | anomalyService (id : Uuid)
  /-- `select(policies…).order_by(priority.asc())` -/
  | selectPolicies
  | insertPolicy (row : PolicyRow K)
  | deletePolicy (id : Uuid)
  | insertAction (row : ActionRow K)
  /-- `where(anomaly_id == …, result == …).order_by(desc(executed_at)).limit(1)` -/
  | latestAction (anomalyId : Uuid) (result : ActionResult)
  /-- `where(id == …)` -/
  | actionById (id : Uuid)
  /-- `count(*) where(executed_at >= since, result in results)`, optionally of one service -/
  | countActions (since : Time) (results : List ActionResult) (service : Option String)
  | loadProfile (service metric : String)
  | saveProfile (service metric : String) (row : BaselineRow K)
  | getTrafficZ (service : String)
  | setTrafficZ (service : String) (z : K)
  | getRecentEvent (service : String)
  | setRecentEvent (service : String) (t : Time)
  | getRecentSecurity (service : String)
  | setRecentSecurity (service : String) (entry : Time × String)
  | basicPublish (p : Payload K)
  /-- `basic_ack` or `basic_nack(requeue=False)` -/
  | settle (consumer : Consumer) (ack : Bool)
  | readDeployment (name ns : String)
  | patchDeployment (name ns container : String) (cpu : Json K)
  | listHpas (ns : String)
  | patchHpa (name ns : String) (maxReplicas : Json K)

/-- What each call returns. -/
def Op.Res : Op K → Type
  | .now => Time
  | .uuid4 => Uuid
  | .anomalyService _ => Option String
  | .selectPolicies => List (PolicyRow K)
  | .deletePolicy _ => Nat
  | .latestAction _ _ => Option (ActionRow K)
  | .actionById _ => Option (ActionRow K)
  | .countActions _ _ _ => Nat
  | .loadProfile _ _ => Profile K
  | .getTrafficZ _ => Option K
  | .getRecentEvent _ => Option Time
  | .getRecentSecurity _ => Option (Time × String)
  | .readDeployment _ _ => Deployment
  | .listHpas _ => List Hpa
  | _ => Unit

/-- How the environment resolves a failing call. -/
inductive Fault where
  | none
  /-- The call raises and had no effect. -/
  | before (e : Err)
  /-- The call raises although it took effect. -/
  | after (e : Err)
  deriving DecidableEq, Repr

/-- The environment's part in one call. -/
structure Choice where
  fault : Fault
  /-- The order of rows the query leaves open: rows that tie are returned by this rank. -/
  tie : Nat → Nat

/-- Nothing goes wrong. -/
def Choice.ok : Choice := ⟨.none, id⟩

/-- A handler of one of the services. -/
abbrev Py (K α : Type) := Effect.Prog (Op K) Op.Res Err α

/-- Call an operation. -/
abbrev call (o : Op K) : Py K o.Res := Effect.Prog.perform o

/-- Raise the exception of a failed computation. -/
def lift {α : Type} : Except Err α → Py K α
  | .ok a => pure a
  | .error e => throw e

@[simp] theorem lift_ok {α : Type} (a : α) : lift (K := K) (.ok a) = .ret a := rfl

@[simp] theorem lift_error {α : Type} (e : Err) :
    lift (K := K) (α := α) (.error e) = .raise e := rfl

/-! ## Queries -/

/-- `ORDER BY key`, rows of equal key in the order the database happens to return them. -/
def orderBy {α : Type} (key : α → ℤ) (tie : Nat → Nat) (rows : List α) : List α :=
  (rows.zipIdx.insertionSort fun a b =>
    key a.1 < key b.1 ∨ key a.1 = key b.1 ∧ tie a.2 ≤ tie b.2).map Prod.fst

theorem orderBy_perm {α : Type} (key : α → ℤ) (tie : Nat → Nat) (rows : List α) :
    (orderBy key tie rows).Perm rows := by
  have h := (List.perm_insertionSort (fun a b : α × Nat =>
    key a.1 < key b.1 ∨ key a.1 = key b.1 ∧ tie a.2 ≤ tie b.2) rows.zipIdx).map Prod.fst
  rwa [List.zipIdx_map_fst] at h

@[simp] theorem mem_orderBy {α : Type} {key : α → ℤ} {tie : Nat → Nat} {rows : List α} {x : α} :
    x ∈ orderBy key tie rows ↔ x ∈ rows :=
  (orderBy_perm key tie rows).mem_iff

/-- The rows come out in the order of their keys. -/
theorem orderBy_sorted {α : Type} (key : α → ℤ) (tie : Nat → Nat) (rows : List α) :
    (orderBy key tie rows).Pairwise fun a b => key a ≤ key b := by
  let r : α × Nat → α × Nat → Prop := fun a b =>
    key a.1 < key b.1 ∨ key a.1 = key b.1 ∧ tie a.2 ≤ tie b.2
  have : Std.Total r := ⟨fun a b => by simp only [r]; omega⟩
  have : IsTrans (α × Nat) r := ⟨fun a b c => by simp only [r]; omega⟩
  have h := List.pairwise_insertionSort r rows.zipIdx
  rw [orderBy, List.pairwise_map]
  exact h.imp fun hab => by simp only [r] at hab; omega

/-- The rows of one anomaly with one result, the latest one. -/
def World.latestAction (w : World K) (tie : Nat → Nat) (anomalyId : Uuid) (result : ActionResult) :
    Option (ActionRow K) :=
  (orderBy (fun r => - r.executedAt) tie
    (w.actionsLog.filter fun r => r.anomalyId = some anomalyId && r.result = result)).head?

def World.actionById (w : World K) (id : Uuid) : Option (ActionRow K) :=
  w.actionsLog.find? fun r => r.id = id

/-- The rows the rate limit counts. -/
def counted (since : Time) (results : List ActionResult) (service : Option String)
    (r : ActionRow K) : Bool :=
  since ≤ r.executedAt && results.contains r.result &&
    (match service with
      | none => true
      | some s => r.target = some s)

def World.countActions (w : World K) (since : Time) (results : List ActionResult)
    (service : Option String) : Nat :=
  w.actionsLog.countP (counted since results service)

/-! ## Statements -/

/-- The primary key, the foreign keys and the check of `actions_log`. -/
def World.admits (w : World K) (row : ActionRow K) : Bool :=
  w.actionsLog.all (fun r => r.id ≠ row.id) &&
  row.anomalyId.all (fun a => w.anomalies.any fun r => r.id = a) &&
  row.parentActionId.all (fun a => w.actionsLog.any fun r => r.id = a) &&
  row.rollbackRef.all (fun a => w.actionsLog.any fun r => r.id = a) &&
  modeAllowed row.mode

/-- `INSERT INTO actions_log`. There is no other statement that changes the table. -/
def World.insertAction (w : World K) (row : ActionRow K) : Except Err Unit × World K :=
  if w.admits row then (.ok (), { w with actionsLog := w.actionsLog ++ [row] })
  else (.error .integrity, w)

/-- The primary key and the check of `anomalies`. -/
def World.admitsAnomaly [Scalar K] (w : World K) (row : AnomalyRow K) : Bool :=
  w.anomalies.all (fun r => r.id ≠ row.id) && confidenceAllowed row.confidence

def World.insertAnomaly [Scalar K] (w : World K) (row : AnomalyRow K) :
    Except Err Unit × World K :=
  if w.admitsAnomaly row then
    (.ok (), { w with anomalies := w.anomalies ++ [row] })
  else (.error .integrity, w)

def World.updateAnomaly (w : World K) (id : Uuid) (classification : AnomalyClassification)
    (evidence : Evidence K) : World K :=
  { w with anomalies := w.anomalies.map fun r =>
      if r.id = id then { r with classification, evidence } else r }

/-- `d[key] = v` on a dictionary with string keys. -/
def put {α : Type} (d : String → Option α) (key : String) (v : α) : String → Option α :=
  fun k => if k = key then some v else d k

@[simp] theorem put_self {α : Type} (d : String → Option α) (key : String) (v : α) :
    put d key v key = some v := by
  simp [put]

theorem put_ne {α : Type} (d : String → Option α) {key k : String} (v : α) (h : k ≠ key) :
    put d key v k = d k := by
  simp [put, h]

/-- The upsert of one baseline row. -/
def World.saveProfile (w : World K) (service metric : String) (row : BaselineRow K) : World K :=
  { w with baselines := fun s m => if s = service ∧ m = metric then some row else w.baselines s m }

/-- A published message is in the queue bound to its routing key. -/
def World.enqueue (w : World K) : Payload K → World K
  | .anomaly m => { w with anomalyQueue := w.anomalyQueue ++ [m] }
  | .remediation m => { w with remediationQueue := w.remediationQueue ++ [m] }

/-- The consumer is free for its next delivery. -/
def World.release (w : World K) (consumer : Consumer) : World K :=
  { w with busy := fun c => if c = consumer then none else w.busy c }

/-! ## Executing a call -/

/-- A call that the environment lets fail, before or after its effect. -/
def faulty {α : Type} (f : Fault) (w : World K) (r : Except Err α × World K) :
    Except Err α × World K :=
  match f with
  | .none => r
  | .before e => (.error e, w)
  | .after e => (.error e, r.2)

/-- What one call does. -/
def exec [Scalar K] (w : World K) : (o : Op K) → Choice → Except Err o.Res × World K
  | .now, _ => (.ok w.clock, w)
  | .uuid4, _ => (.ok w.nextUuid, { w with nextUuid := w.nextUuid + 1 })
  | .insertAnomaly row, c => faulty c.fault w (w.insertAnomaly row)
  | .updateAnomaly id cl ev, c => faulty c.fault w (.ok (), w.updateAnomaly id cl ev)
  | .anomalyService id, c =>
      faulty c.fault w (.ok ((w.anomalies.find? fun r => r.id = id).map AnomalyRow.service), w)
  | .selectPolicies, c => faulty c.fault w (.ok (orderBy PolicyRow.priority c.tie w.policies), w)
  | .insertPolicy row, c => faulty c.fault w (.ok (), { w with policies := w.policies ++ [row] })
  | .deletePolicy id, c =>
      faulty c.fault w (.ok (w.policies.countP fun r => r.id = id),
        { w with policies := w.policies.filter fun r => r.id ≠ id })
  | .insertAction row, c => faulty c.fault w (w.insertAction row)
  | .latestAction a r, c => faulty c.fault w (.ok (w.latestAction c.tie a r), w)
  | .actionById id, c => faulty c.fault w (.ok (w.actionById id), w)
  | .countActions since rs s, c => faulty c.fault w (.ok (w.countActions since rs s), w)
  | .loadProfile s m, c =>
      faulty c.fault w (.ok (((w.baselines s m).map BaselineRow.profile).getD fun _ => none), w)
  | .saveProfile s m row, c => faulty c.fault w (.ok (), w.saveProfile s m row)
  | .getTrafficZ s, _ => (.ok (w.trafficZ s), w)
  | .setTrafficZ s z, _ => (.ok (), { w with trafficZ := put w.trafficZ s z })
  | .getRecentEvent s, _ => (.ok (w.recentEvents s), w)
  | .setRecentEvent s t, _ => (.ok (), { w with recentEvents := put w.recentEvents s t })
  | .getRecentSecurity s, _ => (.ok (w.recentSecurity s), w)
  | .setRecentSecurity s e, _ => (.ok (), { w with recentSecurity := put w.recentSecurity s e })
  | .basicPublish p, c => faulty c.fault w (.ok (), w.enqueue p)
  | .settle consumer _, c => faulty c.fault (w.release consumer) (.ok (), w.release consumer)
  | .readDeployment name ns, c =>
      faulty c.fault w
        (match w.cluster.deployment ns name with
          | some d => .ok d
          | none => .error (.api 404), w)
  | .patchDeployment name ns container cpu, c =>
      let r := w.cluster.patchDeployment name ns container cpu
      faulty c.fault w (r.1, { w with cluster := r.2 })
  | .listHpas ns, c => faulty c.fault w (.ok (w.cluster.hpas ns), w)
  | .patchHpa name ns max, c =>
      let r := w.cluster.patchHpa name ns max
      faulty c.fault w (r.1, { w with cluster := r.2 })

end HyperTrace
