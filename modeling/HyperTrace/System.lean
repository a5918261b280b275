import HyperTrace.Api.Actions
import HyperTrace.Behaviour.Detector
import HyperTrace.Decision.Engine
import HyperTrace.Executor.Executor

/-!
# The running system

Detector, decision engine, API and executor over one world, any number of their
handlers in progress at once. A consumer handles one delivery at a time; API
requests overlap freely. The environment moves the clock, changes the cluster as
it likes, delivers a message again whose ack was lost, and can put a message on
the remediation queue that no service sent.
-/

namespace HyperTrace

open Effect

variable {K : Type}

structure Settings where
  decision : Decision.Config
  executor : Executor.Config

/-- Which handler a thread runs, and for which input. -/
inductive Tag (K : Type) where
  | traffic (m : TrafficSample K)
  | cost (m : CostEvent K)
  | lifecycle (m : LifecycleEvent)
  | security (m : SecuritySignal)
  | anomaly (m : AnomalyMessage K)
  | approve (user : Api.User) (anomalyId : Uuid)
  | rollback (user : Api.User) (anomalyId : Uuid)
  | createPolicy (user : Api.User) (policy : Api.PolicyIn K)
  | deletePolicy (user : Api.User) (policyId : Uuid)
  | execute (m : RemediationMessage)

/-- What starts a thread: a message from outside, the `n`-th message of a queue, or a request. -/
inductive Start (K : Type) where
  | traffic (m : TrafficSample K)
  | cost (m : CostEvent K)
  | lifecycle (m : LifecycleEvent)
  | security (m : SecuritySignal)
  | anomaly (n : Nat)
  | approve (user : Api.User) (anomalyId : Uuid)
  | rollback (user : Api.User) (anomalyId : Uuid)
  | createPolicy (user : Api.User) (policy : Api.PolicyIn K)
  | deletePolicy (user : Api.User) (policyId : Uuid)
  | remediation (n : Nat)

/-- What happens outside the services. -/
inductive Env where
  | tick (microseconds : Nat)
  | changeCluster (c : Cluster)
  | redeliverAnomaly (n : Nat)
  | redeliverRemediation (n : Nat)
  | forge (m : RemediationMessage)

/-- A consumer takes its next delivery, if it is not handling one. -/
def World.take (w : World K) (consumer : Consumer) (tid : Nat) : Option (World K) :=
  match w.busy consumer with
  | none => some { w with busy := fun c => if c = consumer then some tid else w.busy c }
  | some _ => none

section

variable [Scalar K]

/-- The program of each kind of thread. -/
def program (cfg : Settings) : Tag K → Py K Reply
  | .traffic m => callback .behaviourTraffic (Behaviour.handleTraffic m)
  | .cost m => callback .behaviourCost (Behaviour.handleCost m)
  | .lifecycle m => callback .decisionLifecycle (Decision.handleLifecycle m)
  | .security m => callback .decisionSecurity (Decision.handleSecuritySignal m)
  | .anomaly m => callback .decisionAnomalies (Decision.handleAnomaly cfg.decision m)
  | .approve user anomalyId => Api.approveAction user anomalyId
  | .rollback user anomalyId => Api.rollbackAction user anomalyId
  | .createPolicy user policy => Api.createPolicy user policy
  | .deletePolicy user policyId => Api.deletePolicy user policyId
  | .execute m => callback .executorActions (Executor.handle cfg.executor m)

/-- The tag a start leads to, and the world after the message was taken. -/
def begin (w : World K) (tid : Nat) : Start K → Option (World K × Tag K)
  | .traffic m => (w.take .behaviourTraffic tid).map fun w' => (w', .traffic m)
  | .cost m => (w.take .behaviourCost tid).map fun w' => (w', .cost m)
  | .lifecycle m => (w.take .decisionLifecycle tid).map fun w' => (w', .lifecycle m)
  | .security m => (w.take .decisionSecurity tid).map fun w' => (w', .security m)
  | .anomaly n =>
      match w.anomalyQueue[n]? with
      | none => none
      | some m => (w.take .decisionAnomalies tid).map fun w' =>
          ({ w' with
              anomalyQueue := w.anomalyQueue.eraseIdx n
              anomalyDelivered := w.anomalyDelivered ++ [m] }, .anomaly m)
  | .approve user anomalyId => some (w, .approve user anomalyId)
  | .rollback user anomalyId => some (w, .rollback user anomalyId)
  | .createPolicy user policy => some (w, .createPolicy user policy)
  | .deletePolicy user policyId => some (w, .deletePolicy user policyId)
  | .remediation n =>
      match w.remediationQueue[n]? with
      | none => none
      | some m => (w.take .executorActions tid).map fun w' =>
          ({ w' with
              remediationQueue := w.remediationQueue.eraseIdx n
              remediationDelivered := w.remediationDelivered ++ [m] }, .execute m)

/-- The environment's moves. -/
def World.env (w : World K) : Env → World K
  | .tick n => { w with clock := w.clock + n }
  | .changeCluster c => { w with cluster := c }
  | .redeliverAnomaly n => { w with anomalyQueue := w.anomalyQueue ++ w.anomalyDelivered[n]?.toList }
  | .redeliverRemediation n =>
      { w with remediationQueue := w.remediationQueue ++ w.remediationDelivered[n]?.toList }
  | .forge m => { w with remediationQueue := w.remediationQueue ++ [m] }

/-- The whole system. -/
def system (cfg : Settings) :
    System (Op K) Op.Res Err (World K) Choice (Tag K) Reply (Start K) Env where
  exec := exec
  start w tid x := (begin w tid x).map fun (w', tag) => (w', tag, program cfg tag)
  env := World.env

end

abbrev SysConfig (K : Type) := Config (Op K) Op.Res Err (World K) (Tag K) Reply
abbrev SysEvent (K : Type) := Event (Op K) Op.Res Err (World K) (Tag K)
abbrev SysAct (K : Type) := Act Choice (Start K) Env
abbrev SysCall (K : Type) := Call (Op K) Op.Res Err

end HyperTrace
