import HyperTrace.Collector.Collect
import HyperTrace.System

/-!
# From the kubelet to the detector

The collectors of the nodes and the cost engine in front of the running system, with
the two queues between them. A message may be taken in any order, be kept for another
delivery, and be published more than once when a confirmation is lost.

A cost event carries the time at which the engine handled the metric event, not the
time of the metric event. So which cycle a reading stems from is known to none of the
services; it is kept here beside the messages and the threads.
-/

namespace HyperTrace

open Effect

variable {K : Type}

structure Pipeline (K : Type) where
  /-- The queue `cost-intelligence.metrics`. -/
  metrics : List (Collector.Metric K)
  /-- The queue `behaviour-analysis.cost`, with the timestamps of the metric events. -/
  costs : List (Time × CostEvent K)
  /-- `_cache` of the collector of each node. -/
  caches : String → Collector.Cache
  system : SysConfig K
  /-- For each thread that handles a cost event, the timestamp of the metric event it stems from. -/
  cycle : Nat → Time

/-- What can happen next. -/
inductive Move (K : Type) where
  /-- The collector of a node begins a cycle. -/
  | collect (api : Collector.OwnerApi) (cluster node : String) (nodeUsage : Collector.Usage K)
      (pods : List (Collector.PodUsage K)) (published : Nat)
  /-- The cost engine handles the `n`-th metric event. -/
  | price (n copies : Nat) (again : Bool)
  /-- The detector is delivered the `n`-th cost event. -/
  | deliver (n : Nat) (again : Bool)
  /-- Anything else that happens in the running system. -/
  | act (a : SysAct K)

/-- What is left of a queue when the `n`-th message was taken, and perhaps not acked. -/
def taken {α : Type} (queue : List α) (n : Nat) (again : Bool) : List α :=
  if again then queue else queue.eraseIdx n

/-- A cost event that no cost engine sent. -/
def startsCost : SysAct K → Bool
  | .start (.cost _) => true
  | _ => false

namespace Pipeline

variable [Scalar K]

def init (K : Type) [Scalar K] (cfg : Settings) : Pipeline K where
  metrics := []
  costs := []
  caches _ _ := none
  system := (HyperTrace.system cfg).init (World.empty K)
  cycle _ := 0

def step (cfg : Settings) (pricing : Cost.PricingModel K) (p : Pipeline K) :
    Move K → Option (Pipeline K)
  | .collect api cluster node nodeUsage pods published =>
      let collected := Collector.collectOnce api cluster node p.system.world.clock nodeUsage pods
        published (p.caches node)
      some { p with
        metrics := p.metrics ++ collected.1
        caches := fun n => if n = node then collected.2 else p.caches n }
  | .price n copies again =>
      match p.metrics[n]? with
      | none => none
      | some m =>
          let event := Cost.handle pricing p.system.world.clock m.event
          some { p with
            metrics := taken p.metrics n again
            costs := p.costs ++ event.toList.flatMap fun e => List.replicate copies (m.timestamp, e) }
  | .deliver n again =>
      match p.costs[n]? with
      | none => none
      | some e =>
          match (HyperTrace.system cfg).step p.system (.start (.cost e.2)) with
          | none => none
          | some c => some { p with
              costs := taken p.costs n again
              system := c
              cycle := fun i => if i = p.system.threads.length then e.1 else p.cycle i }
  | .act a =>
      if startsCost a then none
      else ((HyperTrace.system cfg).step p.system a).map fun c => { p with system := c }

/-- States reached by moves that all meet the condition `P`. -/
inductive Run (cfg : Settings) (pricing : Cost.PricingModel K)
    (P : Pipeline K → Move K → Prop) : Pipeline K → Prop where
  | init : Run cfg pricing P (init K cfg)
  | tail {p p' : Pipeline K} {a : Move K} : Run cfg pricing P p → P p a →
      p.step cfg pricing a = some p' → Run cfg pricing P p'

/-- A whole schedule, stopping at a move that is not possible. -/
def steps (cfg : Settings) (pricing : Cost.PricingModel K) (ok : Pipeline K → Move K → Bool)
    (p : Pipeline K) : List (Move K) → Option (Pipeline K)
  | [] => some p
  | a :: as =>
      if ok p a then
        match p.step cfg pricing a with
        | none => none
        | some p' => steps cfg pricing ok p' as
      else none

end Pipeline

end HyperTrace
