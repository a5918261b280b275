import HyperTrace.Collector.WorkloadResolver
import HyperTrace.Cost.Intelligence

/-!
# A collection cycle

`_collect_once` of the collector: one metric event for the node and one for each pod
on it, all of them with the time at which the cycle began.
-/

namespace HyperTrace.Collector

variable {K : Type}

/-- What `parse_node_metrics` finds, as far as it is read later on. -/
structure Usage (K : Type) where
  cpuUsageCores : K
  memoryWorkingSetBytes : Nat

/-- One of the dicts of `parse_pod_metrics`. -/
structure PodUsage (K : Type) where
  namespace_ : ObjectName
  pod : ObjectName
  usage : Usage K

/-- A published `MetricEvent`: its timestamp, and what the cost engine reads. -/
structure Metric (K : Type) where
  timestamp : Time
  event : Cost.MetricEvent K

def metric (now : Time) (resource : ResourceRef) (usage : Usage K) : Metric K where
  timestamp := now
  event :=
    { resource := resource
      cpuUsageCores := usage.cpuUsageCores
      memoryWorkingSetBytes := usage.memoryWorkingSetBytes }

/-- The resource of the node's own metrics. -/
def nodeResource (cluster node : String) : ResourceRef where
  cluster := cluster
  namespace_ := ""
  node := node
  pod := none
  container := none
  service := none

/-- The loop over the pods. -/
def collectPods (api : OwnerApi) (cluster node : String) (now : Time) :
    List (PodUsage K) → Cache → List (Metric K) × Cache
  | [], cache => ([], cache)
  | p :: pods, cache =>
      let resolved := resolve api cache now p.namespace_ p.pod
      let rest := collectPods api cluster node now pods resolved.2
      (metric now (podResource cluster node p.namespace_ p.pod resolved.1) p.usage :: rest.1,
        rest.2)

def prune (liveKeys : List (ObjectName × ObjectName)) (cache : Cache) : Cache :=
  fun key => if key ∈ liveKeys then cache key else none

/--
A cycle of which the first `published` publishes succeed; the next one, if there is
one, raises and ends it.
-/
def collectOnce (api : OwnerApi) (cluster node : String) (now : Time) (nodeUsage : Usage K)
    (pods : List (PodUsage K)) (published : Nat) (cache : Cache) : List (Metric K) × Cache :=
  let collected := collectPods api cluster node now (pods.take published) cache
  let metrics := metric now (nodeResource cluster node) nodeUsage :: collected.1
  if published ≤ pods.length then (metrics.take published, collected.2)
  else (metrics, prune (pods.map fun p => (p.namespace_, p.pod)) collected.2)

end HyperTrace.Collector
