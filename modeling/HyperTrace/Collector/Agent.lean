import HyperTrace.Collector.KubeletClient
import HyperTrace.Effect.Polling
import Mathlib.Logic.Function.Basic

/-!
# The collecting thread

`_collect_loop` of the collector down to the single call: the kubelet's summary is fetched,
the owner of each pod is read from the API server unless a young enough answer is cached,
and each metric is published as soon as it is made. An exception ends the cycle where it
stands; what the resolver cached until then stays cached.
-/

namespace HyperTrace.Collector.Agent

open Effect

variable {K : Type}

/-- `V1OwnerReference` -/
structure Owner where
  kind : String
  name : String

/-- Every call of the thread. -/
inductive Op (K : Type) where
  /-- `time.monotonic()` -/
  | monotonic
  | sleep (d : ℤ)
  /-- `fetch_stats_summary(core_v1, config.NODE_NAME)` -/
  | fetchStatsSummary
  /-- `datetime.now(timezone.utc)` -/
  | now
  /-- `read_namespaced_pod(name, namespace)`, for its owner references. -/
  | readNamespacedPod (name : String) (ns : Option String)
  /-- `read_namespaced_replica_set(name, namespace)`, for its owner references. -/
  | readNamespacedReplicaSet (name : String) (ns : Option String)
  /-- `mq.publish(ROUTING_KEY_METRIC, ...)` -/
  | publish (metric : MetricEvent K)

/-- What each call returns. -/
def Op.Res : Op K → Type
  | .monotonic => ℤ
  | .fetchStatsSummary => StatsSummary
  | .now => Time
  | .readNamespacedPod _ _ => List Owner
  | .readNamespacedReplicaSet _ _ => List Owner
  | _ => Unit

/-- `(namespace, pod_name)` -/
abbrev Key := Option String × String

/-- `_cache`: the workload found for a pod, and what the clock showed. -/
abbrev Entries := Key → Option (String × ℤ)

/-- A method of the thread, on the resolver's cache. -/
abbrev AgentMethod (K α : Type) := Method (Op K) Op.Res Err Entries α

abbrev call (o : Op K) : AgentMethod K o.Res := Method.perform o

def monotonic : AgentMethod K ℤ := call .monotonic

/-- `_lookup` -/
def lookup (ns : Option String) (pod : String) : AgentMethod K String := do
  try
    let owners ← call (.readNamespacedPod pod ns)
    match List.head? owners with
    | none => pure pod
    | some owner =>
        if owner.kind = "ReplicaSet" then
          let rsOwners ← call (.readNamespacedReplicaSet owner.name ns)
          pure (((List.head? rsOwners).map Owner.name).getD owner.name)
        else
          pure owner.name
  catch _ =>
    pure pod

/-- What is looked up is cached under the time at which it was asked for. -/
def lookUp (ns : Option String) (pod : String) (now : ℤ) : AgentMethod K String := do
  let workload ← lookup ns pod
  modify fun cache => Function.update cache (ns, pod) (some (workload, now))
  pure workload

def resolve (ns : Option String) (pod : String) : AgentMethod K String := do
  let cached := (← get) (ns, pod)
  let now ← monotonic
  match cached with
  | some (workload, seenAt) =>
      if now - seenAt < cacheTtl then
        pure workload
      else
        lookUp ns pod now
  | none => lookUp ns pod now

/-- The loop over the pods. -/
def publishPods (cluster node : String) (now : Time) : List (PodMetrics K) → AgentMethod K Unit
  | [] => pure ()
  | p :: pods => do
      let service ← resolve p.namespace_ p.pod
      let resource ← Method.ofExcept (resourceRef cluster node p.namespace_ (some p.pod) (some service))
      call (.publish ⟨now, resource, p.usage⟩)
      publishPods cluster node now pods

def prune (liveKeys : List Key) (cache : Entries) : Entries := fun key =>
  if key ∈ liveKeys then cache key else none

def collectOnce [Scalar K] (cluster node : String) : AgentMethod K Unit := do
  let summary ← call .fetchStatsSummary
  let now ← call .now
  let nodeUsage ← Method.ofExcept (parseNodeMetrics summary)
  call (.publish (nodeMetric cluster node now nodeUsage))
  let pods ← Method.ofExcept (parsePodMetrics summary)
  publishPods cluster node now pods
  modify (prune (pods.map fun p => (p.namespace_, p.pod)))

/-- A round of `_collect_loop`, at an interval in microseconds. -/
def collectLoop [Scalar K] (cluster node : String) (interval : ℤ) :
    Unit → AgentMethod K (Round Unit Empty) :=
  poll monotonic (fun d => call (.sleep d)) interval (collectOnce cluster node)

end HyperTrace.Collector.Agent
