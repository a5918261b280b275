import HyperTrace.Collector.Collect

/-!
# What the kubelet reports

`kubelet_client.py` of the collector, and the cycle that publishes what it parses. A
summary is JSON of which any field may be missing or null. The two idioms for that are
kept apart: the default of `d.get(key, default)` stands in for a missing key only, and
what is asked of a `None` afterwards raises; `x or 0` stands in for both.
-/

namespace HyperTrace.Collector

/-- A field of a JSON object. -/
inductive Field (α : Type) where
  | absent
  | null
  | value (a : α)

namespace Field

variable {α : Type}

/-- `d.get(key)` -/
def get : Field α → Option α
  | value a => some a
  | _ => none

/-- `d.get(key, default)` -/
def getD (default : α) : Field α → Option α
  | absent => some default
  | null => none
  | value a => some a

end Field

/-- The value of which an attribute or an item is asked: `None` has none. -/
def notNone {α : Type} : Option α → Except Err α
  | some a => .ok a
  | none => .error .other

structure CpuStats where
  usageNanoCores : Field Nat

structure MemoryStats where
  workingSetBytes : Field Nat
  rssBytes : Field Nat

structure NetworkStats where
  rxBytes : Field Nat
  txBytes : Field Nat

structure NodeStats where
  cpu : Field CpuStats
  memory : Field MemoryStats
  network : Field NetworkStats

structure ContainerStats where
  cpu : Field CpuStats
  memory : Field MemoryStats

structure PodReference where
  name : Field String
  namespace_ : Field String

structure PodStats where
  podRef : Field PodReference
  containers : Field (List ContainerStats)
  network : Field NetworkStats

/-- The payload of `stats/summary`. -/
structure StatsSummary where
  node : Field NodeStats
  pods : Field (List PodStats)

/-! The object `{}`, at each of these types. -/

def CpuStats.empty : CpuStats := ⟨.absent⟩
def MemoryStats.empty : MemoryStats := ⟨.absent, .absent⟩
def NetworkStats.empty : NetworkStats := ⟨.absent, .absent⟩
def NodeStats.empty : NodeStats := ⟨.absent, .absent, .absent⟩
def PodReference.empty : PodReference := ⟨.absent, .absent⟩

section

variable {K : Type} [Scalar K]

/-- The usage fields of the parsed dicts. -/
structure Consumption (K : Type) where
  cpuUsageCores : K
  memoryWorkingSetBytes : Nat
  memoryRssBytes : Option Nat
  networkRxBytesTotal : Option Nat
  networkTxBytesTotal : Option Nat

/-- `(cpu.get("usageNanoCores") or 0) / 1e9` -/
def CpuStats.cores (cpu : CpuStats) : K := (cpu.usageNanoCores.get.getD 0 : Nat) / 1e9

/-- `memory.get("workingSetBytes") or 0` -/
def MemoryStats.workingSet (memory : MemoryStats) : Nat := memory.workingSetBytes.get.getD 0

def parseNodeMetrics (summary : StatsSummary) : Except Err (Consumption K) := do
  let node ← notNone (summary.node.getD .empty)
  let cpu ← notNone (node.cpu.getD .empty)
  let memory ← notNone (node.memory.getD .empty)
  let network ← notNone (node.network.getD .empty)
  return {
    cpuUsageCores := cpu.cores
    memoryWorkingSetBytes := memory.workingSet
    memoryRssBytes := memory.rssBytes.get
    networkRxBytesTotal := network.rxBytes.get
    networkTxBytesTotal := network.txBytes.get }

/-- One dict of `parse_pod_metrics`. -/
structure PodMetrics (K : Type) where
  namespace_ : Option String
  pod : String
  usage : Consumption K

/-- The loop over the containers of a pod. -/
def sumContainers : List ContainerStats → K → Nat → Except Err (K × Nat)
  | [], cpuCores, memBytes => .ok (cpuCores, memBytes)
  | container :: containers, cpuCores, memBytes => do
      let cpu ← notNone (container.cpu.getD .empty)
      let memory ← notNone (container.memory.getD .empty)
      sumContainers containers (cpuCores + cpu.cores) (memBytes + memory.workingSet)

/-- The body of the loop over the pods: nothing for an entry without a name. -/
def parsePod (pod : PodStats) : Except Err (Option (PodMetrics K)) := do
  let ref ← notNone (pod.podRef.getD .empty)
  match ref.name.get.filter (· ≠ "") with
  | none => return none
  | some name =>
      match pod.containers.getD [] with
      | none => throw .typeError
      | some containers =>
          let (cpuCores, memBytes) ← sumContainers containers 0 0
          let network ← notNone (pod.network.getD .empty)
          return some {
            namespace_ := ref.namespace_.get
            pod := name
            usage := {
              cpuUsageCores := cpuCores
              memoryWorkingSetBytes := memBytes
              memoryRssBytes := none
              networkRxBytesTotal := network.rxBytes.get
              networkTxBytesTotal := network.txBytes.get } }

def parsePods : List PodStats → Except Err (List (PodMetrics K))
  | [] => .ok []
  | pod :: pods => do
      let parsed ← parsePod pod
      let rest ← parsePods pods
      return parsed.toList ++ rest

def parsePodMetrics (summary : StatsSummary) : Except Err (List (PodMetrics K)) :=
  match summary.pods.getD [] with
  | none => .error .typeError
  | some pods => parsePods pods

end

/-! ## The cycle -/

section

variable {K σ : Type}

/-- `MetricEvent`, less the two fields nobody sets. -/
structure MetricEvent (K : Type) where
  timestamp : Time
  resource : ResourceRef
  usage : Consumption K

/-- `ResourceRef(...)`: the namespace has to be a string. -/
def resourceRef (cluster node : String) (ns pod service : Option String) :
    Except Err ResourceRef :=
  match ns with
  | none => .error .valueError
  | some ns => .ok
      { cluster := cluster
        namespace_ := ns
        node := node
        pod := pod
        container := none
        service := service }

/-- The resolver a cycle is given, with whatever it keeps. -/
structure Resolver (σ : Type) where
  resolve : Option String → String → σ → String × σ
  prune : List (Option String × String) → σ → σ

/-- What a cycle has published, what the resolver keeps, and whether it came to its end. -/
structure Cycle (K σ : Type) where
  published : List (MetricEvent K)
  resolver : σ
  result : Except Err Unit

/-- The loop over the parsed pods, every publish succeeding. -/
def publishPods (r : Resolver σ) (cluster node : String) (now : Time) :
    List (PodMetrics K) → σ → Cycle K σ
  | [], s => ⟨[], s, .ok ()⟩
  | p :: pods, s =>
      let resolved := r.resolve p.namespace_ p.pod s
      match resourceRef cluster node p.namespace_ (some p.pod) (some resolved.1) with
      | .error e => ⟨[], resolved.2, .error e⟩
      | .ok resource =>
          let rest := publishPods r cluster node now pods resolved.2
          { rest with published := ⟨now, resource, p.usage⟩ :: rest.published }

/-- The metric of the node itself. -/
def nodeMetric (cluster node : String) (now : Time) (usage : Consumption K) : MetricEvent K where
  timestamp := now
  resource := nodeResource cluster node
  usage := usage

/-- `_collect_once`, from the summary on. -/
def collectSummary [Scalar K] (r : Resolver σ) (cluster node : String) (now : Time)
    (summary : StatsSummary) (s : σ) : Cycle K σ :=
  match parseNodeMetrics summary with
  | .error e => ⟨[], s, .error e⟩
  | .ok nodeUsage =>
      match parsePodMetrics summary with
      | .error e => ⟨[nodeMetric cluster node now nodeUsage], s, .error e⟩
      | .ok pods =>
          let cycle := publishPods r cluster node now pods s
          { published := nodeMetric cluster node now nodeUsage :: cycle.published
            resolver :=
              match cycle.result with
              | .ok () => r.prune (pods.map fun p => (p.namespace_, p.pod)) cycle.resolver
              | .error _ => cycle.resolver
            result := cycle.result }

end

end HyperTrace.Collector
