import HyperTrace.Collector.KubeletClient

/-!
# Odd pods

What a cycle should make of a summary is easy to say: every pod with a name and a
namespace is published, and a field that is missing or null counts as nothing
(`fullCycle`). The cycle does so where it uses `x or 0`; where it relies on the default
of `get` a null makes it raise, and so does a name without a namespace, in the middle of
the publishing. `StatsSummary.Regular` lists the fields in question, and nothing else
keeps a cycle from being a full one.
-/

namespace HyperTrace.Collector

namespace Field

variable {α : Type}

/-- The value; the default for what is missing or null. -/
def orElse (default : α) (f : Field α) : α := f.get.getD default

theorem getD_eq_some {f : Field α} {default a : α} :
    f.getD default = some a ↔ f ≠ null ∧ a = f.orElse default := by
  cases f <;> simp [getD, orElse, get, eq_comm]

theorem getD_of_ne_null {f : Field α} (hnull : f ≠ null) (default : α) :
    f.getD default = some (f.orElse default) := getD_eq_some.mpr ⟨hnull, rfl⟩

theorem notNone_getD_eq_ok {f : Field α} {default a : α} :
    notNone (f.getD default) = .ok a ↔ f ≠ null ∧ a = f.orElse default := by
  rw [← getD_eq_some]
  cases f.getD default <;> simp [notNone]

theorem notNone_getD {f : Field α} (hnull : f ≠ null) (default : α) :
    notNone (f.getD default) = .ok (f.orElse default) := notNone_getD_eq_ok.mpr ⟨hnull, rfl⟩

end Field

/-! ## What a summary says -/

section

variable {K : Type} [Scalar K]

def StatsSummary.nodeStats (summary : StatsSummary) : NodeStats := summary.node.orElse .empty

def StatsSummary.nodeUsage (summary : StatsSummary) : Consumption K where
  cpuUsageCores := (summary.nodeStats.cpu.orElse .empty).cores
  memoryWorkingSetBytes := (summary.nodeStats.memory.orElse .empty).workingSet
  memoryRssBytes := (summary.nodeStats.memory.orElse .empty).rssBytes.get
  networkRxBytesTotal := (summary.nodeStats.network.orElse .empty).rxBytes.get
  networkTxBytesTotal := (summary.nodeStats.network.orElse .empty).txBytes.get

namespace PodStats

def ref (pod : PodStats) : PodReference := pod.podRef.orElse .empty

/-- The name, unless it is empty. -/
def name (pod : PodStats) : Option String := pod.ref.name.get.filter (· ≠ "")

/-- The sums over the containers. -/
def usage (pod : PodStats) : Consumption K where
  cpuUsageCores := ((pod.containers.orElse []).map fun c => (c.cpu.orElse .empty).cores).sum
  memoryWorkingSetBytes :=
    ((pod.containers.orElse []).map fun c => (c.memory.orElse .empty).workingSet).sum
  memoryRssBytes := none
  networkRxBytesTotal := (pod.network.orElse .empty).rxBytes.get
  networkTxBytesTotal := (pod.network.orElse .empty).txBytes.get

end PodStats

/-- A pod that is to be published. -/
structure Entry (K : Type) where
  namespace_ : String
  pod : String
  usage : Consumption K

/-- What is parsed of it. -/
def Entry.parsed (e : Entry K) : PodMetrics K := ⟨some e.namespace_, e.pod, e.usage⟩

/-- Only a pod with a name and a namespace is. -/
def PodStats.entry (pod : PodStats) : Option (Entry K) :=
  match pod.name, pod.ref.namespace_.get with
  | some name, some ns => some ⟨ns, name, pod.usage⟩
  | _, _ => none

def StatsSummary.entries (summary : StatsSummary) : List (Entry K) :=
  (summary.pods.orElse []).filterMap PodStats.entry

variable {σ : Type}

/-- One event for each entry, in order, the resolver being asked for each. -/
def entryEvents (r : Resolver σ) (cluster node : String) (now : Time) :
    List (Entry K) → σ → List (MetricEvent K) × σ
  | [], s => ([], s)
  | e :: entries, s =>
      let resolved := r.resolve (some e.namespace_) e.pod s
      let rest := entryEvents r cluster node now entries resolved.2
      let resource : ResourceRef :=
        { cluster := cluster
          namespace_ := e.namespace_
          node := node
          pod := some e.pod
          container := none
          service := some resolved.1 }
      (⟨now, resource, e.usage⟩ :: rest.1, rest.2)

/-- One event for the node, one for each entry, and then the pruning to exactly the entries. -/
def fullCycle (r : Resolver σ) (cluster node : String) (now : Time) (summary : StatsSummary)
    (s : σ) : Cycle K σ :=
  let events := entryEvents r cluster node now summary.entries s
  { published := nodeMetric cluster node now summary.nodeUsage :: events.1
    resolver :=
      r.prune ((summary.entries (K := K)).map fun e => (some e.namespace_, e.pod)) events.2
    result := .ok () }

end

/-! ## Where a null is not made up for -/

structure NodeStats.Regular (node : NodeStats) : Prop where
  cpu : node.cpu ≠ .null
  memory : node.memory ≠ .null
  network : node.network ≠ .null

structure ContainerStats.Regular (container : ContainerStats) : Prop where
  cpu : container.cpu ≠ .null
  memory : container.memory ≠ .null

/-- What is asked of a pod with a name. -/
structure PodStats.Complete (pod : PodStats) : Prop where
  containers : pod.containers ≠ .null
  each : ∀ container ∈ pod.containers.orElse [], container.Regular
  network : pod.network ≠ .null
  namespace_ : pod.ref.namespace_.get.isSome

structure PodStats.Regular (pod : PodStats) : Prop where
  podRef : pod.podRef ≠ .null
  complete : pod.name.isSome → pod.Complete

structure StatsSummary.Regular (summary : StatsSummary) : Prop where
  node : summary.node ≠ .null
  stats : summary.nodeStats.Regular
  pods : summary.pods ≠ .null
  each : ∀ pod ∈ summary.pods.orElse [], pod.Regular

section Parsing

variable {K : Type} [Scalar K]

theorem parseNodeMetrics_of_regular {summary : StatsSummary} (hnode : summary.node ≠ .null)
    (h : summary.nodeStats.Regular) :
    parseNodeMetrics (K := K) summary = .ok summary.nodeUsage := by
  unfold parseNodeMetrics
  rw [Field.notNone_getD hnode]
  dsimp only [bind, Except.bind]
  rw [← StatsSummary.nodeStats, Field.notNone_getD h.cpu]
  dsimp only
  rw [Field.notNone_getD h.memory]
  dsimp only
  rw [Field.notNone_getD h.network]
  rfl

theorem regular_of_parseNodeMetrics {summary : StatsSummary} {usage : Consumption K}
    (h : parseNodeMetrics summary = .ok usage) :
    summary.node ≠ .null ∧ summary.nodeStats.Regular := by
  obtain ⟨node, hnode, h⟩ := bind_ok h
  obtain ⟨cpu, hcpu, h⟩ := bind_ok h
  obtain ⟨memory, hmemory, h⟩ := bind_ok h
  obtain ⟨network, hnetwork, h⟩ := bind_ok h
  obtain ⟨hne, rfl⟩ := Field.notNone_getD_eq_ok.mp hnode
  exact ⟨hne, (Field.notNone_getD_eq_ok.mp hcpu).1, (Field.notNone_getD_eq_ok.mp hmemory).1,
    (Field.notNone_getD_eq_ok.mp hnetwork).1⟩

theorem sumContainers_of_regular {containers : List ContainerStats}
    (h : ∀ container ∈ containers, container.Regular) (cpuCores : K) (memBytes : Nat) :
    sumContainers containers cpuCores memBytes
      = .ok (cpuCores + (containers.map fun c => (c.cpu.orElse .empty).cores).sum,
          memBytes + (containers.map fun c => (c.memory.orElse .empty).workingSet).sum) := by
  induction containers generalizing cpuCores memBytes with
  | nil => simp [sumContainers]
  | cons container containers ih =>
      have hc := h container (List.mem_cons_self ..)
      unfold sumContainers
      rw [Field.notNone_getD hc.cpu]
      dsimp only [bind, Except.bind]
      rw [Field.notNone_getD hc.memory]
      dsimp only
      rw [ih fun c hc => h c (List.mem_cons_of_mem _ hc)]
      simp only [List.map_cons, List.sum_cons, add_assoc]

theorem regular_of_sumContainers {containers : List ContainerStats} {cpuCores : K}
    {memBytes : Nat} {sums : K × Nat} (h : sumContainers containers cpuCores memBytes = .ok sums) :
    ∀ container ∈ containers, container.Regular := by
  induction containers generalizing cpuCores memBytes with
  | nil => simp
  | cons container containers ih =>
      obtain ⟨cpu, hcpu, h⟩ := bind_ok h
      obtain ⟨memory, hmemory, h⟩ := bind_ok h
      intro c hc
      rcases List.mem_cons.mp hc with rfl | hc
      · exact ⟨(Field.notNone_getD_eq_ok.mp hcpu).1, (Field.notNone_getD_eq_ok.mp hmemory).1⟩
      · exact ih h c hc

theorem parsePod_of_regular {pod : PodStats} (h : pod.Regular) :
    parsePod (K := K) pod = .ok (pod.entry.map Entry.parsed) := by
  have hname : pod.ref.name.get.filter (· ≠ "") = pod.name := rfl
  unfold parsePod
  rw [Field.notNone_getD h.podRef]
  dsimp only [bind, Except.bind]
  rw [← PodStats.ref, hname]
  cases hn : pod.name with
  | none => simp [PodStats.entry, hn]; rfl
  | some name =>
      have hc := h.complete (by rw [hn]; rfl)
      obtain ⟨ns, hns⟩ := Option.isSome_iff_exists.mp hc.namespace_
      dsimp only
      rw [Field.getD_of_ne_null hc.containers]
      dsimp only
      rw [sumContainers_of_regular hc.each, Field.notNone_getD hc.network]
      simp only [PodStats.entry, hn, hns, zero_add]
      rfl

/-- What is parsed has a namespace only if the pod is regular. -/
theorem regular_of_parsePod {pod : PodStats} {parsed : Option (PodMetrics K)}
    (h : parsePod pod = .ok parsed) (hns : ∀ p ∈ parsed, p.namespace_.isSome) : pod.Regular := by
  obtain ⟨ref, href, h⟩ := bind_ok h
  obtain ⟨hpodRef, rfl⟩ := Field.notNone_getD_eq_ok.mp href
  refine ⟨hpodRef, fun hname => ?_⟩
  obtain ⟨name, hname⟩ := Option.isSome_iff_exists.mp hname
  rw [← PodStats.ref, show pod.ref.name.get.filter (· ≠ "") = some name from hname] at h
  dsimp only at h
  cases hcs : pod.containers.getD [] with
  | none =>
      rw [hcs] at h
      cases h
  | some containers =>
      obtain ⟨hcontainers, rfl⟩ := Field.getD_eq_some.mp hcs
      rw [hcs] at h
      obtain ⟨sums, hsums, h⟩ := bind_ok h
      obtain ⟨network, hnetwork, h⟩ := bind_ok h
      obtain rfl := Except.ok.inj h
      exact ⟨hcontainers, regular_of_sumContainers hsums, (Field.notNone_getD_eq_ok.mp hnetwork).1,
        hns _ rfl⟩

theorem parsePods_of_regular {pods : List PodStats} (h : ∀ pod ∈ pods, pod.Regular) :
    parsePods (K := K) pods = .ok ((pods.filterMap PodStats.entry).map Entry.parsed) := by
  induction pods with
  | nil => rfl
  | cons pod pods ih =>
      unfold parsePods
      rw [parsePod_of_regular (h pod (List.mem_cons_self ..)),
        ih fun p hp => h p (List.mem_cons_of_mem _ hp)]
      cases hentry : pod.entry (K := K) with
      | none => rw [List.filterMap_cons_none hentry]; rfl
      | some e => rw [List.filterMap_cons_some hentry]; rfl

theorem parsePodMetrics_of_regular {summary : StatsSummary} (h : summary.Regular) :
    parsePodMetrics (K := K) summary = .ok (summary.entries.map Entry.parsed) := by
  unfold parsePodMetrics
  rw [Field.getD_of_ne_null h.pods]
  exact parsePods_of_regular h.each

theorem regular_of_parsePods {pods : List PodStats} {parsed : List (PodMetrics K)}
    (h : parsePods pods = .ok parsed) (hns : ∀ p ∈ parsed, p.namespace_.isSome) :
    ∀ pod ∈ pods, pod.Regular := by
  induction pods generalizing parsed with
  | nil => simp
  | cons pod pods ih =>
      obtain ⟨first, hfirst, h⟩ := bind_ok h
      obtain ⟨rest, hrest, h⟩ := bind_ok h
      obtain rfl := Except.ok.inj h
      intro p hp
      rcases List.mem_cons.mp hp with rfl | hp
      · exact regular_of_parsePod hfirst fun q hq =>
          hns q (List.mem_append_left _ (Option.mem_toList.mpr hq))
      · exact ih hrest (fun q hq => hns q (List.mem_append_right _ hq)) p hp

end Parsing

section Publishing

variable {K σ : Type} (r : Resolver σ) (cluster node : String) (now : Time)

theorem publishPods_parsed (entries : List (Entry K)) (s : σ) :
    publishPods r cluster node now (entries.map Entry.parsed) s
      = ⟨(entryEvents r cluster node now entries s).1,
          (entryEvents r cluster node now entries s).2, .ok ()⟩ := by
  induction entries generalizing s with
  | nil => rfl
  | cons e entries ih =>
      simp only [List.map_cons, publishPods, Entry.parsed, resourceRef, ih, entryEvents]

/-- The publishing of a pod without a namespace raises. -/
theorem namespace_of_publishPods {pods : List (PodMetrics K)} {s : σ}
    (h : (publishPods r cluster node now pods s).result = .ok ()) :
    ∀ p ∈ pods, p.namespace_.isSome := by
  induction pods generalizing s with
  | nil => simp
  | cons p pods ih =>
      intro q hq
      cases hns : p.namespace_ with
      | none =>
          simp only [publishPods, hns, resourceRef] at h
          cases h
      | some ns =>
          simp only [publishPods, hns, resourceRef] at h
          rcases List.mem_cons.mp hq with rfl | hq
          · rw [hns]; rfl
          · exact ih h q hq

variable [Scalar K]

theorem collectSummary_of_regular {summary : StatsSummary} (h : summary.Regular) (s : σ) :
    collectSummary (K := K) r cluster node now summary s
      = fullCycle r cluster node now summary s := by
  unfold collectSummary
  rw [parseNodeMetrics_of_regular h.node h.stats, parsePodMetrics_of_regular h]
  dsimp only
  rw [publishPods_parsed, List.map_map]
  rfl

/-- A cycle comes to its end only for a regular summary. -/
theorem regular_of_collectSummary {summary : StatsSummary} {s : σ}
    (h : (collectSummary (K := K) r cluster node now summary s).result = .ok ()) :
    summary.Regular := by
  unfold collectSummary at h
  cases hnode : parseNodeMetrics (K := K) summary with
  | error e =>
      rw [hnode] at h
      cases h
  | ok usage =>
      cases hparsed : parsePodMetrics (K := K) summary with
      | error e =>
          rw [hnode, hparsed] at h
          cases h
      | ok parsed =>
          rw [hnode, hparsed] at h
          obtain ⟨hne, hstats⟩ := regular_of_parseNodeMetrics hnode
          unfold parsePodMetrics at hparsed
          cases hpods : summary.pods.getD [] with
          | none =>
              rw [hpods] at hparsed
              cases hparsed
          | some pods =>
              obtain ⟨hpne, rfl⟩ := Field.getD_eq_some.mp hpods
              rw [hpods] at hparsed
              exact ⟨hne, hstats, hpne, regular_of_parsePods hparsed
                (namespace_of_publishPods r cluster node now h)⟩

/-- **A cycle publishes every pod exactly when the summary is regular.** -/
theorem cycle_full_iff (summary : StatsSummary) (s : σ) :
    collectSummary (K := K) r cluster node now summary s = fullCycle r cluster node now summary s
      ↔ summary.Regular := by
  constructor
  · intro h
    have hresult := congrArg Cycle.result h
    exact regular_of_collectSummary r cluster node now hresult
  · intro h
    exact collectSummary_of_regular r cluster node now h s

end Publishing

/-! A pod that does not know its network, between two that do. -/

def networkless : StatsSummary where
  node := .value .empty
  pods := .value
    [ ⟨.value ⟨.value "web", .value "shop"⟩, .value [], .absent⟩,
      ⟨.value ⟨.value "odd", .value "shop"⟩, .value [], .null⟩,
      ⟨.value ⟨.value "api", .value "shop"⟩, .value [], .absent⟩ ]

/-- Every pod is its own workload. -/
def ownName : Resolver Unit where
  resolve _ pod _ := (pod, ())
  prune _ _ := ()

theorem node_silenced :
    (fullCycle (K := ℚ) ownName "local" "node-1" 0 networkless ()).published.map
        (fun m => m.resource.pod) = [none, some "web", some "odd", some "api"]
      ∧ (collectSummary (K := ℚ) ownName "local" "node-1" 0 networkless ()).published.map
        (fun m => m.resource.pod) = [none]
      ∧ (collectSummary (K := ℚ) ownName "local" "node-1" 0 networkless ()).result
        = .error .other := by
  decide +kernel

/-! ## The cycle of the pipeline -/

section Pipeline

variable {K : Type}

/-- What the cost engine reads. -/
def Consumption.read (usage : Consumption K) : Usage K where
  cpuUsageCores := usage.cpuUsageCores
  memoryWorkingSetBytes := usage.memoryWorkingSetBytes

def MetricEvent.read (m : MetricEvent K) : Metric K := metric m.timestamp m.resource m.usage.read

/-- The resolver of `workload_resolver.py`, for the names that Kubernetes allows. -/
structure Serves (r : Resolver Cache) (api : OwnerApi) (now : Time) : Prop where
  resolve : ∀ (ns pod : ObjectName) (cache : Cache), r.resolve (some ns.text) pod.text cache
    = ((Collector.resolve api cache now ns pod).1.text, (Collector.resolve api cache now ns pod).2)
  prune : ∀ (keys : List (ObjectName × ObjectName)) (cache : Cache),
    r.prune (keys.map fun k => (some k.1.text, k.2.text)) cache = Collector.prune keys cache

/-- The entry is of this pod. -/
structure Entry.Of (e : Entry K) (p : PodUsage K) : Prop where
  namespace_ : e.namespace_ = p.namespace_.text
  pod : e.pod = p.pod.text
  usage : e.usage.read = p.usage

variable {r : Resolver Cache} {api : OwnerApi} {now : Time}

theorem entryEvents_read (hr : Serves r api now) (cluster node : String) {entries : List (Entry K)}
    {pods : List (PodUsage K)} (h : List.Forall₂ Entry.Of entries pods) (cache : Cache) :
    (entryEvents r cluster node now entries cache).1.map MetricEvent.read
        = (collectPods api cluster node now pods cache).1
      ∧ (entryEvents r cluster node now entries cache).2
        = (collectPods api cluster node now pods cache).2 := by
  induction h generalizing cache with
  | nil => exact ⟨rfl, rfl⟩
  | @cons e p entries pods hof _ ih =>
      have hresolve := hr.resolve p.namespace_ p.pod cache
      rw [← hof.namespace_, ← hof.pod] at hresolve
      simp only [entryEvents, collectPods, hresolve, List.map_cons]
      refine ⟨congrArg₂ List.cons ?_ (ih _).1, (ih _).2⟩
      simp only [MetricEvent.read, podResource, hof.namespace_, hof.pod, hof.usage]

theorem entries_keys {entries : List (Entry K)} {pods : List (PodUsage K)}
    (h : List.Forall₂ Entry.Of entries pods) :
    entries.map (fun e => (some e.namespace_, e.pod))
      = (pods.map fun p => (p.namespace_, p.pod)).map fun k => (some k.1.text, k.2.text) := by
  induction h with
  | nil => rfl
  | cons hof _ ih => simp only [List.map_cons, hof.namespace_, hof.pod, ih]

/-- A full cycle is the one that the rest of the pipeline is given, with no publish failing. -/
theorem fullCycle_read [Scalar K] (hr : Serves r api now) (cluster node : String)
    {summary : StatsSummary} {pods : List (PodUsage K)}
    (h : List.Forall₂ Entry.Of summary.entries pods) (cache : Cache) :
    ((fullCycle (K := K) r cluster node now summary cache).published.map MetricEvent.read,
        (fullCycle (K := K) r cluster node now summary cache).resolver)
      = collectOnce api cluster node now summary.nodeUsage.read pods (pods.length + 1) cache := by
  obtain ⟨hevents, hcache⟩ := entryEvents_read hr cluster node h cache
  unfold fullCycle collectOnce
  rw [if_neg (by omega), List.take_of_length_le (by omega)]
  dsimp only
  rw [List.map_cons, hevents, hcache, entries_keys h, hr.prune]
  rfl

end Pipeline

end HyperTrace.Collector
