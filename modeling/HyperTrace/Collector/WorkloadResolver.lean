import HyperTrace.Collector.K8sEvents

/-!
# Which workload a pod belongs to

`workload_resolver.py` of the collector, and the resource reference that
`_collect_once` puts on the metrics of a pod. What the API server answers about
owners is a parameter: it may say anything, and it may fail.
-/

namespace HyperTrace.Collector

/-- `V1OwnerReference` -/
structure OwnerReference where
  kind : String
  name : ObjectName

/-- The two reads of the API server, each answering the owner references of an object. -/
structure OwnerApi where
  /-- `read_namespaced_pod(name, namespace)` -/
  pod : ObjectName → ObjectName → Except Err (List OwnerReference)
  /-- `read_namespaced_replica_set(name, namespace)` -/
  replicaSet : ObjectName → ObjectName → Except Err (List OwnerReference)

/-- `CACHE_TTL_SECONDS` -/
def cacheTtl : Time := 300000000

/-- `_cache`: the workload found for a pod, and when. -/
abbrev Cache := ObjectName × ObjectName → Option (ObjectName × Time)

/-- The owner's name, through the ReplicaSet if that is the owner; a pod without one is its own. -/
def lookup (api : OwnerApi) (ns pod : ObjectName) : ObjectName :=
  match api.pod pod ns with
  | .error _ => pod
  | .ok owners =>
      match owners.head? with
      | none => pod
      | some owner =>
          if owner.kind = "ReplicaSet" then
            match api.replicaSet owner.name ns with
            | .error _ => pod
            | .ok rsOwners => (rsOwners.head?.map OwnerReference.name).getD owner.name
          else owner.name

def resolve (api : OwnerApi) (cache : Cache) (now : Time) (ns pod : ObjectName) :
    ObjectName × Cache :=
  let key := (ns, pod)
  let miss :=
    let workload := lookup api ns pod
    (workload, fun k => if k = key then some (workload, now) else cache k)
  match cache key with
  | some (workload, seenAt) => if now - seenAt < cacheTtl then (workload, cache) else miss
  | none => miss

/-- The pod has an entry younger than the TTL. -/
def Fresh (cache : Cache) (now : Time) (ns pod : ObjectName) : Prop :=
  ∃ workload seenAt, cache (ns, pod) = some (workload, seenAt) ∧ now - seenAt < cacheTtl

theorem resolve_of_entry {cache : Cache} {now seenAt : Time} {ns pod workload : ObjectName}
    (api : OwnerApi) (hentry : cache (ns, pod) = some (workload, seenAt))
    (hyoung : now - seenAt < cacheTtl) : resolve api cache now ns pod = (workload, cache) := by
  simp [resolve, hentry, hyoung]

/-- Without such an entry the owner is looked up, and what is found is cached. -/
theorem resolve_of_not_fresh {cache : Cache} {now : Time} {ns pod : ObjectName} (api : OwnerApi)
    (h : ¬ Fresh cache now ns pod) :
    resolve api cache now ns pod = (lookup api ns pod,
      fun k => if k = (ns, pod) then some (lookup api ns pod, now) else cache k) := by
  unfold resolve
  cases hc : cache (ns, pod) with
  | none => simp [hc]
  | some entry =>
      obtain ⟨workload, seenAt⟩ := entry
      have hold : ¬ now - seenAt < cacheTtl := fun hyoung => h ⟨workload, seenAt, hc, hyoung⟩
      simp [hc, hold]

/-- What was returned is what is cached. -/
theorem resolve_entry (api : OwnerApi) (cache : Cache) (now : Time) (ns pod : ObjectName) :
    ∃ seenAt, (resolve api cache now ns pod).2 (ns, pod)
      = some ((resolve api cache now ns pod).1, seenAt) := by
  by_cases h : Fresh cache now ns pod
  · obtain ⟨workload, seenAt, hentry, hyoung⟩ := h
    rw [resolve_of_entry api hentry hyoung]
    exact ⟨seenAt, hentry⟩
  · rw [resolve_of_not_fresh api h]
    exact ⟨now, if_pos rfl⟩

theorem resolve_other {api : OwnerApi} {cache : Cache} {now : Time} {ns pod : ObjectName}
    {key : ObjectName × ObjectName} (hkey : key ≠ (ns, pod)) :
    (resolve api cache now ns pod).2 key = cache key := by
  by_cases h : Fresh cache now ns pod
  · obtain ⟨workload, seenAt, hentry, hyoung⟩ := h
    rw [resolve_of_entry api hentry hyoung]
  · rw [resolve_of_not_fresh api h]
    exact if_neg hkey

/-- The resource a pod's metrics are published for. -/
def podResource (cluster node : String) (ns pod workload : ObjectName) : ResourceRef where
  cluster := cluster
  namespace_ := ns.text
  node := node
  pod := some pod.text
  container := none
  service := some workload.text

end HyperTrace.Collector
